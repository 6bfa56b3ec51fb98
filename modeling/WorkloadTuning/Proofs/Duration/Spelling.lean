import WorkloadTuning.Duration
import WorkloadTuning.Proofs.Text.Digits

/-! What the text of a duration writes: numbers with units, one after another. A text that is not
written so is refused, and all numbers of one that is are added up. -/

namespace WorkloadTuning.Duration

open Text (isDigit digitsValue span_append exists_span)

/-! ### Units -/

inductive TimeUnit where
  | ns
  | us
  | micro
  | ms
  | s
  | m
  | h
deriving DecidableEq, Repr

namespace TimeUnit

def toList : TimeUnit → List Char
  | ns => ['n', 's']
  | us => ['u', 's']
  | micro => ['µ', 's']
  | ms => ['m', 's']
  | s => ['s']
  | m => ['m']
  | h => ['h']

/-- The unit in seconds, rounded to double precision. -/
def scale : TimeUnit → Binary64
  | ns => .ofDecimal false 1 (-9)
  | us | micro => .ofDecimal false 1 (-6)
  | ms => .ofDecimal false 1 (-3)
  | s => .ofNat 1
  | m => .ofNat 60
  | h => .ofNat 3600

theorem toList_ne_nil (u : TimeUnit) : u.toList ≠ [] := by
  cases u <;> exact List.cons_ne_nil _ _

theorem isNumberChar_of_mem (u : TimeUnit) : ∀ c ∈ u.toList, isNumberChar c = false := by
  have hall : u.toList.all fun c => !isNumberChar c := by cases u <;> decide
  simpa using hall

end TimeUnit

theorem unitSeconds?_toList (u : TimeUnit) : unitSeconds? u.toList = some u.scale := by
  cases u <;> rfl

theorem exists_unit {unit : List Char} (h : (unitSeconds? unit).isSome) :
    ∃ u : TimeUnit, unit = u.toList := by
  have hread : ∀ {text : String} (u : TimeUnit), String.ofList unit = text →
      text.toList = u.toList → ∃ u : TimeUnit, unit = u.toList :=
    fun u heq htext => ⟨u, by rw [← htext, ← heq, String.toList_ofList]⟩
  unfold unitSeconds? at h
  split at h
  · next heq => exact hread .ns heq (by decide)
  · next heq => exact hread .us heq (by decide)
  · next heq => exact hread .micro heq (by decide)
  · next heq => exact hread .ms heq (by decide)
  · next heq => exact hread .s heq (by decide)
  · next heq => exact hread .m heq (by decide)
  · next heq => exact hread .h heq (by decide)
  · cases h

/-! ### Numbers -/

/-- Digits with at most one point, of which there is at least one. -/
structure Numeral where
  whole : List Char
  /-- The digits behind the point, if there is a point. -/
  fraction? : Option (List Char)
  isDigit_of_mem : ∀ c ∈ whole ++ fraction?.getD [], isDigit c = true
  ne_nil : whole ++ fraction?.getD [] ≠ []

namespace Numeral

/-- The digits of a whole number. -/
def ofNat (n : Nat) : Numeral where
  whole := Nat.toDigits 10 n
  fraction? := none
  isDigit_of_mem c hc := Text.isDigit_of_mem_toDigits (by simpa using hc)
  ne_nil := by simp [Nat.toDigits_ne_nil]

variable (n : Numeral)

def fraction : List Char :=
  n.fraction?.getD []

def toList : List Char :=
  match n.fraction? with
  | none => n.whole
  | some fraction => n.whole ++ '.' :: fraction

/-- The digits read as one number. -/
def digits : ℕ :=
  digitsValue (n.whole ++ n.fraction)

/-- How many digits stand behind the point. -/
def places : ℕ :=
  n.fraction.length

/-- The number that is written, rounded to double precision. -/
def value : Binary64 :=
  .ofDecimal false n.digits (-n.places)

theorem isNumberChar_of_mem {c : Char} (h : c ∈ n.toList) : isNumberChar c = true := by
  have hdigit : ∀ c ∈ n.whole ++ n.fraction, isNumberChar c = true := by
    intro c hc
    rw [isNumberChar, n.isDigit_of_mem c hc, Bool.true_or]
  unfold toList at h
  split at h
  · exact hdigit c (List.mem_append_left _ h)
  · next fraction heq =>
    rcases List.mem_append.mp h with h | h
    · exact hdigit c (List.mem_append_left _ h)
    · rcases List.mem_cons.mp h with rfl | h
      · rfl
      · refine hdigit c (List.mem_append_right _ ?_)
        rw [Numeral.fraction, heq]
        exact h

theorem toList_ne_nil : n.toList ≠ [] := by
  have hne := n.ne_nil
  unfold toList
  split
  · next heq => simpa [heq] using hne
  · simp

end Numeral

section OfDigits
variable {whole fraction : List Char}

theorem ofDigits?_whole (hwhole : ∀ c ∈ whole, isDigit c = true) :
    Binary64.ofDigits? false whole =
      if whole.isEmpty then none else some (.ofDecimal false (digitsValue whole) 0) := by
  obtain ⟨htake, hdrop⟩ := span_append [] hwhole (by simp)
  rw [List.append_nil] at htake hdrop
  unfold Binary64.ofDigits?
  rw [htake, hdrop]
  simp only [List.append_nil]
  rfl

theorem ofDigits?_pointed (rest : List Char) (hwhole : ∀ c ∈ whole, isDigit c = true)
    (hfraction : ∀ c ∈ fraction, isDigit c = true) (hrest : ∀ c ∈ rest.head?, isDigit c = false) :
    Binary64.ofDigits? false (whole ++ '.' :: (fraction ++ rest)) =
      if (whole ++ fraction).isEmpty then none
      else (Binary64.readExponent? rest).map fun e =>
        .ofDecimal false (digitsValue (whole ++ fraction)) (e - fraction.length) := by
  obtain ⟨htake, hdrop⟩ := span_append ('.' :: (fraction ++ rest)) hwhole
    (by rintro c ⟨⟩; decide)
  obtain ⟨htake', hdrop'⟩ := span_append rest hfraction hrest
  unfold Binary64.ofDigits?
  rw [htake, hdrop]
  simp only [htake', hdrop']
  cases Binary64.readExponent? rest <;> rfl

end OfDigits

theorem ofDigits?_toList (n : Numeral) : Binary64.ofDigits? false n.toList = some n.value := by
  obtain ⟨whole, fraction?, hdigits, hne⟩ := n
  have hwhole : ∀ c ∈ whole, isDigit c = true := fun c hc =>
    hdigits c (List.mem_append_left _ hc)
  cases fraction? with
  | none =>
    have hne : whole ≠ [] := by simpa using hne
    show Binary64.ofDigits? false whole = some (.ofDecimal false (digitsValue (whole ++ [])) (-0))
    rw [ofDigits?_whole hwhole, if_neg (by simpa using hne), List.append_nil]
    rfl
  | some fraction =>
    have hfraction : ∀ c ∈ fraction, isDigit c = true := fun c hc =>
      hdigits c (List.mem_append_right _ hc)
    have hread := ofDigits?_pointed [] hwhole hfraction (by simp)
    rw [List.append_nil, if_neg (by simpa using hne)] at hread
    show Binary64.ofDigits? false (whole ++ '.' :: fraction) = _
    rw [hread]
    show some (Binary64.ofDecimal false _ (0 - (fraction.length : Int))) = _
    rw [Int.zero_sub]
    rfl

/-- What is read of digits and points is a number with at most one point. -/
theorem exists_numeral {s : List Char} (hs : ∀ c ∈ s, isNumberChar c = true)
    (h : (Binary64.ofDigits? false s).isSome) : ∃ n : Numeral, s = n.toList := by
  have hpoint : ∀ c, isNumberChar c = true → isDigit c = false → c = '.' := by
    intro c hc hdigit
    simpa [isNumberChar, hdigit] using hc
  obtain ⟨whole, rest, rfl, hwhole, hrest⟩ := exists_span isDigit s
  cases rest with
  | nil =>
    rw [List.append_nil] at h ⊢
    refine ⟨⟨whole, none, by simpa using hwhole, ?_⟩, rfl⟩
    rintro hnil
    rw [show whole = [] by simpa using hnil] at h
    cases h
  | cons c rest =>
    have hrestChars : ∀ d ∈ c :: rest, isNumberChar d = true := fun d hd =>
      hs d (List.mem_append_right _ hd)
    obtain rfl := hpoint c (hrestChars c List.mem_cons_self) (hrest c rfl)
    obtain ⟨fraction, rest, rfl, hfraction, hrest⟩ := exists_span isDigit rest
    rw [ofDigits?_pointed rest hwhole hfraction hrest] at h
    split at h
    · cases h
    · next hne =>
      obtain rfl : rest = [] := by
        cases rest with
        | nil => rfl
        | cons d rest =>
          -- a second point is no exponent
          obtain rfl := hpoint d (hrestChars d (by simp)) (hrest d rfl)
          cases h
      refine ⟨⟨whole, some fraction, fun c hc => ?_, by simpa using hne⟩, ?_⟩
      · exact (List.mem_append.mp hc).elim (hwhole c) (hfraction c)
      · rw [List.append_nil]
        rfl

/-! ### Terms -/

/-- A number with its unit. -/
structure Term where
  number : Numeral
  unit : TimeUnit

namespace Term

def toList (t : Term) : List Char :=
  t.number.toList ++ t.unit.toList

/-- The seconds that are written, in double precision: the number and the unit are rounded, and so
is their product. -/
def seconds (t : Term) : Binary64 :=
  t.number.value.mul t.unit.scale

theorem head?_toList (t : Term) : ∀ c ∈ t.toList.head?, isNumberChar c = true := by
  intro c hc
  rw [toList, List.head?_append_of_ne_nil _ t.number.toList_ne_nil] at hc
  exact t.number.isNumberChar_of_mem (List.mem_of_head? hc)

end Term

/-- The sum of the terms from left to right, rounded at every step. -/
def totalFrom (sum : Binary64) (terms : List Term) : Binary64 :=
  terms.foldl (fun sum t => sum.add t.seconds) sum

/-- The text is written as these terms. -/
structure Spells (text : String) (terms : List Term) : Prop where
  toList_eq : text.toList = terms.flatMap Term.toList
  ne_nil : terms ≠ []

section SumFrom
variable {sum x : Binary64} {terms : List Term} {rest s : List Char}

/-- The first term is added, and the rest of the text is left. -/
theorem sumFrom_toList_append (t : Term) (hrest : ∀ c ∈ rest.head?, isNumberChar c = true) :
    sumFrom sum (t.toList ++ rest) = sumFrom (sum.add t.seconds) rest := by
  obtain ⟨c, digits, hnumber⟩ := List.exists_cons_of_ne_nil t.number.toList_ne_nil
  have hchars : ∀ d ∈ c :: digits, isNumberChar d = true := fun d hd =>
    t.number.isNumberChar_of_mem (hnumber ▸ hd)
  have hunit : ∀ d ∈ (t.unit.toList ++ rest).head?, isNumberChar d = false := by
    intro d hd
    rw [List.head?_append_of_ne_nil _ t.unit.toList_ne_nil] at hd
    exact t.unit.isNumberChar_of_mem d (List.mem_of_head? hd)
  obtain ⟨htake, hdrop⟩ := span_append (t.unit.toList ++ rest)
    (fun d hd => hchars d (List.mem_cons_of_mem c hd)) hunit
  have htakeUnit : (t.unit.toList ++ rest).takeWhile (fun c => !isNumberChar c) = t.unit.toList :=
    (span_append rest (fun d hd => by rw [t.unit.isNumberChar_of_mem d hd]; rfl)
      fun d hd => by rw [hrest d hd]; rfl).1
  rw [Term.toList, hnumber, List.append_assoc, List.cons_append, sumFrom,
    if_pos (hchars c List.mem_cons_self)]
  dsimp only
  rw [htake, hdrop, htakeUnit, ← hnumber, ofDigits?_toList, unitSeconds?_toList,
    List.drop_left]
  rfl

theorem head?_flatMap (terms : List Term) :
    ∀ c ∈ (terms.flatMap Term.toList).head?, isNumberChar c = true := by
  cases terms with
  | nil => simp
  | cons t terms =>
    have hne : t.toList ≠ [] := by simp [Term.toList, t.number.toList_ne_nil]
    rw [List.flatMap_cons, List.head?_append_of_ne_nil _ hne]
    exact t.head?_toList

theorem sumFrom_flatMap (sum : Binary64) (terms : List Term) :
    sumFrom sum (terms.flatMap Term.toList) = some (totalFrom sum terms) := by
  induction terms generalizing sum with
  | nil => rw [List.flatMap_nil, sumFrom, totalFrom, List.foldl_nil]
  | cons t terms ih =>
    rw [List.flatMap_cons, sumFrom_toList_append t (head?_flatMap terms), ih]
    rfl

theorem exists_terms (sum : Binary64) (s : List Char) :
    (sumFrom sum s).isSome → ∃ terms : List Term, s = terms.flatMap Term.toList := by
  fun_induction sumFrom sum s with
  | case1 sum => exact fun _ => ⟨[], rfl⟩
  | case2 sum c rest hc number tail unit n scale hscale hn ih =>
    intro h
    obtain ⟨terms, hterms⟩ := ih h
    have hchars : ∀ d ∈ number, isNumberChar d = true := by
      intro d hd
      rcases List.mem_cons.mp hd with rfl | hd
      · exact hc
      · exact List.mem_takeWhile_imp hd
    obtain ⟨numeral, hnumeral⟩ := exists_numeral hchars (by rw [hn]; rfl)
    obtain ⟨u, hu⟩ : ∃ u : TimeUnit, unit = u.toList := exists_unit (by rw [hscale]; rfl)
    refine ⟨⟨numeral, u⟩ :: terms, ?_⟩
    have hunit : unit ++ tail.drop unit.length = tail :=
      List.prefix_iff_eq_append.mp (List.takeWhile_prefix _)
    rw [List.flatMap_cons, ← hterms, Term.toList, ← hnumeral, ← hu, List.append_assoc, hunit]
    exact (congrArg (c :: ·) List.takeWhile_append_dropWhile).symm
  | case3 => exact fun h => by cases h
  | case4 => exact fun h => by cases h

theorem sumFrom_eq_some_iff : sumFrom sum s = some x ↔
    ∃ terms : List Term, s = terms.flatMap Term.toList ∧ x = totalFrom sum terms := by
  constructor
  · intro h
    obtain ⟨terms, rfl⟩ := exists_terms sum s (by rw [h]; rfl)
    rw [sumFrom_flatMap] at h
    exact ⟨terms, rfl, (Option.some.inj h).symm⟩
  · rintro ⟨terms, rfl, rfl⟩
    exact sumFrom_flatMap sum terms

end SumFrom

/-! ### Texts -/

def total (terms : List Term) : Binary64 :=
  totalFrom Binary64.zero terms

section Parse
variable {text : String} {terms : List Term}

/-- A number needs a unit, also zero. -/
theorem not_spells_zero (terms : List Term) : ¬Spells "0" terms := by
  rintro ⟨heq, -⟩
  have hsum := sumFrom_flatMap Binary64.zero terms
  rw [← heq, show "0".toList = ['0'] by decide, sumFrom, if_pos (by decide)] at hsum
  cases hsum

theorem parse_of_spells (h : Spells text terms) :
    parse text = match ofBinary64? (total terms) with
      | some d => .ok d
      | none => .error .outOfRange := by
  have hzero : text ≠ "0" := by
    rintro rfl
    exact not_spells_zero terms h
  have hempty : ¬text.isEmpty := by
    rw [String.isEmpty_iff]
    rintro rfl
    obtain ⟨t, rest, rfl⟩ := List.exists_cons_of_ne_nil h.ne_nil
    have hnil := h.toList_eq
    rw [List.flatMap_cons, Term.toList] at hnil
    simp [t.number.toList_ne_nil] at hnil
  rw [parse, if_neg hzero, if_neg hempty, h.toList_eq, sumFrom_flatMap]
  rfl

theorem parse_of_not_spells (hzero : text ≠ "0") (h : ¬∃ terms, Spells text terms) :
    parse text = .error (.invalid text) := by
  rw [parse, if_neg hzero]
  split
  · rfl
  · next hempty =>
    have hnone : sumFrom Binary64.zero text.toList = none := by
      rw [Option.eq_none_iff_forall_ne_some]
      intro x hx
      obtain ⟨terms, heq, -⟩ := sumFrom_eq_some_iff.mp hx
      refine h ⟨terms, heq, ?_⟩
      rintro rfl
      rw [List.flatMap_nil, String.toList_eq_nil_iff] at heq
      exact hempty (by rw [heq]; rfl)
    rw [hnone]

end Parse

end WorkloadTuning.Duration
