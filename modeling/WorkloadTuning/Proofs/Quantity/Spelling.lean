import Mathlib.Data.List.TakeWhile
import Mathlib.Data.Rat.Floor
import WorkloadTuning.Proofs.Quantity.Suffix
import WorkloadTuning.Proofs.Text.Cut
import WorkloadTuning.Proofs.Text.Trim

/-! What a quantity's text writes. A text that is spelled with a known suffix is read as the number
it writes, in thousandths and rounded away from zero, as long as the arithmetic stays within 128
bits; a text that is not spelled so is refused. -/

namespace WorkloadTuning.Quantity

/-! ### Ranges, and rounding up -/

section Ranges
variable {a b i z : Int}

theorem fitsInt128_iff : fitsInt128 i = true ↔ -2 ^ 127 ≤ i ∧ i < 2 ^ 127 := by
  simp only [fitsInt128, Bool.and_eq_true, decide_eq_true_eq]
  omega

theorem fitsInt64_iff : fitsInt64 i = true ↔ -2 ^ 63 ≤ i ∧ i < 2 ^ 63 := by
  simp only [fitsInt64, Bool.and_eq_true, decide_eq_true_eq]
  omega

theorem fitsInt64_clampInt64 (i : Int) : fitsInt64 (clampInt64 i) = true := by
  rw [fitsInt64_iff, clampInt64]
  omega

theorem clampInt64_eq_self (h : fitsInt64 i = true) : clampInt64 i = i := by
  rw [fitsInt64_iff] at h
  rw [clampInt64]
  omega

theorem within128?_of_nonneg (h : 0 ≤ i) :
    within128? i = if i < 2 ^ 127 then some i else none := by
  have hfits : fitsInt128 i = true ↔ i < 2 ^ 127 := by
    rw [fitsInt128_iff]
    omega
  simp only [within128?, hfits]

theorem isNone_within128? (n : ℕ) : (within128? n).isNone = decide (2 ^ 127 ≤ n) := by
  rw [within128?_of_nonneg (by omega)]
  by_cases h : (n : Int) < 2 ^ 127
  · rw [if_pos h, decide_eq_false (by omega)]
    rfl
  · rw [if_neg h, decide_eq_true (by omega)]
    rfl

theorem ceil_of_bounds (hb : 0 < b) (hlow : a ≤ z * b) (hhigh : z * b < a + b) :
    ⌈(a / b : ℚ)⌉ = z := by
  have hpos : (0 : ℚ) < b := by exact_mod_cast hb
  rw [Int.ceil_eq_iff]
  constructor
  · have hless : (z - 1) * b < a := by
      rw [Int.sub_mul]
      omega
    rw [lt_div_iff₀ hpos]
    exact_mod_cast hless
  · rw [div_le_iff₀ hpos]
    exact_mod_cast hlow

theorem ceil_eq_ediv (hb : 0 < b) : ⌈(a / b : ℚ)⌉ = (a + b - 1) / b := by
  apply ceil_of_bounds hb
  · have hless := Int.lt_ediv_add_one_mul_self (a + b - 1) hb
    rw [Int.add_mul] at hless
    omega
  · have hle := Int.ediv_mul_le (a + b - 1) (Int.ne_of_gt hb)
    omega

/-- Towards zero is upwards below zero. -/
theorem tdiv_of_nonpos (b : Int) (h : a ≤ 0) : a.tdiv b = -(-a / b) := by
  rw [← Int.tdiv_eq_ediv_of_nonneg (by omega), Int.neg_tdiv, Int.neg_neg]

/-- Division rounds up as long as the sum before it stays within 128 bits. -/
theorem ceilDiv?_eq_some (hb : 0 < b) (h : a + b < 2 ^ 127) :
    ceilDiv? a b = some ⌈(a / b : ℚ)⌉ := by
  unfold ceilDiv?
  split
  · next ha =>
    have hsum : 0 ≤ a + b := by omega
    rw [within128?_of_nonneg hsum, if_pos h, Option.map_some, ceil_eq_ediv hb]
  · next ha =>
    rw [tdiv_of_nonpos b (by omega), ceil_of_bounds hb]
    · have hle := Int.ediv_mul_le (-a) (Int.ne_of_gt hb)
      rw [Int.neg_mul]
      omega
    · have hless := Int.lt_ediv_add_one_mul_self (-a) hb
      rw [Int.add_mul] at hless
      rw [Int.neg_mul]
      omega

theorem ceilDiv?_eq_none (ha : 0 ≤ a) (h : 2 ^ 127 ≤ a + b) :
    ceilDiv? a b = none := by
  have hsum : 0 ≤ a + b := by omega
  rw [ceilDiv?, if_pos ha, within128?_of_nonneg hsum, if_neg (by omega), Option.map_none]

end Ranges

/-! ### Spellings -/

inductive Sign where
  | absent
  | plus
  | minus
deriving DecidableEq

def Sign.toList : Sign → List Char
  | absent => []
  | plus => ['+']
  | minus => ['-']

def Sign.value : Sign → Int
  | minus => -1
  | absent | plus => 1

/-- A number as it is written: a sign that may be absent, digits with at most one point, of which
there is at least one, and a suffix. -/
structure Spelling where
  sign : Sign
  whole : List Char
  /-- The digits behind the point, if there is a point. -/
  fraction? : Option (List Char)
  suffix : String
  isDigit_of_mem : ∀ c ∈ whole ++ fraction?.getD [], Text.isDigit c = true
  ne_nil : whole ++ fraction?.getD [] ≠ []

namespace Spelling

variable (w : Spelling)

def fraction : List Char :=
  w.fraction?.getD []

/-- The digits with the point. -/
def number : List Char :=
  match w.fraction? with
  | none => w.whole
  | some fraction => w.whole ++ '.' :: fraction

def toList : List Char :=
  w.sign.toList ++ (w.number ++ w.suffix.toList)

/-- The digits read as one number. -/
def digits : ℕ :=
  Nat.ofDigitChars 10 (w.whole ++ w.fraction) 0

/-- How many digits stand behind the point. -/
def places : ℕ :=
  w.fraction.length

/-- The power of ten that the digits are divided by, with the number of places kept in 32 bits. -/
def scale : ℕ :=
  10 ^ (w.places % 4294967296)

/-- The thousandths that are written, for a unit of `num / den` thousandths, rounded up before the
sign is applied. -/
def milli (num den : Int) : Int :=
  w.sign.value * ⌈(w.digits * num / (10 ^ w.places * den) : ℚ)⌉

/-- The parts that the text is taken apart into. -/
def parts : Parts :=
  { negative := w.sign = .minus, whole := w.whole, fraction := w.fraction,
    suffix := w.suffix.toList }

/-- The spelling of the text, less the blanks around it. -/
def Spells (text : String) : Prop :=
  Text.trim text.toList = w.toList

instance (text : String) : Decidable (w.Spells text) :=
  inferInstanceAs (Decidable (Text.trim text.toList = w.toList))

end Spelling

/-! ### Taking a text apart -/

/-- The parts of a text behind its sign. -/
def Parts.ofUnsigned (negative : Bool) (unsigned : List Char) : Parts :=
  let number := unsigned.takeWhile isNumberChar
  let (whole, fraction) := (Text.cut? ['.'] number).getD (number, [])
  { negative, whole, fraction, suffix := unsigned.dropWhile isNumberChar }

theorem Parts.ofText_cases (s : List Char) : ∃ (sign : Sign) (unsigned : List Char),
    s = sign.toList ++ unsigned ∧ ofText s = ofUnsigned (sign = .minus) unsigned := by
  unfold ofText
  split
  · next heq =>
    split at heq
    · next rest =>
      obtain ⟨rfl, rfl⟩ := Prod.mk.inj heq
      exact ⟨.minus, _, rfl, rfl⟩
    · next rest =>
      obtain ⟨rfl, rfl⟩ := Prod.mk.inj heq
      exact ⟨.plus, _, rfl, rfl⟩
    · obtain ⟨rfl, rfl⟩ := Prod.mk.inj heq
      exact ⟨.absent, _, rfl, rfl⟩

/-- A sign is read wherever it can stand. -/
theorem Parts.ofText_sign (sign : Sign) {unsigned : List Char}
    (h : ∀ c ∈ unsigned.head?, c ≠ '-' ∧ c ≠ '+') :
    ofText (sign.toList ++ unsigned) = ofUnsigned (sign = .minus) unsigned := by
  cases sign with
  | minus => rfl
  | plus => rfl
  | absent =>
    obtain ⟨sign, rest, heq, hparts⟩ := ofText_cases unsigned
    rw [show Sign.absent.toList ++ unsigned = unsigned from rfl, hparts]
    cases sign with
    | minus => exact absurd rfl (h '-' (by rw [heq]; rfl)).1
    | plus => exact absurd rfl (h '+' (by rw [heq]; rfl)).2
    | absent =>
      obtain rfl : unsigned = rest := heq
      rfl

namespace Spelling

variable (w : Spelling)

theorem isNumberChar_of_mem {c : Char} (h : c ∈ w.number) : isNumberChar c = true := by
  have hdigit : ∀ c ∈ w.whole ++ w.fraction, isNumberChar c = true := by
    intro c hc
    rw [isNumberChar, w.isDigit_of_mem c hc, Bool.true_or]
  unfold number at h
  split at h
  · exact hdigit c (List.mem_append_left _ h)
  · next fraction heq =>
    rcases List.mem_append.mp h with h | h
    · exact hdigit c (List.mem_append_left _ h)
    · rcases List.mem_cons.mp h with rfl | h
      · rfl
      · refine hdigit c (List.mem_append_right _ ?_)
        rw [Spelling.fraction, heq]
        exact h

theorem number_ne_nil : w.number ≠ [] := by
  have hne := w.ne_nil
  unfold number
  split
  · next heq => simpa [heq] using hne
  · simp

theorem point_not_mem_whole : '.' ∉ w.whole := fun h =>
  absurd (w.isDigit_of_mem '.' (List.mem_append_left _ h)) (by decide)

theorem cut?_number :
    (Text.cut? ['.'] w.number).getD (w.number, []) = (w.whole, w.fraction) := by
  unfold number fraction
  cases w.fraction? with
  | none =>
    have hnone : Text.cut? ['.'] w.whole = none :=
      Text.cut?_eq_none_of_not_isInfix fun h => w.point_not_mem_whole (h.subset List.mem_cons_self)
    simp only [hnone, Option.getD_none]
  | some fraction =>
    have hcut := Text.cut?_append [] fraction w.point_not_mem_whole
    rw [List.append_assoc, List.singleton_append] at hcut
    simp only [hcut, Option.getD_some]

/-- A spelling is taken apart into its parts, if its suffix does not continue the number. -/
theorem ofText_toList (h : ∀ c ∈ w.suffix.toList.head?, isNumberChar c = false) :
    Parts.ofText w.toList = w.parts := by
  have hall : ∀ c ∈ w.number, isNumberChar c = true := fun c hc => w.isNumberChar_of_mem hc
  obtain ⟨htake, hdrop⟩ := Text.span_append w.suffix.toList hall h
  rw [toList, Parts.ofText_sign, Parts.ofUnsigned, htake, hdrop, w.cut?_number]
  · rfl
  · intro c hc
    rw [List.head?_append_of_ne_nil _ w.number_ne_nil] at hc
    have hnumber := hall c (List.mem_of_head? hc)
    constructor
    · rintro rfl
      exact absurd hnumber (by decide)
    · rintro rfl
      exact absurd hnumber (by decide)

end Spelling

/-- What has digits and at most one point is a spelling. -/
theorem exists_spelling {s : List Char}
    (hne : (Parts.ofText s).whole ++ (Parts.ofText s).fraction ≠ [])
    (hpoint : '.' ∉ (Parts.ofText s).fraction) :
    ∃ w : Spelling, s = w.toList ∧ Parts.ofText s = w.parts := by
  obtain ⟨sign, unsigned, rfl, hparts⟩ := Parts.ofText_cases s
  rw [hparts] at hne hpoint ⊢
  have hsplit := List.takeWhile_append_dropWhile (p := isNumberChar) (l := unsigned)
  have hnumber : ∀ c ∈ unsigned.takeWhile isNumberChar, c ≠ '.' → Text.isDigit c = true := by
    intro c hc hother
    have hchar := List.mem_takeWhile_imp hc
    simpa [isNumberChar, hother] using hchar
  unfold Parts.ofUnsigned at hne hpoint ⊢
  generalize unsigned.takeWhile isNumberChar = number at *
  generalize unsigned.dropWhile isNumberChar = suffix at *
  cases hcut : Text.cut? ['.'] number with
  | none =>
    simp only [hcut, Option.getD_none] at hne ⊢
    have hdigits : ∀ c ∈ number ++ [], Text.isDigit c = true := by
      intro c hc
      rw [List.append_nil] at hc
      refine hnumber c hc ?_
      rintro rfl
      exact Text.not_mem_of_cut?_none hcut hc
    refine ⟨⟨sign, number, none, String.ofList suffix, hdigits, hne⟩, ?_, ?_⟩
    · rw [Spelling.toList, String.toList_ofList, ← hsplit]
      rfl
    · rw [Spelling.parts, String.toList_ofList]
      rfl
  | some cut =>
    obtain ⟨whole, fraction⟩ := cut
    simp only [hcut, Option.getD_some] at hne hpoint ⊢
    have hdigits : ∀ c ∈ whole ++ fraction, Text.isDigit c = true := by
      intro c hc
      have heq := Text.cut?_eq hcut
      rcases List.mem_append.mp hc with hc | hc
      · refine hnumber c (by simp [heq, hc]) ?_
        rintro rfl
        exact Text.not_mem_of_cut? hcut hc
      · refine hnumber c (by simp [heq, hc]) ?_
        rintro rfl
        exact hpoint hc
    refine ⟨⟨sign, whole, some fraction, String.ofList suffix, hdigits, hne⟩, ?_, ?_⟩
    · rw [Spelling.toList, String.toList_ofList, ← hsplit, Text.cut?_eq hcut]
      simp [Spelling.number]
    · rw [Spelling.parts, String.toList_ofList]
      rfl

/-! ### Reading a text -/

variable {text : String} {w : Spelling} {num den : Int}

theorem scaledMilli_eq (hnum : 0 < num) (hden : 0 < den) (text : String) (digits places : ℕ) :
    scaledMilli text digits places num den =
      if digits * num + 10 ^ places * den < 2 ^ 127 then
        .ok ⌈(digits * num / (10 ^ places * den) : ℚ)⌉
      else if digits * num < 2 ^ 127 ∧ 10 ^ places * den < 2 ^ 127 then .error .outOfRange
      else .error (.tooLarge text) := by
  have hpower : (tenTo places : Int) = 10 ^ places := by simp [tenTo]
  have ha : 0 ≤ digits * num := by positivity
  have hb : 0 < 10 ^ places * den := by positivity
  rw [scaledMilli, hpower, within128?_of_nonneg ha, within128?_of_nonneg (Int.le_of_lt hb)]
  by_cases hsum : digits * num + 10 ^ places * den < 2 ^ 127
  · have hrounded := ceilDiv?_eq_some hb hsum
    push_cast at hrounded
    rw [if_pos hsum, if_pos (by omega), if_pos (by omega)]
    simp only [hrounded]
  · rw [if_neg hsum]
    by_cases hboth : digits * num < 2 ^ 127 ∧ 10 ^ places * den < 2 ^ 127
    · rw [if_pos hboth, if_pos hboth.1, if_pos hboth.2]
      simp only [ceilDiv?_eq_none ha (Int.not_lt.mp hsum)]
    · rw [if_neg hboth]
      by_cases hdigits : digits * num < 2 ^ 127
      · rw [if_pos hdigits, if_neg fun hscale => hboth ⟨hdigits, hscale⟩]
      · rw [if_neg hdigits]

/-- What is left to do for a text that has been taken apart. -/
theorem parse_of_parts (h : Parts.ofText (Text.trim text.toList) = w.parts) :
    parse text =
      if 2 ^ 127 ≤ w.digits ∨ 2 ^ 127 ≤ w.scale then .error (.tooLarge text)
      else match suffixRatio? w.suffix with
        | none => .error (.unknownSuffix text w.suffix)
        | some (num, den) =>
          (scaledMilli text w.digits (w.places % 4294967296) num den).map fun milli =>
            { text := String.ofList (Text.trim text.toList), milli := w.sign.value * milli } := by
  have hempty : (w.parts.whole.isEmpty && w.parts.fraction.isEmpty) = false := by
    have hne := w.ne_nil
    rw [← Bool.not_eq_true, Bool.and_eq_true, List.isEmpty_iff, List.isEmpty_iff]
    rintro ⟨hwhole, hfraction⟩
    exact hne (List.append_eq_nil_iff.mpr ⟨hwhole, hfraction⟩)
  have hpoint : w.parts.fraction.contains '.' = false := by
    rw [← Bool.not_eq_true, List.contains_iff_mem]
    exact fun hmem => absurd (w.isDigit_of_mem '.' (List.mem_append_right _ hmem)) (by decide)
  have hdigits : Text.digitsValue (w.parts.whole ++ w.parts.fraction) = w.digits :=
    Text.digitsValue_eq_ofDigitChars _
  have hplaces : w.parts.places = w.places % 4294967296 := rfl
  have hscale : tenTo (w.places % 4294967296) = w.scale := rfl
  have hsuffix : String.ofList w.parts.suffix = w.suffix := String.ofList_toList
  have hsign : ∀ milli : Int, (if w.parts.negative then -milli else milli) =
      w.sign.value * milli := by
    intro milli
    rw [Spelling.parts]
    cases w.sign <;> simp [Sign.value]
  simp only [parse, h, hempty, hpoint, hdigits, hplaces, hscale, hsuffix, hsign,
    isNone_within128?, Bool.or_eq_true, decide_eq_true_eq, Bool.false_eq_true, if_false]
  by_cases hlarge : 2 ^ 127 ≤ w.digits ∨ 2 ^ 127 ≤ w.scale
  · rw [if_pos hlarge, if_pos hlarge]
    rfl
  · rw [if_neg hlarge, if_neg hlarge]
    cases suffixRatio? w.suffix with
    | none => rfl
    | some ratio => cases scaledMilli text w.digits (w.places % 4294967296) ratio.1 ratio.2 <;> rfl

/-- A text that is spelled with a known suffix is read as what it writes, unless it is too large. -/
theorem parse_of_spells (h : w.Spells text) (hratio : suffixRatio? w.suffix = some (num, den)) :
    parse text =
      if w.digits * num + w.scale * den < 2 ^ 127 then
        .ok { text := String.ofList (Text.trim text.toList)
              milli := w.sign.value * ⌈(w.digits * num / (w.scale * den) : ℚ)⌉ }
      else if w.digits * num < 2 ^ 127 ∧ w.scale * den < 2 ^ 127 then .error .outOfRange
      else .error (.tooLarge text) := by
  obtain ⟨hnum, -, hden, -⟩ := ratio_bounds hratio
  have hparts : Parts.ofText (Text.trim text.toList) = w.parts := by
    rw [show Text.trim text.toList = w.toList from h]
    exact w.ofText_toList (isNumberChar_head hratio)
  have hdigits : (w.digits : Int) ≤ w.digits * num := le_mul_of_one_le_right (by omega) hnum
  have hscale : (w.scale : Int) ≤ w.scale * den := le_mul_of_one_le_right (by omega) hden
  have hpower : (w.scale : Int) = 10 ^ (w.places % 4294967296) := by simp [Spelling.scale]
  have hfraction : (w.scale : ℚ) = 10 ^ (w.places % 4294967296) := by simp [Spelling.scale]
  rw [parse_of_parts hparts]
  by_cases hlarge : 2 ^ 127 ≤ w.digits ∨ 2 ^ 127 ≤ w.scale
  · rw [if_pos hlarge, if_neg (by omega), if_neg (by omega)]
  · rw [if_neg hlarge, hratio, hpower, hfraction]
    simp only [scaledMilli_eq hnum hden]
    split_ifs <;> rfl

/-- A text that is not spelled with a known suffix is refused. -/
theorem parse_of_not_spells
    (h : ∀ w : Spelling, w.Spells text → suffixRatio? w.suffix = none) :
    ∃ e, parse text = .error e ∧ e ≠ .outOfRange := by
  by_cases hempty : (Parts.ofText (Text.trim text.toList)).whole ++
      (Parts.ofText (Text.trim text.toList)).fraction = []
  · obtain ⟨hwhole, hfraction⟩ := List.append_eq_nil_iff.mp hempty
    refine ⟨.empty text, ?_, nofun⟩
    simp only [parse, hwhole, hfraction]
    rfl
  · by_cases hpoint : '.' ∈ (Parts.ofText (Text.trim text.toList)).fraction
    · have hnonempty : ((Parts.ofText (Text.trim text.toList)).whole.isEmpty &&
          (Parts.ofText (Text.trim text.toList)).fraction.isEmpty) = false := by
        rw [← Bool.not_eq_true, Bool.and_eq_true, List.isEmpty_iff, List.isEmpty_iff]
        exact fun h => List.ne_nil_of_mem hpoint h.2
      refine ⟨.notANumber text, ?_, nofun⟩
      simp only [parse, hnonempty, List.contains_iff_mem.mpr hpoint]
      rfl
    · obtain ⟨w, hw, hparts⟩ := exists_spelling hempty hpoint
      rw [parse_of_parts hparts, h w hw]
      split
      · exact ⟨_, rfl, nofun⟩
      · exact ⟨_, rfl, nofun⟩

/-! ### The number that is written -/

theorem Spelling.scale_eq (h : w.places < 2 ^ 32) : w.scale = 10 ^ w.places := by
  rw [scale, Nat.mod_eq_of_lt (by omega)]

theorem Spelling.places_le_length (w : Spelling) : w.places ≤ w.toList.length := by
  have hnumber : w.places ≤ w.number.length := by
    unfold places fraction number
    cases w.fraction? <;> simp
    omega
  simp only [toList, List.length_append]
  omega

/-- The text is spelled with a known suffix, it writes so many thousandths, and the sum that rounds
them up stays within 128 bits. -/
def Writes (text : String) (milli : Int) : Prop :=
  ∃ (w : Spelling) (num den : Int), w.Spells text ∧ suffixRatio? w.suffix = some (num, den) ∧
    w.digits * num + 10 ^ w.places * den < 2 ^ 127 ∧ milli = w.milli num den

theorem parse_of_writes {milli : Int} (h : Writes text milli) :
    parse text = .ok { text := String.ofList (Text.trim text.toList), milli } := by
  obtain ⟨w, num, den, hspells, hratio, hbound, rfl⟩ := h
  obtain ⟨hnum, -, hden, -⟩ := ratio_bounds hratio
  have hdigits : 0 ≤ w.digits * num := by positivity
  have hpower : (10 : Int) ^ w.places ≤ 10 ^ w.places * den :=
    le_mul_of_one_le_right (by positivity) hden
  -- So small a power of ten has few digits.
  have hplaces : w.places < 39 := by
    by_contra hmany
    have hlarge : (10 : Int) ^ 39 ≤ 10 ^ w.places := pow_le_pow_right₀ (by decide) (by omega)
    omega
  have hscale : w.scale = 10 ^ w.places := w.scale_eq (by omega)
  have hcast : (w.scale : Int) = 10 ^ w.places := by simp [hscale]
  have hfraction : (w.scale : ℚ) = 10 ^ w.places := by simp [hscale]
  rw [parse_of_spells hspells hratio, hcast, hfraction, if_pos hbound]
  rfl

theorem exists_spelling_of_parse (h : ∀ e, parse text = .error e → e = .outOfRange) :
    ∃ (w : Spelling) (num den : Int), w.Spells text ∧ suffixRatio? w.suffix = some (num, den) := by
  by_contra hnone
  have hunknown : ∀ w : Spelling, w.Spells text → suffixRatio? w.suffix = none := by
    intro w hw
    rw [Option.eq_none_iff_forall_ne_some]
    exact fun ratio hratio => hnone ⟨w, ratio.1, ratio.2, hw, hratio⟩
  obtain ⟨e, he, hother⟩ := parse_of_not_spells hunknown
  exact hother (h e he)

/-- Nothing else is read, unless the text is so long that its places exceed 32 bits. -/
theorem writes_of_parse {q : Quantity} (h : parse text = .ok q) (hshort : text.length < 2 ^ 32) :
    Writes text q.milli := by
  obtain ⟨w, num, den, hspells, hratio⟩ := exists_spelling_of_parse fun e he => by
    rw [h] at he
    cases he
  have hplaces : w.places < 2 ^ 32 := by
    have hlength := w.places_le_length
    have htrim := (Text.trim_isInfix text.toList).length_le
    rw [show Text.trim text.toList = w.toList from hspells, String.length_toList] at htrim
    omega
  have hscale := w.scale_eq hplaces
  have hcast : (w.scale : Int) = 10 ^ w.places := by simp [hscale]
  have hfraction : (w.scale : ℚ) = 10 ^ w.places := by simp [hscale]
  rw [parse_of_spells hspells hratio, hcast, hfraction] at h
  split_ifs at h with hbound
  obtain rfl := Except.ok.inj h
  exact ⟨w, num, den, hspells, hratio, hbound, rfl⟩

/-- What is read is the number that the text writes, and a text without a known suffix or without
digits is refused. Of texts that are read, those that write one number are equal as quantities. -/
theorem parse_reads_written :
    (∀ text milli, Writes text milli →
      parse text = .ok { text := String.ofList (Text.trim text.toList), milli }) ∧
    (∀ text, (∀ w : Spelling, w.Spells text → suffixRatio? w.suffix = none) →
      ∃ e, parse text = .error e ∧ e ≠ .outOfRange) ∧
    (∀ text q, parse text = .ok q → text.length < 2 ^ 32 → Writes text q.milli) ∧
    (∀ a b m n q r, Writes a m → Writes b n → parse a = .ok q → parse b = .ok r →
      (q.same r = true ↔ m = n)) ∧
    ∀ suffix, (∀ num den, suffixRatio? suffix = some (num, den) →
        IsWorth suffix (num / den / 1000)) ∧
      (suffixRatio? suffix = none → ∀ worth, ¬ IsWorth suffix worth) := by
  refine ⟨fun text milli h => parse_of_writes h, fun text h => parse_of_not_spells h,
    fun text q h hshort => writes_of_parse h hshort, ?_, fun suffix => ⟨?_, ?_⟩⟩
  · intro a b m n q r hm hn hq hr
    obtain rfl := Except.ok.inj ((parse_of_writes hm).symm.trans hq)
    obtain rfl := Except.ok.inj ((parse_of_writes hn).symm.trans hr)
    exact beq_iff_eq
  · exact fun num den hratio => isWorth_of_ratio hratio
  · intro hnone worth hworth
    have hsome := isSome_ratio_of_isWorth hworth
    rw [hnone] at hsome
    cases hsome

/-- Seven and a half thousandths below zero. -/
def smallDebt : Spelling where
  sign := .minus
  whole := []
  fraction? := some ['7', '5']
  suffix := "e-2"
  isDigit_of_mem := List.all_eq_true.mp rfl
  ne_nil := by decide

theorem smallDebt_reads_written :
    Writes "\t-.75e-2 " (-8) ∧ Writes "-8m" (-8) ∧ ∃ q r, parse "\t-.75e-2 " = .ok q ∧
      q.text = "-.75e-2" ∧ parse "-8m" = .ok r ∧ q.same r = true := by
  have hwrites : Writes "\t-.75e-2 " (-8) :=
    ⟨smallDebt, 1000, 100, by decide, by decide, by decide, by decide +kernel⟩
  have hplain : Writes "-8m" (-8) :=
    ⟨⟨.minus, ['8'], none, "m", List.all_eq_true.mp rfl, by decide⟩, 1, 1, by decide, by decide,
      by decide, by decide +kernel⟩
  obtain ⟨hreads, -, -, hsame, -⟩ := parse_reads_written
  have hq := hreads _ _ hwrites
  have hr := hreads _ _ hplain
  exact ⟨hwrites, hplain, _, _, hq, by decide, hr, (hsame _ _ _ _ _ _ hwrites hplain hq hr).mpr rfl⟩

end WorkloadTuning.Quantity
