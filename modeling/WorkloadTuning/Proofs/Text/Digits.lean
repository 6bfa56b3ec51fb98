import Mathlib.Algebra.Ring.Nat
import Mathlib.Data.List.Basic
import Mathlib.Data.List.Induction
import Mathlib.Data.List.TakeWhile
import WorkloadTuning.Text.Blank
import WorkloadTuning.Text.Integer

/-! Decimal digits: which characters they are, and the number that the digits of a number write,
with or without zeros beside them. -/

namespace WorkloadTuning.Text

theorem digitsValue_eq_ofDigitChars (digits : List Char) :
    digitsValue digits = Nat.ofDigitChars 10 digits 0 := by
  rw [digitsValue, Nat.ofDigitChars_eq_foldl]
  congr 1
  funext n c
  rw [Nat.mul_comm, digitValue]

theorem digitsValue_toDigits (n : Nat) : digitsValue (Nat.toDigits 10 n) = n := by
  rw [digitsValue_eq_ofDigitChars, Nat.ofDigitChars_ten_toDigits]

theorem isDigit_iff {c : Char} : isDigit c = true ↔ 48 ≤ c.toNat ∧ c.toNat ≤ 57 := by
  simp only [isDigit, Bool.and_eq_true, decide_eq_true_eq]
  rfl

theorem isBlank_of_isDigit {c : Char} (h : isDigit c = true) : isBlank c = false := by
  rw [isDigit_iff] at h
  simp only [isBlank, Bool.or_eq_false_iff, Bool.and_eq_false_iff, beq_eq_false_iff_ne,
    decide_eq_false_iff_not]
  omega

theorem isDigit_of_mem_toDigits {n : Nat} {c : Char} (h : c ∈ Nat.toDigits 10 n) :
    isDigit c = true := by
  have hdigit := Nat.isDigit_of_mem_toDigits (by decide) (by decide) h
  simp only [Char.isDigit, Bool.and_eq_true, decide_eq_true_eq, ge_iff_le,
    UInt32.le_iff_toNat_le] at hdigit
  exact isDigit_iff.mpr hdigit

/-- Only zero starts with a zero. -/
theorem head?_toDigits_ne_zero {n : Nat} (h : 0 < n) : (Nat.toDigits 10 n).head? ≠ some '0' := by
  by_cases hlong : 10 ≤ n
  · have hshorter : n / 10 < n := Nat.div_lt_self h (by decide)
    rw [Nat.toDigits_of_base_le (by decide) hlong,
      List.head?_append_of_ne_nil _ Nat.toDigits_ne_nil]
    exact head?_toDigits_ne_zero (Nat.div_pos hlong (by decide))
  · have hsingle : ∀ d < 10, 0 < d → (Nat.toDigits 10 d).head? ≠ some '0' := by decide
    exact hsingle n (by omega) h
termination_by n

/-! ### Runs of characters -/

/-- Where the characters of a kind end. -/
theorem span_append {p : Char → Bool} {s : List Char} (rest : List Char)
    (hs : ∀ c ∈ s, p c = true) (hrest : ∀ c ∈ rest.head?, p c = false) :
    (s ++ rest).takeWhile p = s ∧ (s ++ rest).dropWhile p = rest := by
  rw [List.takeWhile_append_of_pos hs, List.dropWhile_append_of_pos hs]
  cases rest with
  | nil => exact ⟨List.append_nil _, rfl⟩
  | cons c rest =>
    have hc : p c = false := hrest c rfl
    simp [hc]

theorem exists_span (p : Char → Bool) (s : List Char) : ∃ first rest, s = first ++ rest ∧
    (∀ c ∈ first, p c = true) ∧ ∀ c ∈ rest.head?, p c = false := by
  refine ⟨s.takeWhile p, s.dropWhile p, List.takeWhile_append_dropWhile.symm,
    fun _ => List.mem_takeWhile_imp, fun c hc => ?_⟩
  have hhead := List.head?_dropWhile_not p s
  rw [Option.mem_def.mp hc] at hhead
  simpa using hhead

/-! ### Runs of digits -/

/-- The characters are digits, and there is one. -/
structure AreDigits (cs : List Char) : Prop where
  ne_nil : cs ≠ []
  digits : ∀ c ∈ cs, isDigit c = true

variable {cs ds : List Char} {n : Nat}

theorem areDigits_toDigits (n : Nat) : AreDigits (Nat.toDigits 10 n) :=
  ⟨Nat.toDigits_ne_nil, fun _ h => isDigit_of_mem_toDigits h⟩

theorem readNat?_toDigits (n : Nat) : readNat? (Nat.toDigits 10 n) = some n := by
  have hall : (Nat.toDigits 10 n).all isDigit := List.all_eq_true.mpr (areDigits_toDigits n).digits
  have hempty : (Nat.toDigits 10 n).isEmpty = false := by simp [Nat.toDigits_ne_nil]
  rw [readNat?, hall, hempty, digitsValue_toDigits]
  rfl

theorem areDigits_of_readNat? {s : List Char} (h : (readNat? s).isSome) : AreDigits s := by
  unfold readNat? at h
  split at h
  · cases h
  · next hdigits =>
    simp only [Bool.or_eq_true, Bool.not_eq_true', not_or, Bool.not_eq_false,
      List.isEmpty_iff] at hdigits
    exact ⟨hdigits.1, List.all_eq_true.mp hdigits.2⟩

/-- What is read as an integer is a run of digits, perhaps behind a sign. -/
theorem exists_digits_of_readInt? {s : List Char} {i : Int} (h : readInt? s = some i) :
    ∃ sign digits, s = sign ++ digits ∧ AreDigits digits := by
  unfold readInt? at h
  split at h
  · next rest =>
    refine ⟨['-'], rest, rfl, areDigits_of_readNat? ?_⟩
    cases hn : readNat? rest <;> simp [hn] at h ⊢
  · next rest =>
    refine ⟨['+'], rest, rfl, areDigits_of_readNat? ?_⟩
    cases hn : readNat? rest <;> simp [hn] at h ⊢
  · refine ⟨[], s, rfl, areDigits_of_readNat? ?_⟩
    cases hn : readNat? s <;> simp [hn] at h ⊢

theorem AreDigits.append (hc : AreDigits cs) (hd : ∀ c ∈ ds, isDigit c = true) :
    AreDigits (cs ++ ds) :=
  ⟨fun h => hc.ne_nil (List.append_eq_nil_iff.mp h).1,
    fun c h => (List.mem_append.mp h).elim (hc.digits c) (hd c)⟩

/-- Digits end where another character or nothing follows. -/
theorem AreDigits.spans (h : AreDigits cs) (rest : List Char)
    (hrest : ∀ c ∈ rest.head?, isDigit c = false) :
    (cs ++ rest).takeWhile isDigit = cs ∧ (cs ++ rest).dropWhile isDigit = rest :=
  span_append rest h.digits hrest

theorem digitsValue_lt (h : ∀ c ∈ ds, isDigit c = true) : digitsValue ds < 10 ^ ds.length := by
  induction ds using List.reverseRecOn with
  | nil => decide
  | append_singleton ds c ih =>
    have hds := ih fun c hc => h c (List.mem_append_left _ hc)
    have hc := isDigit_iff.mp (h c (by simp))
    have hvalue : digitValue c ≤ 9 := by
      change c.toNat - 48 ≤ 9
      omega
    unfold digitsValue at hds ⊢
    rw [List.foldl_append, List.length_append, List.length_singleton, pow_succ]
    simp only [List.foldl_cons, List.foldl_nil]
    omega

/-! ### Zeros -/

theorem isDigit_of_mem_zeros {c : Char} (h : c ∈ List.replicate n '0') : isDigit c = true := by
  rw [(List.mem_replicate.mp h).2]
  decide

theorem digitsValue_append_zeros (cs : List Char) (n : Nat) :
    digitsValue (cs ++ List.replicate n '0') = digitsValue cs * 10 ^ n := by
  induction n with
  | zero => simp
  | succ n ih =>
    rw [List.replicate_succ', ← List.append_assoc]
    unfold digitsValue at ih ⊢
    rw [List.foldl_append, ih, pow_succ, ← mul_assoc]
    rfl

theorem digitsValue_zeros_append (n : Nat) (cs : List Char) :
    digitsValue (List.replicate n '0' ++ cs) = digitsValue cs := by
  induction n with
  | zero => rfl
  | succ n ih => exact ih

theorem AreDigits.zeros_append (h : AreDigits cs) (n : Nat) :
    AreDigits (List.replicate n '0' ++ cs) := by
  refine ⟨fun hempty => h.ne_nil (List.append_eq_nil_iff.mp hempty).2, fun c hc => ?_⟩
  rcases List.mem_append.mp hc with hc | hc
  · exact isDigit_of_mem_zeros hc
  · exact h.digits c hc

theorem areDigits_padded (width n : Nat) : AreDigits (padded width n).toList := by
  rw [padded, String.toList_ofList]
  exact (areDigits_toDigits n).zeros_append _

theorem digitsValue_padded (width n : Nat) : digitsValue (padded width n).toList = n := by
  rw [padded, String.toList_ofList, digitsValue_zeros_append, digitsValue_toDigits]

theorem length_padded {width : Nat} (hwidth : 0 < width) (h : n < 10 ^ width) :
    (padded width n).toList.length = width := by
  have hle := (Nat.length_toDigits_le_iff (by decide) hwidth).mpr h
  rw [padded, String.toList_ofList, List.length_append, List.length_replicate]
  omega

end WorkloadTuning.Text
