import WorkloadTuning.Proofs.Quantity.Spelling

/-! Quantities in whole units of a suffix. The number of units is given exactly where the quantity
is a whole multiple of the unit, and that number with the suffix behind it is read as the quantity
again. -/

namespace WorkloadTuning

namespace Quantity

variable {suffix : String} {num den v m : Int} {q : Quantity}

/-! ### Writing a number of units -/

/-- A whole number and a suffix. -/
def Spelling.ofInt (v : Int) (suffix : String) : Spelling where
  sign := if v < 0 then .minus else .absent
  whole := Nat.toDigits 10 v.natAbs
  fraction? := none
  suffix := suffix
  isDigit_of_mem := by
    intro c hc
    rw [Option.getD_none, List.append_nil] at hc
    exact Text.isDigit_of_mem_toDigits hc
  ne_nil := by simp [Nat.toDigits_ne_nil]

theorem Spelling.toList_ofInt (v : Int) (suffix : String) :
    (ofInt v suffix).toList = (toString v ++ suffix).toList := by
  have hdigits : ∀ n : ℕ, (toString n).toList = Nat.toDigits 10 n := fun n => by
    rw [Nat.toString_eq_repr, Nat.toList_repr]
  rw [String.toList_append]
  cases v with
  | ofNat n =>
    show Nat.toDigits 10 n ++ suffix.toList = (toString n).toList ++ suffix.toList
    rw [hdigits]
  | negSucc n =>
    show (ofInt (Int.negSucc n) suffix).toList = ("-" ++ toString (n + 1)).toList ++ suffix.toList
    rw [String.toList_append, hdigits]
    simp [ofInt, toList, number, Sign.toList]

theorem isBlank_of_isNumberChar {c : Char} (h : isNumberChar c = true) :
    Text.isBlank c = false := by
  rcases Bool.or_eq_true_iff.mp h with h | h
  · exact Text.isBlank_of_isDigit h
  · rw [eq_of_beq h]
    decide

/-- A spelling has no blanks around it. -/
theorem Spelling.trim_toList (w : Spelling) (hratio : suffixRatio? w.suffix = some (num, den)) :
    Text.trim w.toList = w.toList := by
  have hnumber : ∀ c ∈ w.number, Text.isBlank c = false := fun c hc =>
    isBlank_of_isNumberChar (w.isNumberChar_of_mem hc)
  apply Text.trim_eq_self
  · intro c hc
    unfold toList at hc
    cases hsign : w.sign with
    | absent =>
      rw [hsign, Sign.toList, List.nil_append, List.head?_append_of_ne_nil _ w.number_ne_nil] at hc
      exact hnumber c (List.mem_of_head? hc)
    | plus =>
      rw [hsign] at hc
      obtain rfl : '+' = c := Option.some.inj hc
      decide
    | minus =>
      rw [hsign] at hc
      obtain rfl : '-' = c := Option.some.inj hc
      decide
  · intro c hc
    unfold toList at hc
    cases hsuffix : w.suffix.toList with
    | nil =>
      rw [hsuffix, List.append_nil, List.getLast?_append_of_ne_nil _ w.number_ne_nil] at hc
      exact hnumber c (List.mem_of_getLast? hc)
    | cons d rest =>
      have hne : w.suffix.toList ≠ [] := by simp [hsuffix]
      rw [← List.append_assoc, List.getLast?_append_of_ne_nil _ hne] at hc
      exact isBlank_last hratio c hc

theorem natAbs_units (hnum : 0 < num) (hden : 0 < den) (h : v * num = m * den) :
    v.natAbs * num = m.natAbs * den := by
  rw [Int.natCast_natAbs, Int.natCast_natAbs]
  calc |v| * num = |v * num| := by rw [abs_mul, abs_of_pos hnum]
    _ = |m * den| := by rw [h]
    _ = |m| * den := by rw [abs_mul, abs_of_pos hden]

theorem Spelling.digits_ofInt (v : Int) (suffix : String) : (ofInt v suffix).digits = v.natAbs := by
  show Nat.ofDigitChars 10 (Nat.toDigits 10 v.natAbs ++ []) 0 = v.natAbs
  rw [List.append_nil, Nat.ofDigitChars_ten_toDigits]

theorem Spelling.milli_ofInt (hnum : 0 < num) (hden : 0 < den) (h : v * num = m * den) :
    (ofInt v suffix).milli num den = m := by
  have habs := natAbs_units hnum hden h
  have hceil : ⌈(v.natAbs * num / den : ℚ)⌉ = m.natAbs := by
    have hrounded := ceil_of_bounds (a := v.natAbs * num) (z := m.natAbs) hden (by omega) (by omega)
    rwa [Int.cast_mul, Int.cast_natCast] at hrounded
  have hplaces : (10 : ℚ) ^ (ofInt v suffix).places * den = den := by
    rw [show (ofInt v suffix).places = 0 from rfl, pow_zero, one_mul]
  rw [milli, digits_ofInt, hplaces, hceil]
  show (if v < 0 then Sign.minus else Sign.absent).value * (m.natAbs : Int) = m
  by_cases hv : v < 0
  · have hneg : v * num < 0 := Int.mul_neg_of_neg_of_pos hv hnum
    have hm : m < 0 := by
      by_contra hnonneg
      have hproduct : 0 ≤ m * den := Int.mul_nonneg (by omega) (by omega)
      omega
    rw [if_pos hv, Sign.value]
    omega
  · have hnonneg : 0 ≤ v * num := Int.mul_nonneg (by omega) (by omega)
    have hm : 0 ≤ m := by
      by_contra hneg
      have hproduct : m * den < 0 := Int.mul_neg_of_neg_of_pos (by omega) hden
      omega
    rw [if_neg hv, Sign.value]
    omega

/-- A number of units that is so many thousandths is read as these thousandths. -/
theorem parse_units (hratio : suffixRatio? suffix = some (num, den)) (h : v * num = m * den)
    (hbound : (m.natAbs + 1) * den < 2 ^ 127) :
    parse (toString v ++ suffix) = .ok { text := toString v ++ suffix, milli := m } := by
  obtain ⟨hnum, -, hden, -⟩ := ratio_bounds hratio
  have htrim := (Spelling.ofInt v suffix).trim_toList hratio
  rw [Spelling.toList_ofInt] at htrim
  have hwrites : Writes (toString v ++ suffix) m := by
    refine ⟨.ofInt v suffix, num, den, ?_, hratio, ?_, (Spelling.milli_ofInt hnum hden h).symm⟩
    · rw [Spelling.Spells, htrim, Spelling.toList_ofInt]
    · have habs := natAbs_units hnum hden h
      rw [Int.add_mul] at hbound
      rw [Spelling.digits_ofInt, show (Spelling.ofInt v suffix).places = 0 from rfl, habs]
      omega
  rw [parse_of_writes hwrites, htrim, String.ofList_toList]

/-! ### Reading a number of units -/

theorem exactValue?_eq_some_iff (hratio : suffixRatio? suffix = some (num, den)) :
    q.exactValue? suffix = some v ↔
      fitsInt128 (q.milli * den) = true ∧ fitsInt64 v = true ∧ v * num = q.milli * den := by
  obtain ⟨hnum, -⟩ := ratio_bounds hratio
  simp only [exactValue?, hratio, Option.bind_eq_bind, Option.bind_some, within128?]
  by_cases hfits : fitsInt128 (q.milli * den) = true
  · rw [if_pos hfits, Option.bind_some]
    by_cases hwhole : q.milli * den % num = 0
    · have hunits : v * num = q.milli * den ↔ q.milli * den / num = v := by
        rw [Int.ediv_eq_iff_eq_mul_left hnum.ne' (Int.dvd_of_emod_eq_zero hwhole), eq_comm]
      rw [hunits, if_neg (not_not.mpr hwhole)]
      by_cases hvalue : fitsInt64 (q.milli * den / num) = true
      · rw [if_pos hvalue]
        constructor
        · intro h
          obtain rfl : q.milli * den / num = v := Option.some.inj h
          exact ⟨hfits, hvalue, rfl⟩
        · rintro ⟨-, -, rfl⟩
          rfl
      · rw [if_neg hvalue]
        constructor
        · intro h
          cases h
        · rintro ⟨-, hsmall, rfl⟩
          exact absurd hsmall hvalue
    · rw [if_pos hwhole]
      constructor
      · intro h
        cases h
      · rintro ⟨-, -, hunits⟩
        exact absurd (hunits ▸ Int.mul_emod_left v num) hwhole
  · simp [hfits]

/-- The number of units is given exactly if it is a whole number of 64 bits. -/
theorem exactValue?_iff (hratio : suffixRatio? suffix = some (num, den))
    (hfits : fitsInt128 (q.milli * den) = true) :
    q.exactValue? suffix = some v ↔ fitsInt64 v = true ∧ (v * (num / den) : ℚ) = q.milli := by
  obtain ⟨-, -, hden, -⟩ := ratio_bounds hratio
  have hunits : v * num = q.milli * den ↔ (v * (num / den) : ℚ) = q.milli := by
    have hpos : (0 : ℚ) < den := by exact_mod_cast hden
    rw [← mul_div_assoc, div_eq_iff hpos.ne']
    exact_mod_cast Iff.rfl
  rw [exactValue?_eq_some_iff hratio, hunits]
  simp [hfits]

/-- The number of units, with the suffix behind it, is read as the quantity. -/
theorem parse_exactValue (hratio : suffixRatio? suffix = some (num, den))
    (hbound : (q.milli.natAbs + 1) * den < 2 ^ 127) (h : q.exactValue? suffix = some v) :
    parse (toString v ++ suffix) = .ok { text := toString v ++ suffix, milli := q.milli } :=
  parse_units hratio ((exactValue?_eq_some_iff hratio).mp h).2.2 hbound

end Quantity

end WorkloadTuning
