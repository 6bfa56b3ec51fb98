import Mathlib.Algebra.Order.Field.Power
import Mathlib.Algebra.Order.Field.Rat
import Mathlib.Tactic.FieldSimp
import Mathlib.Tactic.Linarith
import Mathlib.Tactic.Positivity
import Mathlib.Tactic.Ring
import WorkloadTuning.Decimal.Shortest

/-! Rounding to double precision, in terms of rationals: the rationals that round to a number are
those of its interval, which is what the shortest text is searched in. -/

namespace WorkloadTuning

theorem twoTo_pos (n : Nat) : 0 < twoTo n :=
  Nat.two_pow_pos n

theorem tenTo_pos (n : Nat) : 0 < tenTo n :=
  Nat.pow_pos (by decide)

theorem cast_twoTo (n : Nat) : (twoTo n : ℚ) = 2 ^ n :=
  Nat.cast_pow 2 n

theorem cast_tenTo (n : Nat) : (tenTo n : ℚ) = 10 ^ n :=
  Nat.cast_pow 10 n

theorem pow_div_pow_toNat {b : ℚ} (hb : b ≠ 0) (e : ℤ) : b ^ e.toNat / b ^ (-e).toNat = b ^ e := by
  rw [← zpow_natCast, ← zpow_natCast, ← zpow_sub₀ hb]
  congr 1
  omega

namespace Binary64

/-! ### The quotient of a shift, and its logarithm -/

section Shifted
variable {num den : Nat} {e : ℤ}

theorem shifted_den_pos (num : Nat) (hden : 0 < den) (e : ℤ) : 0 < (shifted num den e).2 :=
  Nat.mul_pos hden (twoTo_pos _)

theorem shifted_div (num den : Nat) (e : ℤ) :
    ((shifted num den e).1 : ℚ) / (shifted num den e).2 = num / den / 2 ^ e := by
  rw [shifted, ← pow_div_pow_toNat two_ne_zero e]
  push_cast [cast_twoTo]
  field_simp

theorem shifted_lt_iff (hden : 0 < den) :
    (shifted num den e).1 < (shifted num den e).2 ↔ (num : ℚ) / den < 2 ^ e := by
  have hpos : (0 : ℚ) < (shifted num den e).2 := by exact_mod_cast shifted_den_pos num hden e
  rw [← div_lt_one (by positivity : (0 : ℚ) < 2 ^ e), ← shifted_div, div_lt_one hpos, Nat.cast_lt]

/-- The logarithm of a fraction is between the powers of two around it. -/
theorem floorLog2_spec (hnum : 0 < num) (hden : 0 < den) :
    (2 : ℚ) ^ floorLog2 num den ≤ num / den ∧ (num : ℚ) / den < 2 ^ (floorLog2 num den + 1) := by
  have hden' : (0 : ℚ) < den := by exact_mod_cast hden
  have hnumLow : (2 : ℚ) ^ (Nat.log2 num : ℤ) ≤ num := by
    rw [zpow_natCast]
    exact_mod_cast Nat.log2_self_le hnum.ne'
  have hnumHigh : (num : ℚ) < 2 ^ (Nat.log2 num + 1 : ℤ) := by
    exact_mod_cast Nat.lt_log2_self (n := num)
  have hdenLow : (2 : ℚ) ^ (Nat.log2 den : ℤ) ≤ den := by
    rw [zpow_natCast]
    exact_mod_cast Nat.log2_self_le hden.ne'
  have hdenHigh : (den : ℚ) < 2 ^ (Nat.log2 den + 1 : ℤ) := by
    exact_mod_cast Nat.lt_log2_self (n := den)
  have hlow : (2 : ℚ) ^ ((Nat.log2 num : ℤ) - Nat.log2 den - 1) ≤ num / den := by
    rw [le_div_iff₀ hden']
    calc (2 : ℚ) ^ ((Nat.log2 num : ℤ) - Nat.log2 den - 1) * den
        ≤ 2 ^ ((Nat.log2 num : ℤ) - Nat.log2 den - 1) * 2 ^ (Nat.log2 den + 1 : ℤ) := by
          gcongr
      _ = 2 ^ (Nat.log2 num : ℤ) := by
          rw [← zpow_add₀ two_ne_zero]
          congr 1
          ring
      _ ≤ num := hnumLow
  have hhigh : (num : ℚ) / den < 2 ^ ((Nat.log2 num : ℤ) - Nat.log2 den + 1) := by
    rw [div_lt_iff₀ hden']
    calc (num : ℚ) < 2 ^ (Nat.log2 num + 1 : ℤ) := hnumHigh
      _ = 2 ^ ((Nat.log2 num : ℤ) - Nat.log2 den + 1) * 2 ^ (Nat.log2 den : ℤ) := by
          rw [← zpow_add₀ two_ne_zero]
          congr 1
          ring
      _ ≤ 2 ^ ((Nat.log2 num : ℤ) - Nat.log2 den + 1) * den := by gcongr
  unfold floorLog2
  dsimp only
  split
  · next hlt => exact ⟨hlow, by rw [sub_add_cancel]; exact (shifted_lt_iff hden).mp hlt⟩
  · next hge => exact ⟨not_lt.mp fun hlt => hge ((shifted_lt_iff hden).mpr hlt), hhigh⟩

end Shifted

/-! ### Rounding to a whole number -/

/-- The number is a nearest one to the rational, and an even one if there are two. -/
def IsNearest (y : ℚ) (k : Nat) : Prop :=
  2 * y ≤ 2 * k + 1 ∧ 2 * k ≤ 2 * y + 1 ∧ (k % 2 = 1 → 2 * y < 2 * k + 1 ∧ 2 * k < 2 * y + 1)

theorem IsNearest.unique {y : ℚ} {k l : Nat} (hk : IsNearest y k) (hl : IsNearest y l) : k = l := by
  obtain ⟨hk1, hk2, hkodd⟩ := hk
  obtain ⟨hl1, hl2, hlodd⟩ := hl
  have hlk : (l : ℚ) ≤ k + 1 := by linarith
  have hkl : (k : ℚ) ≤ l + 1 := by linarith
  have hlk' : l ≤ k + 1 := by exact_mod_cast hlk
  have hkl' : k ≤ l + 1 := by exact_mod_cast hkl
  rcases (by omega : l = k ∨ l = k + 1 ∨ k = l + 1) with rfl | rfl | rfl
  · rfl
  · push_cast at hl1 hl2 hlodd
    rcases Nat.mod_two_eq_zero_or_one k with heven | hodd
    · have hstrict := (hlodd (by omega)).2
      linarith
    · have hstrict := (hkodd hodd).1
      linarith
  · push_cast at hk1 hk2 hkodd
    rcases Nat.mod_two_eq_zero_or_one l with heven | hodd
    · have hstrict := (hkodd (by omega)).2
      linarith
    · have hstrict := (hlodd hodd).1
      linarith

theorem roundHalfEven_isNearest (n : Nat) {d : Nat} (hd : 0 < d) :
    IsNearest (n / d) (roundHalfEven n d) := by
  have hd' : (0 : ℚ) < d := by exact_mod_cast hd
  have hsplit : (n : ℚ) / d = (n / d : Nat) + ((n % d : Nat) : ℚ) / d := by
    rw [add_div' _ _ _ hd'.ne']
    congr 1
    exact_mod_cast (Nat.div_add_mod' n d).symm
  have hrest : 0 ≤ ((n % d : Nat) : ℚ) / d := by positivity
  have hrest' : ((n % d : Nat) : ℚ) / d < 1 := by
    rw [div_lt_one hd']
    exact_mod_cast Nat.mod_lt n hd
  have hlt : 2 * (n % d) < d ↔ 2 * (((n % d : Nat) : ℚ) / d) < 1 := by
    rw [← mul_div_assoc, div_lt_one hd']
    exact_mod_cast Iff.rfl
  have hgt : d < 2 * (n % d) ↔ 1 < 2 * (((n % d : Nat) : ℚ) / d) := by
    rw [← mul_div_assoc, one_lt_div hd']
    exact_mod_cast Iff.rfl
  unfold roundHalfEven
  dsimp only
  rw [hsplit]
  generalize ((n % d : Nat) : ℚ) / d = f at hrest hrest' hlt hgt
  generalize n / d = q
  split
  · next h =>
    have hf := hlt.mp h
    exact ⟨by linarith, by linarith, fun _ => ⟨by linarith, by linarith⟩⟩
  · next h =>
    have hf := not_lt.mp (mt hlt.mpr h)
    split
    · next h =>
      have hf := hgt.mp h
      rw [IsNearest, Nat.cast_succ]
      exact ⟨by linarith, by linarith, fun _ => ⟨by linarith, by linarith⟩⟩
    · next h =>
      have hf' := not_lt.mp (mt hgt.mpr h)
      rcases Nat.mod_two_eq_zero_or_one q with heven | hodd
      · rw [heven, Nat.add_zero]
        exact ⟨by linarith, by linarith, fun hodd => by omega⟩
      · rw [hodd, IsNearest, Nat.cast_succ]
        exact ⟨by linarith, by linarith, fun hodd => by omega⟩

theorem roundHalfEven_eq {n d k : Nat} (hd : 0 < d) (h : IsNearest (n / d) k) :
    roundHalfEven n d = k :=
  (roundHalfEven_isNearest n hd).unique h

/-! ### Rounding a fraction -/

/-- The exponent at which the rational has 53 binary digits before the point, or fewer at the
least. -/
structure IsScale (q : ℚ) (e : ℤ) : Prop where
  least : minExponent ≤ e
  lt : q / 2 ^ e < 2 ^ 53
  ge : minExponent < e → 2 ^ 52 ≤ q / 2 ^ e

/-- What is made of a rounded mantissa. -/
def packed (negative : Bool) (mantissa : Nat) (exponent : Int) : Binary64 :=
  let (mantissa, exponent) :=
    if mantissa = twoTo 53 then (twoTo 52, exponent + 1) else (mantissa, exponent)
  if maxExponent < exponent then infinite negative else finite negative mantissa exponent

section Ratio
variable {num den k m : Nat} {e : ℤ} {negative : Bool}

theorem zpow_le_iff {q : ℚ} (j : Nat) : 2 ^ (e + j) ≤ q ↔ 2 ^ j ≤ q / 2 ^ e := by
  rw [le_div_iff₀ (by positivity), ← zpow_natCast, ← zpow_add₀ two_ne_zero, add_comm]

theorem lt_zpow_iff {q : ℚ} (j : Nat) : q < 2 ^ (e + j) ↔ q / 2 ^ e < 2 ^ j := by
  rw [div_lt_iff₀ (by positivity), ← zpow_natCast, ← zpow_add₀ two_ne_zero, add_comm]

theorem exponent_eq_iff (hnum : 0 < num) (hden : 0 < den) :
    max (floorLog2 num den - 52) minExponent = e ↔ IsScale (num / den) e := by
  obtain ⟨hlow, hhigh⟩ := floorLog2_spec hnum hden
  constructor
  · rintro rfl
    refine ⟨le_max_right _ _, ?_, ?_⟩
    · refine (lt_zpow_iff 53).mp (hhigh.trans_le (zpow_le_zpow_right₀ one_le_two ?_))
      omega
    · intro hleast
      refine (zpow_le_iff 52).mp ((zpow_le_zpow_right₀ one_le_two ?_).trans hlow)
      omega
  · rintro ⟨hleast, hlt, hge⟩
    have hupper := (zpow_lt_zpow_iff_right₀ (one_lt_two (α := ℚ))).mp
      (hlow.trans_lt ((lt_zpow_iff 53).mpr hlt))
    rcases hleast.eq_or_lt with rfl | hleast
    · omega
    · have hlower := (zpow_lt_zpow_iff_right₀ (one_lt_two (α := ℚ))).mp
        (((zpow_le_iff 52).mpr (hge hleast)).trans_lt hhigh)
      omega

/-- A fraction is rounded at its scale. -/
theorem ofRatio_eq_packed (hnum : 0 < num) (hden : 0 < den) (hscale : IsScale (num / den) e)
    (hk : IsNearest (num / den / 2 ^ e) k) : ofRatio negative num den = packed negative k e := by
  have hround : roundHalfEven (shifted num den e).1 (shifted num den e).2 = k := by
    refine roundHalfEven_eq (shifted_den_pos num hden _) ?_
    rwa [shifted_div]
  rw [ofRatio, if_neg hnum.ne', (exponent_eq_iff hnum hden).mpr hscale, packed]
  dsimp only
  rw [hround]

theorem exists_ofRatio_eq_packed (hnum : 0 < num) (hden : 0 < den) : ∃ e k,
    IsScale (num / den) e ∧ IsNearest (num / den / 2 ^ e) k ∧
      ∀ negative, ofRatio negative num den = packed negative k e := by
  have hscale := (exponent_eq_iff hnum hden).mp rfl
  generalize max (floorLog2 num den - 52) minExponent = e at hscale
  have hk := roundHalfEven_isNearest (shifted num den e).1
    (shifted_den_pos num hden e)
  rw [shifted_div] at hk
  exact ⟨e, _, hscale, hk, fun _ => ofRatio_eq_packed hnum hden hscale hk⟩

end Ratio

/-! ### The rationals that round to a number -/

/-- What mantissa and exponent of a finite number are. -/
structure IsStored (m : Nat) (e : ℤ) : Prop where
  lt : m < 2 ^ 53
  least : minExponent ≤ e
  most : e ≤ maxExponent
  ge : minExponent < e → 2 ^ 52 ≤ m

section Interval
variable {num den m : Nat} {e : ℤ} {negative : Bool}

/-- The reach below the number, in quarters of the place of its last digit. -/
def reachBelow (m : Nat) (e : ℤ) : Nat :=
  if m = twoTo 52 ∧ minExponent < e then 1 else 2

/-- The rational lies in the interval of the number. -/
structure Surrounds (m : Nat) (e : ℤ) (q : ℚ) : Prop where
  lower : 4 * m - reachBelow m e ≤ 4 * (q / 2 ^ e)
  upper : 4 * (q / 2 ^ e) ≤ 4 * m + 2
  odd : m % 2 = 1 → (4 * m - reachBelow m e : ℚ) < 4 * (q / 2 ^ e) ∧ 4 * (q / 2 ^ e) < 4 * m + 2

theorem interval_contains_iff (hden : 0 < den) (hm : 0 < m) :
    (interval m e).contains num den ↔ Surrounds m e (num / den) := by
  have hden' : (0 : ℚ) < den := by exact_mod_cast hden
  have hscale : (0 : ℚ) < twoTo (e - 2).toNat * den := by
    rw [cast_twoTo]
    positivity
  -- a point and a bound are compared over a common denominator
  have hpoint : ((num * twoTo (2 - e).toNat : Nat) : ℚ) =
      4 * (num / den / 2 ^ e) * (twoTo (e - 2).toNat * den) := by
    have hpow : (2 : ℚ) ^ e = 4 * (twoTo (e - 2).toNat / twoTo (2 - e).toNat) := by
      have h := pow_div_pow_toNat (two_ne_zero (α := ℚ)) (e - 2)
      rw [neg_sub] at h
      rw [cast_twoTo, cast_twoTo, h, zpow_sub₀ two_ne_zero]
      norm_num
      ring
    rw [hpow, cast_twoTo, cast_twoTo]
    push_cast [cast_twoTo]
    field_simp
  have hle : ∀ a : Nat, a * twoTo (e - 2).toNat * den ≤ num * twoTo (2 - e).toNat ↔
      (a : ℚ) ≤ 4 * (num / den / 2 ^ e) := by
    intro a
    rw [← Nat.cast_le (α := ℚ), hpoint, Nat.cast_mul, Nat.cast_mul, mul_assoc (a : ℚ),
      mul_le_mul_iff_left₀ hscale]
  have hge : ∀ a : Nat, num * twoTo (2 - e).toNat ≤ a * twoTo (e - 2).toNat * den ↔
      4 * ((num : ℚ) / den / 2 ^ e) ≤ a := by
    intro a
    rw [← Nat.cast_le (α := ℚ), hpoint, Nat.cast_mul, Nat.cast_mul, mul_assoc (a : ℚ),
      mul_le_mul_iff_left₀ hscale]
  have hreach : reachBelow m e ≤ 4 * m := by
    unfold reachBelow
    split <;> omega
  have hlower := hle (4 * m - reachBelow m e)
  have hlower' := lt_iff_lt_of_le_iff_le (hge (4 * m - reachBelow m e))
  have hupper := hge (4 * m + 2)
  have hupper' := lt_iff_lt_of_le_iff_le (hle (4 * m + 2))
  push_cast [Nat.cast_sub hreach] at hlower hlower' hupper hupper'
  change (if decide (m % 2 = 0) then
    decide ((4 * m - reachBelow m e) * twoTo (e - 2).toNat * den ≤ num * twoTo (2 - e).toNat) &&
      decide (num * twoTo (2 - e).toNat ≤ (4 * m + 2) * twoTo (e - 2).toNat * den)
    else
    decide ((4 * m - reachBelow m e) * twoTo (e - 2).toNat * den < num * twoTo (2 - e).toNat) &&
      decide (num * twoTo (2 - e).toNat < (4 * m + 2) * twoTo (e - 2).toNat * den)) = true ↔ _
  rcases Nat.mod_two_eq_zero_or_one m with heven | hodd
  · rw [heven, if_pos (by decide), Bool.and_eq_true, decide_eq_true_eq, decide_eq_true_eq, hlower,
      hupper]
    exact ⟨fun h => ⟨h.1, h.2, fun hodd => by omega⟩, fun h => ⟨h.lower, h.upper⟩⟩
  · rw [hodd, if_neg (by decide), Bool.and_eq_true, decide_eq_true_eq, decide_eq_true_eq, hlower',
      hupper']
    exact ⟨fun h => ⟨h.1.le, h.2.le, fun _ => h⟩, fun h => h.odd hodd⟩

theorem packed_eq_finite_iff {k : Nat} {E : ℤ} : packed negative k E = finite negative m e ↔
    e ≤ maxExponent ∧ (k = 2 ^ 53 ∧ m = 2 ^ 52 ∧ e = E + 1 ∨ k ≠ 2 ^ 53 ∧ m = k ∧ e = E) := by
  unfold packed
  by_cases hk : k = twoTo 53
  · rw [if_pos hk]
    dsimp only
    have hk' : k = 2 ^ 53 := hk
    constructor
    · intro h
      split at h
      · cases h
      · next hmost =>
        cases h
        exact ⟨not_lt.mp hmost, .inl ⟨hk', rfl, rfl⟩⟩
    · rintro ⟨hmost, ⟨-, rfl, rfl⟩ | ⟨hne, -⟩⟩
      · exact if_neg (not_lt.mpr hmost)
      · exact absurd hk' hne
  · rw [if_neg hk]
    dsimp only
    have hk' : k ≠ 2 ^ 53 := hk
    constructor
    · intro h
      split at h
      · cases h
      · next hmost =>
        cases h
        exact ⟨not_lt.mp hmost, .inr ⟨hk', rfl, rfl⟩⟩
    · rintro ⟨hmost, ⟨heq, -⟩ | ⟨-, rfl, rfl⟩⟩
      · exact absurd heq hk'
      · exact if_neg (not_lt.mpr hmost)

theorem IsNearest.le {y : ℚ} {k n : Nat} (h : IsNearest y k) (hy : y ≤ n) : k ≤ n := by
  have hle : (2 * k : ℚ) ≤ 2 * n + 1 := by linarith [h.2.1]
  have hle' : 2 * k ≤ 2 * n + 1 := by exact_mod_cast hle
  omega

theorem IsNearest.ge {y : ℚ} {k n : Nat} (h : IsNearest y k) (hy : n ≤ y) : n ≤ k := by
  have hle : (2 * n : ℚ) ≤ 2 * k + 1 := by linarith [h.1]
  have hle' : 2 * n ≤ 2 * k + 1 := by exact_mod_cast hle
  omega

theorem isStored_of_ofRatio (hnum : 0 < num) (hden : 0 < den)
    (h : ofRatio negative num den = finite negative m e) : IsStored m e := by
  obtain ⟨E, k, hscale, hk, hpacked⟩ := exists_ofRatio_eq_packed hnum hden
  obtain ⟨hmost, hcases⟩ := packed_eq_finite_iff.mp ((hpacked negative).symm.trans h)
  have hleast := hscale.least
  rcases hcases with ⟨-, rfl, rfl⟩ | ⟨hne, rfl, rfl⟩
  · exact ⟨by norm_num, by omega, hmost, fun _ => le_rfl⟩
  · have hle : m ≤ 2 ^ 53 := hk.le (by exact_mod_cast hscale.lt.le)
    refine ⟨lt_of_le_of_ne hle hne, hleast, hmost, fun habove => ?_⟩
    exact hk.ge (by exact_mod_cast hscale.ge habove)

theorem surrounds_of_packed {q : ℚ} {k : Nat} {E : ℤ} (hscale : IsScale q E)
    (hk : IsNearest (q / 2 ^ E) k) (h : packed negative k E = finite negative m e) :
    Surrounds m e q := by
  obtain ⟨-, ⟨rfl, rfl, rfl⟩ | ⟨hne, rfl, rfl⟩⟩ := packed_eq_finite_iff.mp h
  · -- the mantissa was rounded up to a power of two, so the rational is below it
    have hreach : reachBelow (2 ^ 52) (E + 1) = 1 :=
      if_pos ⟨rfl, Int.lt_add_one_iff.mpr hscale.least⟩
    have hhalf : q / 2 ^ (E + 1) = q / 2 ^ E / 2 := by
      rw [zpow_add_one₀ two_ne_zero, div_div]
    have hlt := hscale.lt
    have hlow := hk.2.1
    constructor
    · rw [hreach, hhalf]
      push_cast at hlow ⊢
      linarith
    · rw [hhalf]
      push_cast
      linarith
    · intro hodd
      exact absurd hodd (by norm_num)
  · by_cases hpower : m = 2 ^ 52 ∧ minExponent < e
    · have hreach : reachBelow m e = 1 := if_pos hpower
      have hge := hscale.ge hpower.2
      have hhigh := hk.1
      rw [hpower.1] at hhigh hreach ⊢
      constructor
      · rw [hreach]
        push_cast
        linarith
      · push_cast at hhigh ⊢
        linarith
      · intro hodd
        exact absurd hodd (by norm_num)
    · have hreach : reachBelow m e = 2 := if_neg hpower
      obtain ⟨hhigh, hlow, hodd⟩ := hk
      constructor
      · rw [hreach]
        push_cast
        linarith
      · linarith
      · intro hm
        obtain ⟨hhigh, hlow⟩ := hodd hm
        rw [hreach]
        push_cast
        constructor <;> linarith

theorem Surrounds.exists_packed {q : ℚ} (h : IsStored m e) (hq : Surrounds m e q) :
    ∃ E k, IsScale q E ∧ IsNearest (q / 2 ^ E) k ∧ packed negative k E = finite negative m e := by
  obtain ⟨hlower, hupper, hodd⟩ := hq
  have hm : (m : ℚ) + 1 ≤ 2 ^ 53 := by exact_mod_cast h.lt
  have hreach : (reachBelow m e : ℚ) ≤ 2 := by
    unfold reachBelow
    split <;> norm_num
  by_cases hbelow : minExponent < e ∧ q / 2 ^ e < 2 ^ 52
  · obtain ⟨hleast, hlt⟩ := hbelow
    -- only below a power of two the rational has another scale than the number
    have hpower : m = 2 ^ 52 := by
      have hle : (m : ℚ) < 2 ^ 52 + 1 := by linarith
      have hle' : m < 2 ^ 52 + 1 := by exact_mod_cast hle
      have hge := h.ge hleast
      omega
    have hone : reachBelow m e = 1 := if_pos ⟨hpower, hleast⟩
    have hdouble : q / 2 ^ (e - 1) = 2 * (q / 2 ^ e) := by
      rw [zpow_sub_one₀ two_ne_zero]
      field_simp
    rw [hone, hpower] at hlower
    push_cast at hlower
    refine ⟨e - 1, 2 ^ 53, ⟨by omega, ?_, fun _ => ?_⟩, ⟨?_, ?_, ?_⟩,
      packed_eq_finite_iff.mpr ⟨h.most, .inl ⟨rfl, hpower, by omega⟩⟩⟩
    · rw [hdouble]
      linarith
    · rw [hdouble]
      linarith
    · rw [hdouble]
      push_cast
      linarith
    · rw [hdouble]
      push_cast
      linarith
    · intro hodd
      exact absurd hodd (by norm_num)
  · refine ⟨e, m, ⟨h.least, by linarith, fun hleast => ?_⟩,
      ⟨by linarith, by linarith, fun hm => ?_⟩,
      packed_eq_finite_iff.mpr ⟨h.most, .inr ⟨h.lt.ne, rfl, rfl⟩⟩⟩
    · exact not_lt.mp fun hlt => hbelow ⟨hleast, hlt⟩
    · obtain ⟨hlow, hhigh⟩ := hodd hm
      constructor <;> linarith

/-- A fraction rounds to the number just if it lies in the interval of the number. -/
theorem ofRatio_eq_finite_iff (hnum : 0 < num) (hden : 0 < den) (h : IsStored m e) :
    ofRatio negative num den = finite negative m e ↔ Surrounds m e (num / den) := by
  constructor
  · intro heq
    obtain ⟨E, k, hscale, hk, hpacked⟩ := exists_ofRatio_eq_packed hnum hden
    exact surrounds_of_packed hscale hk ((hpacked negative).symm.trans heq)
  · intro hq
    obtain ⟨E, k, hscale, hk, hpacked⟩ := hq.exists_packed h
    rw [ofRatio_eq_packed hnum hden hscale hk, hpacked]

theorem surrounds_value (m : Nat) (e : ℤ) : Surrounds m e (m * 2 ^ e) := by
  have hvalue : (m : ℚ) * 2 ^ e / 2 ^ e = m := mul_div_cancel_right₀ _ (by positivity)
  have hreach : (0 : ℚ) < reachBelow m e := by
    unfold reachBelow
    split <;> norm_num
  constructor
  · rw [hvalue]
    linarith
  · rw [hvalue]
    linarith
  · intro _
    rw [hvalue]
    constructor <;> linarith

/-- Within the range a fraction rounds to a finite number other than zero. -/
theorem exists_ofRatio_eq_finite (hnum : 0 < num) (hden : 0 < den)
    (hlow : (2 : ℚ) ^ (-1000 : ℤ) ≤ num / den) (hhigh : (num : ℚ) / den < 2 ^ (1000 : ℤ)) :
    ∃ m e, IsStored m e ∧ 0 < m ∧ Surrounds m e (num / den) ∧
      ∀ negative, ofRatio negative num den = finite negative m e := by
  obtain ⟨E, k, hscale, hk, hpacked⟩ := exists_ofRatio_eq_packed hnum hden
  have habove : minExponent < E := by
    have hlt := (zpow_lt_zpow_iff_right₀ (one_lt_two (α := ℚ))).mp
      (hlow.trans_lt ((lt_zpow_iff 53).mpr hscale.lt))
    rw [minExponent]
    omega
  have hbelow : E < maxExponent := by
    have hlt := (zpow_lt_zpow_iff_right₀ (one_lt_two (α := ℚ))).mp
      (((zpow_le_iff 52).mpr (hscale.ge habove)).trans_lt hhigh)
    rw [maxExponent]
    omega
  have hge : 2 ^ 52 ≤ k := hk.ge (by exact_mod_cast hscale.ge habove)
  obtain ⟨m, e, hm, hfinite⟩ : ∃ m e, 0 < m ∧ ∀ negative, packed negative k E =
      finite negative m e := by
    by_cases hcarry : k = 2 ^ 53
    · exact ⟨2 ^ 52, E + 1, by positivity, fun _ =>
        packed_eq_finite_iff.mpr ⟨hbelow, .inl ⟨hcarry, rfl, rfl⟩⟩⟩
    · exact ⟨k, E, (Nat.two_pow_pos 52).trans_le hge, fun _ =>
        packed_eq_finite_iff.mpr ⟨hbelow.le, .inr ⟨hcarry, rfl, rfl⟩⟩⟩
  have hratio : ∀ negative, ofRatio negative num den = finite negative m e :=
    fun negative => (hpacked negative).trans (hfinite negative)
  exact ⟨m, e, isStored_of_ofRatio hnum hden (hratio false), hm,
    surrounds_of_packed hscale hk (hfinite false), hratio⟩

end Interval

/-! ### Exact numbers -/

section Exact
variable {num den m n : Nat} {e f : ℤ} {negative : Bool}

/-- A whole number of up to 53 binary digits, times a power of two, is one of double precision. -/
theorem exists_isStored {j : ℤ} (hn : 0 < n) (hlt : n < 2 ^ 53) (hleast : -1000 ≤ j)
    (hmost : j ≤ 900) : ∃ m e, IsStored m e ∧ 0 < m ∧ (m : ℚ) * 2 ^ e = n * 2 ^ j := by
  have hlog : Nat.log2 n ≤ 52 := by
    have := (Nat.log2_lt hn.ne').mpr hlt
    omega
  have hlow := Nat.log2_self_le hn.ne'
  have hhigh := Nat.lt_log2_self (n := n)
  generalize Nat.log2 n = l at hlog hlow hhigh
  have hsum : 2 ^ l * 2 ^ (52 - l) = 2 ^ 52 := by
    rw [← pow_add, Nat.add_sub_cancel' hlog]
  have hge : 2 ^ 52 ≤ n * 2 ^ (52 - l) := by
    rw [← hsum]
    exact Nat.mul_le_mul_right _ hlow
  have hlt : n * 2 ^ (52 - l) < 2 ^ 53 := by
    calc n * 2 ^ (52 - l) < 2 ^ (l + 1) * 2 ^ (52 - l) :=
          Nat.mul_lt_mul_of_pos_right hhigh (Nat.two_pow_pos _)
      _ = 2 ^ 53 := by rw [pow_succ, mul_right_comm, hsum]; norm_num
  refine ⟨n * 2 ^ (52 - l), j - (52 - l : Nat), ⟨hlt, ?_, ?_, fun _ => hge⟩, by positivity, ?_⟩
  · rw [minExponent]
    omega
  · rw [maxExponent]
    omega
  · rw [zpow_sub₀ two_ne_zero, zpow_natCast]
    push_cast
    field_simp

theorem ofRatio_exact (negative : Bool) {j : ℤ} (hn : 0 < n) (hlt : n < 2 ^ 53)
    (hleast : -1000 ≤ j) (hmost : j ≤ 900) (hden : 0 < den) (h : (num : ℚ) / den = n * 2 ^ j) :
    ∃ (m : Nat) (e : ℤ), 0 < m ∧ (m : ℚ) * 2 ^ e = num / den ∧
      ofRatio negative num den = finite negative m e := by
  obtain ⟨m, e, hstored, hm, hvalue⟩ := exists_isStored hn hlt hleast hmost
  have hnum : 0 < num := by
    rw [Nat.pos_iff_ne_zero]
    rintro rfl
    have hpos : (0 : ℚ) < n * 2 ^ j := by positivity
    rw [← h] at hpos
    simp at hpos
  rw [← h] at hvalue
  exact ⟨m, e, hm, hvalue,
    (ofRatio_eq_finite_iff hnum hden hstored).mpr (hvalue ▸ surrounds_value m e)⟩

/-- The quotient of two numbers is the number whose interval the exact quotient is in. -/
theorem div_eq_finite {M : Nat} {E : ℤ} {s t : Bool} (hm : 0 < m) (hn : 0 < n)
    (h : IsStored M E) (hq : Surrounds M E (m * 2 ^ e / (n * 2 ^ f))) :
    (finite s m e).div (finite t n f) = finite (s != t) M E := by
  have hnum : 0 < m * twoTo (e - f).toNat := Nat.mul_pos hm (twoTo_pos _)
  have hden : 0 < n * twoTo (f - e).toNat := Nat.mul_pos hn (twoTo_pos _)
  rw [div, if_neg hn.ne', ofRatio_eq_finite_iff hnum hden h]
  have hpow := pow_div_pow_toNat (two_ne_zero (α := ℚ)) (e - f)
  rw [neg_sub, zpow_sub₀ two_ne_zero] at hpow
  push_cast [cast_twoTo]
  rw [mul_div_mul_comm, hpow, ← mul_div_mul_comm]
  exact hq

end Exact

end Binary64

end WorkloadTuning
