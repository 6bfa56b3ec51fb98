import Mathlib.Algebra.Order.AbsoluteValue.Basic
import WorkloadTuning.Proofs.Decimal.Shortest

/-! Amounts in double precision: numbers that are not negative, or beyond the largest one. Every
operation on them rounds the exact result, so a sum of many stays near the exact sum. -/

namespace WorkloadTuning.Binary64

/-! ### Amounts and their values -/

/-- The exact value of a finite number. -/
def value? : Binary64 → Option ℚ
  | finite negative m e => some (signed negative m * 2 ^ e)
  | _ => none

/-- Neither negative nor undefined. -/
inductive IsAmount : Binary64 → Prop
  | infinite : IsAmount (infinite false)
  | finite {m : Nat} {e : ℤ} (h : IsStored m e) : IsAmount (finite false m e)

section Amounts
variable {x y : Binary64} {p q s t : ℚ} {m : Nat} {e : ℤ}

theorem value?_finite (m : Nat) (e : ℤ) : (finite false m e).value? = some ((m : ℚ) * 2 ^ e) := by
  rw [value?, signed, if_neg Bool.false_ne_true, Int.cast_natCast]

theorem eq_of_value? (h : (finite false m e).value? = some q) : (m : ℚ) * 2 ^ e = q :=
  Option.some.inj ((value?_finite m e).symm.trans h)

theorem eq_zero_of_value? (h : zero.value? = some q) : q = 0 := by
  rw [← eq_of_value? h, Nat.cast_zero, zero_mul]

theorem isAmount_zero : IsAmount zero :=
  .finite ⟨by norm_num, le_rfl, by decide, fun h => absurd h (lt_irrefl _)⟩

theorem IsAmount.eq_infinite (h : IsAmount x) (hx : x.value? = none) :
    x = Binary64.infinite false := by
  cases h with
  | infinite => rfl
  | finite => cases hx

theorem IsAmount.eq_finite (h : IsAmount x) (hx : x.value? = some q) :
    ∃ m e, x = Binary64.finite false m e ∧ IsStored m e ∧ q = m * 2 ^ e := by
  cases h with
  | infinite => cases hx
  | finite h => exact ⟨_, _, rfl, h, (eq_of_value? hx).symm⟩

theorem IsAmount.nonneg (h : IsAmount x) (hx : x.value? = some q) : 0 ≤ q := by
  obtain ⟨m, e, -, -, rfl⟩ := h.eq_finite hx
  positivity

end Amounts

/-! ### Rounding -/

/-- The part of a number that rounding adds at most. -/
@[irreducible] def unitError : ℚ := 2 ^ (-52 : ℤ)

/-- The distance of the least numbers, which rounding may add as well. -/
@[irreducible] def leastStep : ℚ := 2 ^ minExponent

/-- The number is what the rational is rounded to. -/
structure RoundsTo (s : ℚ) (x : Binary64) : Prop where
  isAmount : IsAmount x
  near : ∀ q, x.value? = some q → |q - s| ≤ s * unitError + leastStep
  large : x.value? = none → 2 ^ 1000 ≤ s

section Rounding
variable {s : ℚ} {num den k m : Nat} {e E : ℤ} {negative : Bool}

theorem unitError_pos : 0 < unitError := by
  rw [unitError]
  positivity

theorem leastStep_pos : 0 < leastStep := by
  rw [leastStep]
  positivity

theorem zero_roundsTo (hs : 0 ≤ s) (hsmall : s ≤ leastStep) : RoundsTo s zero := by
  refine ⟨isAmount_zero, fun q hq => ?_, fun hnone => by cases hnone⟩
  rw [eq_zero_of_value? hq, zero_sub, abs_neg, abs_of_nonneg hs]
  linarith [mul_nonneg hs unitError_pos.le]

theorem Surrounds.abs_sub_le (h : Surrounds m e s) : |m * 2 ^ e - s| ≤ 2 ^ e / 2 := by
  have hreach : (reachBelow m e : ℚ) ≤ 2 := by
    unfold reachBelow
    split <;> norm_num
  have hlower := h.lower
  have hupper := h.upper
  have hpos : (0 : ℚ) < 2 ^ e := by positivity
  have hhalf : |m - s / 2 ^ e| ≤ 1 / 2 := abs_le.mpr ⟨by linarith, by linarith⟩
  calc |m * 2 ^ e - s| = |m - s / 2 ^ e| * 2 ^ e := by
        rw [← abs_of_pos hpos, ← abs_mul, abs_of_pos hpos, sub_mul, div_mul_cancel₀ s hpos.ne']
    _ ≤ 1 / 2 * 2 ^ e := by gcongr
    _ = 2 ^ e / 2 := by ring

theorem IsStored.half_step_le_of_lt (hstored : IsStored m e) (habove : minExponent < e)
    (h : Surrounds m e s) : 2 ^ e / 2 ≤ s * unitError := by
  have hm : (2 : ℚ) ^ 52 ≤ m := by exact_mod_cast hstored.ge habove
  have hnear := abs_le.mp h.abs_sub_le
  have hstep : (0 : ℚ) < 2 ^ e := by positivity
  have hmantissa : (2 : ℚ) ^ 52 * 2 ^ e ≤ m * 2 ^ e := by gcongr
  have hfew : 2 ^ e * 2 ^ 51 ≤ s := by linarith [hnear.2]
  have hscaled := mul_le_mul_of_nonneg_right hfew unitError_pos.le
  have hhalf : (2 : ℚ) ^ e * 2 ^ 51 * unitError = 2 ^ e / 2 := by
    rw [unitError]
    ring
  linarith

theorem IsStored.half_step_le (hstored : IsStored m e) (h : Surrounds m e s) (hs : 0 ≤ s) :
    2 ^ e / 2 ≤ s * unitError + leastStep := by
  have hpos := leastStep_pos
  rcases hstored.least.eq_or_lt with rfl | habove
  · rw [leastStep] at hpos ⊢
    linarith [mul_nonneg hs unitError_pos.le]
  · linarith [hstored.half_step_le_of_lt habove h]

theorem packed_cases (negative : Bool) (k : Nat) (E : ℤ) :
    packed negative k E = infinite negative ∧ 970 < E ∨
      ∃ m e, packed negative k E = finite negative m e := by
  unfold packed
  have hcarry : (if k = twoTo 53 then (twoTo 52, E + 1) else (k, E)).2 ≤ E + 1 := by
    split
    · exact le_rfl
    · exact (lt_add_one E).le
  generalize (if k = twoTo 53 then (twoTo 52, E + 1) else (k, E)) = pair at *
  obtain ⟨m, e⟩ := pair
  dsimp only at hcarry ⊢
  split
  · next hmost =>
    rw [maxExponent] at hmost
    exact .inl ⟨rfl, by omega⟩
  · exact .inr ⟨m, e, rfl⟩

/-- A fraction is rounded to an amount. -/
theorem ofRatio_roundsTo (num : Nat) (hden : 0 < den) :
    RoundsTo (num / den) (ofRatio false num den) := by
  rcases num.eq_zero_or_pos with rfl | hnum
  · rw [Nat.cast_zero, zero_div]
    exact zero_roundsTo le_rfl leastStep_pos.le
  · obtain ⟨E, k, hscale, hk, hpacked⟩ := exists_ofRatio_eq_packed hnum hden
    rcases packed_cases false k E with ⟨hinfinite, hE⟩ | ⟨m, e, hfinite⟩
    · rw [hpacked, hinfinite]
      refine ⟨.infinite, fun q hq => (by cases hq), fun _ => ?_⟩
      have hge := (zpow_le_iff 52).mpr (hscale.ge (by rw [minExponent]; omega))
      refine le_trans ?_ hge
      rw [← zpow_natCast]
      exact zpow_le_zpow_right₀ one_le_two (by push_cast; omega)
    · have hstored : IsStored m e := isStored_of_ofRatio hnum hden ((hpacked false).trans hfinite)
      have hsurrounds : Surrounds m e (num / den) := surrounds_of_packed hscale hk hfinite
      rw [hpacked, hfinite]
      refine ⟨.finite hstored, fun q hq => ?_, fun hnone => by cases hnone⟩
      rw [← eq_of_value? hq]
      exact hsurrounds.abs_sub_le.trans (hstored.half_step_le hsurrounds (by positivity))

/-- Away from the least numbers rounding adds no more than a part of the number. -/
theorem exists_ofRatio_near (hnum : 0 < num) (hden : 0 < den)
    (hlow : (2 : ℚ) ^ (-1000 : ℤ) ≤ num / den) (hhigh : (num : ℚ) / den < 2 ^ (1000 : ℤ)) :
    ∃ m e, IsStored m e ∧ 0 < m ∧ ofRatio false num den = finite false m e ∧
      |(m : ℚ) * 2 ^ e - num / den| ≤ num / den * unitError := by
  obtain ⟨m, e, hstored, hm, hsurrounds, heq⟩ := exists_ofRatio_eq_finite hnum hden hlow hhigh
  have hnear := hsurrounds.abs_sub_le
  have habove : minExponent < e := by
    refine hstored.least.lt_of_ne ?_
    rintro rfl
    have hmost : (m : ℚ) + 1 ≤ 2 ^ (53 : ℤ) := by exact_mod_cast hstored.lt
    have hstep : (0 : ℚ) < 2 ^ minExponent := by positivity
    have hless : (2 : ℚ) ^ (53 + minExponent) < 2 ^ (-1000 : ℤ) :=
      zpow_lt_zpow_right₀ one_lt_two (by rw [minExponent]; omega)
    rw [zpow_add₀ two_ne_zero] at hless
    have hscaled := mul_le_mul_of_nonneg_right hmost hstep.le
    linarith [(abs_le.mp hnear).1]
  exact ⟨m, e, hstored, hm, heq false, hnear.trans (hstored.half_step_le_of_lt habove hsurrounds)⟩

end Rounding

/-! ### Operations -/

section Operations
variable {x y : Binary64} {p q : ℚ}

theorem ofDyadic_roundsTo (m : Nat) (e : ℤ) : RoundsTo (m * 2 ^ e) (ofDyadic false m e) := by
  have hrounds := ofRatio_roundsTo (m * twoTo e.toNat) (twoTo_pos (-e).toNat)
  push_cast [cast_twoTo] at hrounds
  rwa [mul_div_assoc, pow_div_pow_toNat two_ne_zero] at hrounds

theorem mul_roundsTo (hx : IsAmount x) (hy : IsAmount y) (hp : x.value? = some p)
    (hq : y.value? = some q) : RoundsTo (p * q) (x.mul y) := by
  obtain ⟨m, e, rfl, -, rfl⟩ := hx.eq_finite hp
  obtain ⟨n, f, rfl, -, rfl⟩ := hy.eq_finite hq
  have hrounds := ofDyadic_roundsTo (m * n) (e + f)
  rw [zpow_add₀ two_ne_zero, Nat.cast_mul, mul_mul_mul_comm] at hrounds
  exact hrounds

theorem add_finite (m n : Nat) (e f : ℤ) : (finite false m e).add (finite false n f) =
    ofDyadic false (m * twoTo (e - min e f).toNat + n * twoTo (f - min e f).toNat) (min e f) := by
  unfold add
  dsimp only
  rw [signed, signed, if_neg Bool.false_ne_true, if_neg Bool.false_ne_true, ← Int.natCast_add]
  generalize m * twoTo (e - min e f).toNat + n * twoTo (f - min e f).toNat = sum
  split
  · next hzero =>
    obtain rfl : sum = 0 := by exact_mod_cast hzero
    rw [ofDyadic, Nat.zero_mul, ofRatio, if_pos rfl]
    rfl
  · rw [Int.natAbs_natCast, decide_eq_false (by omega)]

theorem add_roundsTo (hx : IsAmount x) (hy : IsAmount y) (hp : x.value? = some p)
    (hq : y.value? = some q) : RoundsTo (p + q) (x.add y) := by
  obtain ⟨m, e, rfl, -, rfl⟩ := hx.eq_finite hp
  obtain ⟨n, f, rfl, -, rfl⟩ := hy.eq_finite hq
  have hshift : ∀ g : ℤ, min e f ≤ g →
      (2 : ℚ) ^ (g - min e f).toNat * 2 ^ min e f = 2 ^ g := by
    intro g hg
    rw [← zpow_natCast, ← zpow_add₀ two_ne_zero]
    congr 1
    omega
  have hrounds := ofDyadic_roundsTo
    (m * twoTo (e - min e f).toNat + n * twoTo (f - min e f).toNat) (min e f)
  push_cast [cast_twoTo] at hrounds
  rw [add_mul, mul_assoc, mul_assoc, hshift e (min_le_left e f),
    hshift f (min_le_right e f)] at hrounds
  rwa [add_finite]

theorem add_infinite (hx : IsAmount x) (hy : IsAmount y) (h : x.value? = none ∨ y.value? = none) :
    x.add y = infinite false := by
  rcases h with h | h
  · rw [hx.eq_infinite h]
    cases hy <;> rfl
  · rw [hy.eq_infinite h]
    cases hx <;> rfl

theorem mul_infinite (hx : IsAmount x) (h : x.value? = none) (hq : y.value? = some q)
    (hy : IsAmount y) (hpos : 0 < q) : x.mul y = infinite false := by
  obtain ⟨n, f, rfl, -, rfl⟩ := hy.eq_finite hq
  have hn : n ≠ 0 := by
    rintro rfl
    simp at hpos
  rw [hx.eq_infinite h]
  simp [mul, isZero, isNegative, hn]

/-- Numbers that are settled by their number of digits are beyond all others. -/
theorem le_of_magnitude {digits : Nat} {exponent : ℤ} (hpos : 0 < digits)
    (h : 310 < digitCount digits + exponent) : (2 : ℚ) ^ 1000 ≤ digits * 10 ^ exponent := by
  have hcount := digitCount_pos digits
  have hdigits : (10 : ℚ) ^ (digitCount digits - 1) ≤ digits := by
    exact_mod_cast pow_le_of_digitCount hpos
  calc (2 : ℚ) ^ 1000 = (2 ^ 100) ^ 10 := by rw [← pow_mul]
    _ ≤ (10 ^ 31) ^ 10 := pow_le_pow_left₀ (by positivity) (by norm_num) 10
    _ = 10 ^ (310 : ℤ) := by rw [← pow_mul, ← zpow_natCast]; rfl
    _ ≤ 10 ^ ((digitCount digits - 1 : Nat) + exponent) :=
        zpow_le_zpow_right₀ (by norm_num) (by omega)
    _ = 10 ^ (digitCount digits - 1) * 10 ^ exponent := by
        rw [zpow_add₀ (by norm_num), zpow_natCast]
    _ ≤ digits * 10 ^ exponent := by gcongr

theorem le_leastStep_of_magnitude {digits : Nat} {exponent : ℤ}
    (h : digitCount digits + exponent < -330) : (digits : ℚ) * 10 ^ exponent ≤ leastStep := by
  have hdigits : (digits : ℚ) ≤ 10 ^ digitCount digits := by
    exact_mod_cast (lt_pow_digitCount digits).le
  calc (digits : ℚ) * 10 ^ exponent ≤ 10 ^ digitCount digits * 10 ^ exponent := by gcongr
    _ = 10 ^ (digitCount digits + exponent) := by
        rw [zpow_add₀ (by norm_num), zpow_natCast]
    _ ≤ 10 ^ (-330 : ℤ) := zpow_le_zpow_right₀ (by norm_num) h.le
    _ = ((10 ^ 55) ^ 6)⁻¹ := by rw [← pow_mul, zpow_neg, ← zpow_natCast]; rfl
    _ ≤ ((2 ^ 179) ^ 6)⁻¹ :=
        inv_anti₀ (by positivity) (pow_le_pow_left₀ (by positivity) (by norm_num) 6)
    _ = leastStep := by rw [← pow_mul, leastStep, minExponent, zpow_neg, ← zpow_natCast]; rfl

theorem ofDecimal_roundsTo (digits : Nat) (exponent : ℤ) :
    RoundsTo (digits * 10 ^ exponent) (ofDecimal false digits exponent) := by
  unfold ofDecimal
  dsimp only
  split
  · next hzero =>
    rw [hzero, Nat.cast_zero, zero_mul]
    exact zero_roundsTo le_rfl leastStep_pos.le
  · next hdigits =>
    split
    · next hlarge =>
      exact ⟨.infinite, fun q hq => (by cases hq),
        fun _ => le_of_magnitude (Nat.pos_of_ne_zero hdigits) hlarge⟩
    · split
      · next hsmall => exact zero_roundsTo (by positivity) (le_leastStep_of_magnitude hsmall)
      · have hrounds := ofRatio_roundsTo (digits * tenTo exponent.toNat)
          (tenTo_pos (-exponent).toNat)
        push_cast [cast_tenTo] at hrounds
        rwa [mul_div_assoc, pow_div_pow_toNat (by norm_num)] at hrounds

end Operations

/-! ### Errors that add up -/

/-- How far `j` roundings one after another lead away from a rational, with up to `n` of the least
steps added on the way. -/
def slack (j n : ℕ) (s : ℚ) : ℚ :=
  ((1 + unitError) ^ j - 1) * s + (1 + unitError) ^ j * (n * leastStep)

/-- A sum that is infinite stands for at least this. -/
@[irreducible] def reach : ℚ := 2 ^ 900

/-- The number is what the rational comes to after so many roundings. -/
structure Approximates (s : ℚ) (j n : ℕ) (x : Binary64) : Prop where
  isAmount : IsAmount x
  near : ∀ q, x.value? = some q → |q - s| ≤ slack j n s
  large : x.value? = none → reach ≤ s + slack j n s

theorem reach_le : reach ≤ 2 ^ 1000 := by
  rw [reach]
  exact pow_le_pow_right₀ one_le_two (by norm_num)

section Slack
variable {x y : Binary64} {s t a u w : ℚ} {j i n m : ℕ}

theorem one_le_pow_unitError (j : ℕ) : 1 ≤ (1 + unitError) ^ j :=
  one_le_pow₀ (le_add_of_nonneg_right unitError_pos.le)

theorem slack_mono (hs : 0 ≤ s) (hst : s ≤ t) (hj : j ≤ i) (hn : n ≤ m) :
    slack j n s ≤ slack i m t := by
  have hpow : (1 + unitError) ^ j ≤ (1 + unitError) ^ i :=
    pow_le_pow_right₀ (le_add_of_nonneg_right unitError_pos.le) hj
  have hone := one_le_pow_unitError j
  have hunit := unitError_pos
  have hstep := leastStep_pos
  have hcast : (n : ℚ) ≤ m := by exact_mod_cast hn
  unfold slack
  gcongr
  linarith

theorem slack_nonneg (hs : 0 ≤ s) : 0 ≤ slack j n s := by
  have hone := one_le_pow_unitError j
  have hunit := unitError_pos
  have hstep := leastStep_pos
  have hfirst := mul_nonneg (sub_nonneg.mpr hone) hs
  unfold slack
  positivity

/-- One more rounding. -/
theorem slack_succ (j n m : ℕ) (s t : ℚ) :
    (slack j n s + slack j m t) * (1 + unitError) + (s + t) * unitError + leastStep ≤
      slack (j + 1) (n + m + 1) (s + t) := by
  have hone := one_le_pow_unitError (j + 1)
  have hstep := mul_le_mul_of_nonneg_right hone leastStep_pos.le
  unfold slack
  rw [pow_succ] at hstep ⊢
  push_cast
  generalize (1 + unitError) ^ j = power at *
  linarith

theorem Approximates.value_le (h : Approximates s j n x) {q : ℚ} (hq : x.value? = some q) :
    q ≤ s + slack j n s := by
  linarith [(abs_le.mp (h.near q hq)).2]

theorem Approximates.mono (h : Approximates s j n x) (hs : 0 ≤ s) (hj : j ≤ i) (hn : n ≤ m) :
    Approximates s i m x := by
  have hslack : slack j n s ≤ slack i m s := slack_mono hs le_rfl hj hn
  exact ⟨h.isAmount, fun q hq => (h.near q hq).trans hslack,
    fun hnone => (h.large hnone).trans (by linarith)⟩

theorem zero_approximates (j : ℕ) : Approximates 0 j 0 zero := by
  refine ⟨isAmount_zero, fun q hq => ?_, fun hnone => by cases hnone⟩
  simp [slack, eq_zero_of_value? hq]

theorem Approximates.add (hx : Approximates s j n x) (hy : Approximates t j m y) (hs : 0 ≤ s)
    (ht : 0 ≤ t) : Approximates (s + t) (j + 1) (n + m + 1) (x.add y) := by
  have hslack := slack_succ j n m s t
  have hunit := unitError_pos
  have hstep := leastStep_pos
  have hslackS : 0 ≤ slack j n s := slack_nonneg hs
  have hslackT : 0 ≤ slack j m t := slack_nonneg ht
  -- what is lost by the operands is still there after the addition
  have hkept : slack j n s + slack j m t ≤ slack (j + 1) (n + m + 1) (s + t) := by
    have hrest : 0 ≤ (slack j n s + slack j m t + (s + t)) * unitError := by positivity
    linarith
  by_cases hfinite : x.value? = none ∨ y.value? = none
  · rw [add_infinite hx.isAmount hy.isAmount hfinite]
    refine ⟨.infinite, fun q hq => (by cases hq), fun _ => ?_⟩
    rcases hfinite with hnone | hnone
    · linarith [hx.large hnone]
    · linarith [hy.large hnone]
  · obtain ⟨hxsome, hysome⟩ := not_or.mp hfinite
    obtain ⟨p, hp⟩ := Option.ne_none_iff_exists'.mp hxsome
    obtain ⟨q, hq⟩ := Option.ne_none_iff_exists'.mp hysome
    have hrounds := add_roundsTo hx.isAmount hy.isAmount hp hq
    have hple := hx.value_le hp
    have hqle := hy.value_le hq
    have hpq : (p + q) * unitError ≤ (s + slack j n s + (t + slack j m t)) * unitError := by gcongr
    refine ⟨hrounds.isAmount, fun r hr => ?_, fun hnone => ?_⟩
    · calc |r - (s + t)| = |(r - (p + q)) + ((p - s) + (q - t))| := by
            congr 1
            ring
        _ ≤ |r - (p + q)| + (|p - s| + |q - t|) :=
            (abs_add_le _ _).trans (add_le_add_right (abs_add_le _ _) _)
        _ ≤ (p + q) * unitError + leastStep + (slack j n s + slack j m t) :=
            add_le_add (hrounds.near r hr) (add_le_add (hx.near p hp) (hy.near q hq))
        _ ≤ slack (j + 1) (n + m + 1) (s + t) := by linarith
    · have hlarge := reach_le.trans (hrounds.large hnone)
      have hrest : 0 ≤ (s + slack j n s + (t + slack j m t)) * unitError := by positivity
      linarith

/-- A factor magnifies a least step, and the product adds another. -/
theorem steps_le (hu : 0 ≤ u) (hum : u + 1 ≤ m) :
    leastStep * (u * (1 + unitError) ^ 2) + leastStep ≤
      (1 + unitError) ^ 3 * (m * leastStep) := by
  have hunit := unitError_pos
  have hstep := leastStep_pos
  have hpow : (1 + unitError) ^ 2 ≤ (1 + unitError) ^ 3 :=
    pow_le_pow_right₀ (by linarith) (by norm_num)
  have hone := one_le_pow_unitError 3
  have hsum : u * (1 + unitError) ^ 2 + 1 ≤ (1 + unitError) ^ 3 * m := by
    calc u * (1 + unitError) ^ 2 + 1 ≤ u * (1 + unitError) ^ 3 + (1 + unitError) ^ 3 := by gcongr
      _ = (1 + unitError) ^ 3 * (u + 1) := by ring
      _ ≤ (1 + unitError) ^ 3 * m := by gcongr
  calc leastStep * (u * (1 + unitError) ^ 2) + leastStep
      = (u * (1 + unitError) ^ 2 + 1) * leastStep := by ring
    _ ≤ (1 + unitError) ^ 3 * m * leastStep := by gcongr
    _ = (1 + unitError) ^ 3 * (m * leastStep) := by ring

/-- A product with a factor that is rounded itself. -/
theorem RoundsTo.mul_approximates (hx : RoundsTo a x) (ha : 0 ≤ a) (hy : IsAmount y)
    (hw : y.value? = some w) (hwpos : 0 < w) (hnear : |w - u| ≤ u * unitError)
    (hulow : 2 ^ (-100 : ℤ) ≤ u) (hum : u + 1 ≤ m) : Approximates (a * u) 3 m (x.mul y) := by
  have hunit := unitError_pos
  have hstep := leastStep_pos
  have hu : 0 < u := lt_of_lt_of_le (by positivity) hulow
  have hsteps := steps_le hu.le hum
  cases hvalue : x.value? with
  | none =>
    rw [mul_infinite hx.isAmount hvalue hw hy hwpos]
    refine ⟨.infinite, fun q hq => (by cases hq), fun _ => ?_⟩
    have hlarge := hx.large hvalue
    have hslack : 0 ≤ slack 3 m (a * u) := slack_nonneg (by positivity)
    have hreach : reach ≤ a * u := by
      calc reach = 2 ^ 1000 * 2 ^ (-100 : ℤ) := by
            rw [reach, ← zpow_natCast, ← zpow_natCast, ← zpow_add₀ two_ne_zero]
            rfl
        _ ≤ a * u := mul_le_mul hlarge hulow (by positivity) ha
    linarith
  | some p =>
    have hrounds := mul_roundsTo hx.isAmount hy hvalue hw
    have hp : 0 ≤ p := hx.isAmount.nonneg hvalue
    have hpnear := hx.near p hvalue
    have hple : p ≤ a * (1 + unitError) + leastStep := by linarith [(abs_le.mp hpnear).2]
    have hwle : w ≤ u * (1 + unitError) := by linarith [(abs_le.mp hnear).2]
    have hproduct : p * w ≤ (a * (1 + unitError) + leastStep) * (u * (1 + unitError)) := by
      gcongr
    have herror : |p * w - a * u| ≤ (a * unitError + leastStep) * (u * (1 + unitError)) +
        a * (u * unitError) := by
      calc |p * w - a * u| = |(p - a) * w + a * (w - u)| := by
            congr 1
            ring
        _ ≤ |p - a| * w + a * |w - u| := by
            refine (abs_add_le _ _).trans (le_of_eq ?_)
            rw [abs_mul, abs_mul, abs_of_pos hwpos, abs_of_nonneg ha]
        _ ≤ (a * unitError + leastStep) * (u * (1 + unitError)) + a * (u * unitError) := by
            gcongr
    refine ⟨hrounds.isAmount, fun r hr => ?_, fun hnone => ?_⟩
    · calc |r - a * u| = |(r - p * w) + (p * w - a * u)| := by
            congr 1
            ring
        _ ≤ |r - p * w| + |p * w - a * u| := abs_add_le _ _
        _ ≤ (p * w * unitError + leastStep) +
              ((a * unitError + leastStep) * (u * (1 + unitError)) + a * (u * unitError)) :=
            add_le_add (hrounds.near r hr) herror
        _ ≤ ((a * (1 + unitError) + leastStep) * (u * (1 + unitError)) * unitError + leastStep) +
              ((a * unitError + leastStep) * (u * (1 + unitError)) + a * (u * unitError)) := by
            gcongr
        _ = ((1 + unitError) ^ 3 - 1) * (a * u) +
              (leastStep * (u * (1 + unitError) ^ 2) + leastStep) := by ring
        _ ≤ slack 3 m (a * u) := by
            rw [slack]
            gcongr
    · calc reach ≤ p * w := reach_le.trans (hrounds.large hnone)
        _ ≤ (a * (1 + unitError) + leastStep) * (u * (1 + unitError)) := hproduct
        _ ≤ (a * (1 + unitError) + leastStep) * (u * (1 + unitError)) * (1 + unitError) +
              leastStep := by
            have hgrows : 0 ≤ (a * (1 + unitError) + leastStep) * (u * (1 + unitError)) := by
              positivity
            linarith [mul_nonneg hgrows hunit.le]
        _ = (1 + unitError) ^ 3 * (a * u) +
              (leastStep * (u * (1 + unitError) ^ 2) + leastStep) := by ring
        _ ≤ (1 + unitError) ^ 3 * (a * u) + (1 + unitError) ^ 3 * (m * leastStep) := by gcongr
        _ = a * u + slack 3 m (a * u) := by
            rw [slack]
            ring

/-! ### What a small error leaves certain -/

/-- Bernoulli's inequality, for the growth of an error. -/
theorem pow_mul_le_one (j : ℕ) : (1 + unitError) ^ j * (1 - j * unitError) ≤ 1 := by
  have hunit := unitError_pos
  have hsmall : unitError ≤ 1 := by
    rw [unitError]
    norm_num
  have hbernoulli : 1 - j * unitError ≤ (1 - unitError) ^ j := by
    have hpow := one_add_mul_le_pow (a := -unitError) (by linarith) j
    rwa [mul_neg, ← sub_eq_add_neg, ← sub_eq_add_neg] at hpow
  calc (1 + unitError) ^ j * (1 - j * unitError)
      ≤ (1 + unitError) ^ j * (1 - unitError) ^ j := by gcongr
    _ = (1 - unitError ^ 2) ^ j := by
        rw [← mul_pow]
        ring
    _ ≤ 1 := pow_le_one₀ (by nlinarith) (by nlinarith)

theorem add_slack (s : ℚ) (j n : ℕ) :
    s + slack j n s = (1 + unitError) ^ j * (s + n * leastStep) := by
  rw [slack]
  ring

theorem Approximates.exists_lt {b : ℚ} (h : Approximates s j n x) (hs : 0 ≤ s) (hb : b ≤ reach)
    (hbpos : 0 < b) (hlt : s + n * leastStep < b * (1 - j * unitError)) :
    ∃ q, x.value? = some q ∧ q < b := by
  have hstep := leastStep_pos
  have hunit := unitError_pos
  have hsum : 0 ≤ s + n * leastStep := by positivity
  have hrest : 0 < 1 - j * unitError := (mul_pos_iff_of_pos_left hbpos).mp (hsum.trans_lt hlt)
  have htotal : s + slack j n s < b := by
    calc s + slack j n s = (1 + unitError) ^ j * (s + n * leastStep) := add_slack s j n
      _ < (1 + unitError) ^ j * (b * (1 - j * unitError)) := by gcongr
      _ = b * ((1 + unitError) ^ j * (1 - j * unitError)) := by ring
      _ ≤ b * 1 := by
          gcongr
          exact pow_mul_le_one j
      _ = b := mul_one b
  cases hvalue : x.value? with
  | none => exact absurd (h.large hvalue) (not_le.mpr (htotal.trans_le hb))
  | some q => exact ⟨q, rfl, (h.value_le hvalue).trans_lt htotal⟩

theorem Approximates.ge {b : ℚ} (h : Approximates s j n x) (hs : 0 ≤ s)
    (hj : 0 < 1 - j * unitError)
    (hge : b * (1 - j * unitError) + n * leastStep ≤ s * (1 - 2 * (j * unitError))) :
    ∀ q, x.value? = some q → b ≤ q := by
  intro q hq
  have hstep := leastStep_pos
  have hsum : 0 ≤ s + n * leastStep := by positivity
  have hlow : 2 * s - (1 + unitError) ^ j * (s + n * leastStep) ≤ q := by
    rw [← add_slack]
    linarith [(abs_le.mp (h.near q hq)).1]
  refine le_of_mul_le_mul_right ?_ hj
  calc b * (1 - j * unitError) ≤ s * (1 - 2 * (j * unitError)) - n * leastStep := by linarith
    _ = 2 * s * (1 - j * unitError) - 1 * (s + n * leastStep) := by ring
    _ ≤ 2 * s * (1 - j * unitError) -
          (1 + unitError) ^ j * (1 - j * unitError) * (s + n * leastStep) := by
        gcongr
        exact pow_mul_le_one j
    _ = (2 * s - (1 + unitError) ^ j * (s + n * leastStep)) * (1 - j * unitError) := by ring
    _ ≤ q * (1 - j * unitError) := by gcongr

end Slack

end WorkloadTuning.Binary64
