import WorkloadTuning.Proofs.Decimal.Rounding
import Mathlib.Tactic.NormNum

/-! The shortest text of a number stays in its interval, so it rounds to the number again. -/

namespace WorkloadTuning.Binary64

section Interval
variable {m : Nat} {e p place : ℤ}

/-- Between two rationals of an interval all are. -/
theorem Surrounds.between {q r s : ℚ} (hq : Surrounds m e q) (hs : Surrounds m e s) (hqr : q ≤ r)
    (hrs : r ≤ s) : Surrounds m e r := by
  have hlow : q / 2 ^ e ≤ r / 2 ^ e := by gcongr
  have hhigh : r / 2 ^ e ≤ s / 2 ^ e := by gcongr
  constructor
  · linarith [hq.lower]
  · linarith [hs.upper]
  · intro hodd
    have hq' := (hq.odd hodd).1
    have hs' := (hs.odd hodd).2
    constructor <;> linarith

theorem interval_value (m : Nat) (e : ℤ) :
    ((interval m e).value : ℚ) / (interval m e).den = m * 2 ^ e := by
  have h := pow_div_pow_toNat (two_ne_zero (α := ℚ)) (e - 2)
  rw [neg_sub, zpow_sub₀ two_ne_zero] at h
  change ((4 * m * twoTo (e - 2).toNat : Nat) : ℚ) / twoTo (2 - e).toNat = _
  push_cast [cast_twoTo]
  rw [mul_div_assoc, h]
  ring

theorem interval_den_pos (m : Nat) (e : ℤ) : 0 < (interval m e).den :=
  twoTo_pos _

/-! ### Decimal grids -/

/-- What the point `digits · 10 ^ place` is asked for. -/
theorem contains_grid_iff (hm : 0 < m) (digits : Nat) :
    (interval m e).contains (digits * tenTo place.toNat) (tenTo (-place).toNat) ↔
      Surrounds m e (digits * 10 ^ place) := by
  rw [interval_contains_iff (tenTo_pos _) hm]
  have h := pow_div_pow_toNat (b := 10) (by norm_num) place
  push_cast [cast_tenTo]
  rw [mul_div_assoc, h]

/-- The number of grid steps in the value, rounded down. -/
def stepsBelow (m : Nat) (e place : ℤ) : Nat :=
  (interval m e).value * tenTo (-place).toNat / ((interval m e).den * tenTo place.toNat)

theorem stepsBelow_spec (m : Nat) (e place : ℤ) :
    (stepsBelow m e place : ℚ) * 10 ^ place ≤ m * 2 ^ e ∧
      m * 2 ^ e < (stepsBelow m e place + 1 : ℚ) * 10 ^ place := by
  have hstep : 0 < (interval m e).den * tenTo place.toNat :=
    Nat.mul_pos (interval_den_pos m e) (tenTo_pos _)
  have hratio : (((interval m e).value * tenTo (-place).toNat : Nat) : ℚ) /
      ((interval m e).den * tenTo place.toNat : Nat) = m * 2 ^ e / 10 ^ place := by
    rw [← interval_value, ← pow_div_pow_toNat (b := 10) (by norm_num) place]
    push_cast [cast_tenTo]
    field_simp
  have hstep' : (0 : ℚ) < ((interval m e).den * tenTo place.toNat : Nat) := by exact_mod_cast hstep
  rw [← le_div_iff₀ (by positivity), ← div_lt_iff₀ (by positivity), ← hratio, le_div_iff₀ hstep',
    div_lt_iff₀ hstep']
  constructor
  · exact_mod_cast Nat.div_mul_le_self _ _
  · exact_mod_cast (Nat.div_lt_iff_lt_mul hstep).mp (Nat.lt_succ_self _)

theorem nearest?_eq_some {digits : Nat} (hm : 0 < m)
    (h : (interval m e).nearest? place = some digits) :
    Surrounds m e (digits * 10 ^ place) ∧
      (digits = stepsBelow m e place ∨ digits = stepsBelow m e place + 1) := by
  rw [← contains_grid_iff hm]
  unfold Interval.nearest? at h
  dsimp only at h
  split at h
  · next hdown hup =>
    obtain rfl := Option.some.inj h
    split
    · exact ⟨hdown, .inl rfl⟩
    · split
      · exact ⟨hup, .inr rfl⟩
      · change (interval m e).contains ((stepsBelow m e place + stepsBelow m e place % 2) * _) _ ∧
          (stepsBelow m e place + stepsBelow m e place % 2 = _ ∨
            stepsBelow m e place + stepsBelow m e place % 2 = _)
        rcases Nat.mod_two_eq_zero_or_one (stepsBelow m e place) with heven | hodd
        · rw [heven]
          exact ⟨hdown, .inl rfl⟩
        · rw [hodd]
          exact ⟨hup, .inr rfl⟩
  · next hdown hup =>
    obtain rfl := Option.some.inj h
    exact ⟨hdown, .inl rfl⟩
  · next hdown hup =>
    obtain rfl := Option.some.inj h
    exact ⟨hup, .inr rfl⟩
  · cases h

/-- A grid with a point in the interval has its nearest point there. -/
theorem exists_nearest? {digits : Nat} (hm : 0 < m) (h : Surrounds m e (digits * 10 ^ place)) :
    ∃ nearest, (interval m e).nearest? place = some nearest := by
  obtain ⟨hdown, hup⟩ := stepsBelow_spec m e place
  have hpos : (0 : ℚ) < 10 ^ place := by positivity
  have hnone : (interval m e).nearest? place ≠ none := by
    intro hnone
    unfold Interval.nearest? at hnone
    dsimp only at hnone
    split at hnone
    · cases hnone
    · cases hnone
    · cases hnone
    · next hoffDown hoffUp =>
      change (interval m e).contains (stepsBelow m e place * tenTo place.toNat) _ = false at hoffDown
      change (interval m e).contains ((stepsBelow m e place + 1) * tenTo place.toNat) _ = false
        at hoffUp
      rcases Nat.lt_or_ge (stepsBelow m e place) digits with hlt | hge
      · have hle : (stepsBelow m e place + 1 : ℚ) ≤ digits := by exact_mod_cast hlt
        have hmem : Surrounds m e ((stepsBelow m e place + 1 : Nat) * 10 ^ place) := by
          refine (surrounds_value m e).between h ?_ ?_
          · push_cast
            exact hup.le
          · push_cast
            gcongr
        rw [← contains_grid_iff hm, hoffUp] at hmem
        cases hmem
      · have hle : (digits : ℚ) ≤ stepsBelow m e place := by exact_mod_cast hge
        have hmem : Surrounds m e (stepsBelow m e place * 10 ^ place) :=
          h.between (surrounds_value m e) (by gcongr) hdown
        rw [← contains_grid_iff hm, hoffDown] at hmem
        cases hmem
  exact Option.ne_none_iff_exists'.mp hnone

/-! ### The search -/

theorem Surrounds.bounds {q : ℚ} (hm : 0 < m) (h : Surrounds m e q) :
    (m : ℚ) * 2 ^ e ≤ 2 * q ∧ q ≤ 2 * (m * 2 ^ e) := by
  have hone : (1 : ℚ) ≤ m := by exact_mod_cast hm
  have hreach : (reachBelow m e : ℚ) ≤ 2 := by
    unfold reachBelow
    split <;> norm_num
  have hlow : (m : ℚ) ≤ 2 * q / 2 ^ e := by
    rw [mul_div_assoc]
    linarith [h.lower]
  have hhigh : q / 2 ^ e ≤ 2 * m := by linarith [h.upper]
  rw [le_div_iff₀ (by positivity)] at hlow
  rw [div_le_iff₀ (by positivity), mul_assoc] at hhigh
  exact ⟨hlow, hhigh⟩

/-- The search ends at the first grid that meets the interval. -/
theorem search_spec {digits count : Nat} (hm : 0 < m) (h : Surrounds m e (digits * 10 ^ p))
    (hp : p ≤ place) (hcount : place - count ≤ p) :
    ∃ found at', (interval m e).search count place = (found, at') ∧ p ≤ at' ∧ at' ≤ place ∧
      (interval m e).nearest? at' = some found := by
  induction count generalizing place with
  | zero =>
    obtain rfl : place = p := by omega
    obtain ⟨nearest, hnearest⟩ := exists_nearest? hm h
    refine ⟨nearest, place, ?_, le_rfl, le_rfl, hnearest⟩
    rw [Interval.search, hnearest, Option.getD_some]
  | succ count ih =>
    rw [Interval.search]
    cases hnearest : (interval m e).nearest? place with
    | some nearest => exact ⟨nearest, place, rfl, hp, le_rfl, hnearest⟩
    | none =>
      have hne : p ≠ place := by
        rintro rfl
        obtain ⟨nearest, hsome⟩ := exists_nearest? hm h
        rw [hnearest] at hsome
        cases hsome
      obtain ⟨found, at', hsearch, hpat, hat, hfound⟩ :=
        ih (by omega : p ≤ place - 1) (by push_cast at hcount; omega)
      exact ⟨found, at', hsearch, hpat, by omega, hfound⟩

theorem stripZeros_spec (fuel digits : Nat) (place : ℤ) :
    ∃ kept at', stripZeros fuel digits place = (kept, at') ∧
      (kept * 10 ^ at' : ℚ) = digits * 10 ^ place ∧ place ≤ at' ∧ kept ≤ digits := by
  induction fuel generalizing digits place with
  | zero => exact ⟨digits, place, rfl, rfl, le_rfl, le_rfl⟩
  | succ fuel ih =>
    rw [stripZeros]
    split
    · next hzero =>
      obtain ⟨kept, at', hstrip, hvalue, hat, hkept⟩ := ih (digits / 10) (place + 1)
      refine ⟨kept, at', hstrip, ?_, by omega, by omega⟩
      have hdigits : (digits : ℚ) = (digits / 10 : Nat) * 10 := by
        exact_mod_cast (Nat.div_mul_cancel (Nat.dvd_of_mod_eq_zero hzero.1)).symm
      rw [hvalue, zpow_add_one₀ (by norm_num), hdigits]
      ring
    · exact ⟨digits, place, rfl, rfl, le_rfl, le_rfl⟩

end Interval

/-! ### Digits -/

theorem digitCount_pos (n : Nat) : 0 < digitCount n :=
  Nat.length_toDigits_pos

theorem lt_pow_digitCount (n : Nat) : n < 10 ^ digitCount n :=
  (Nat.length_toDigits_le_iff (by decide) (digitCount_pos n)).mp le_rfl

theorem pow_le_of_digitCount {n : Nat} (hn : 0 < n) : 10 ^ (digitCount n - 1) ≤ n := by
  rcases Nat.eq_zero_or_pos (digitCount n - 1) with hzero | hpos
  · rw [hzero]
    exact hn
  · refine not_lt.mp fun hlt => ?_
    have hle := (Nat.length_toDigits_le_iff (b := 10) (by decide) hpos).mpr hlt
    have hcount := digitCount_pos n
    unfold digitCount at hle hcount hpos
    omega

/-- The value is around that power of ten. -/
theorem decimalPlaces_spec {num den : Nat} (hnum : 0 < num) (hden : 0 < den) :
    (10 : ℚ) ^ (decimalPlaces num den - 1) ≤ num / den ∧
      (num : ℚ) / den ≤ 10 ^ decimalPlaces num den := by
  have hden' : (0 : ℚ) < den := by exact_mod_cast hden
  have hnum' : (0 : ℚ) < num := by exact_mod_cast hnum
  unfold decimalPlaces
  split
  · next hle =>
    have hquotient : 0 < num / den := Nat.div_pos hle hden
    have hlow := pow_le_of_digitCount hquotient
    have hhigh := lt_pow_digitCount (num / den)
    have hcount := digitCount_pos (num / den)
    generalize digitCount (num / den) = count at hlow hhigh hcount
    constructor
    · rw [le_div_iff₀ hden', ← Nat.cast_pred hcount, zpow_natCast]
      exact_mod_cast (Nat.le_div_iff_mul_le hden).mp hlow
    · rw [div_le_iff₀ hden', zpow_natCast]
      exact_mod_cast ((Nat.div_lt_iff_lt_mul hden).mp hhigh).le
  · next hlt =>
    have hquotient : 0 < den / num := Nat.div_pos (by omega) hnum
    have hlow := pow_le_of_digitCount hquotient
    have hhigh := lt_pow_digitCount (den / num)
    have hcount := digitCount_pos (den / num)
    generalize digitCount (den / num) = count at hlow hhigh hcount
    constructor
    · have hexp : (1 - (count : ℤ) - 1) = -(count : ℤ) := by ring
      rw [hexp, zpow_neg, zpow_natCast, le_div_iff₀ hden', inv_mul_le_iff₀ (by positivity)]
      exact_mod_cast ((Nat.div_lt_iff_lt_mul hnum).mp hhigh).le
    · have hexp : 1 - (count : ℤ) = -((count - 1 : Nat) : ℤ) := by omega
      rw [hexp, zpow_neg, zpow_natCast, div_le_iff₀ hden', ← div_eq_inv_mul,
        le_div_iff₀ (by positivity), mul_comm]
      exact_mod_cast (Nat.le_div_iff_mul_le hnum).mp hlow
/-- Where a decimal of up to fifteen digits is in the interval, the shortest one is, too. -/
theorem shortest_spec {m digits : Nat} {e place : ℤ} (hm : 0 < m) (hdigits : 0 < digits)
    (hmost : digits < 10 ^ 15) (h : Surrounds m e (digits * 10 ^ place)) :
    ∃ kept at', shortest m e = (kept, at') ∧ Surrounds m e (kept * 10 ^ at') ∧ place ≤ at' ∧
      kept ≤ 2 * digits + 1 := by
  obtain ⟨hlow, hhigh⟩ := h.bounds hm
  have hvalue : 0 < (interval m e).value :=
    Nat.mul_pos (Nat.mul_pos (by decide) hm) (twoTo_pos _)
  obtain ⟨hfrom, hto⟩ := decimalPlaces_spec hvalue (interval_den_pos m e)
  rw [interval_value] at hfrom hto
  have hdigits' : (1 : ℚ) ≤ digits := by exact_mod_cast hdigits
  have hmost' : (digits : ℚ) < 10 ^ 15 := by exact_mod_cast hmost
  have hpos : (0 : ℚ) < 10 ^ place := by positivity
  have hplaces : 0 < (10 : ℚ) ^ decimalPlaces (interval m e).value (interval m e).den := by
    positivity
  unfold shortest
  dsimp only
  generalize decimalPlaces (interval m e).value (interval m e).den = places at hfrom hto hplaces ⊢
  have hup : place ≤ places := by
    have hlt : (10 : ℚ) ^ place < 10 ^ (places + 1) := by
      rw [zpow_add_one₀ (by norm_num)]
      nlinarith
    have := (zpow_lt_zpow_iff_right₀ (by norm_num : (1 : ℚ) < 10)).mp hlt
    omega
  have hdown : places - (20 : Nat) ≤ place := by
    have hlt : (10 : ℚ) ^ (places - 1) < 10 ^ (place + 16) := by
      rw [zpow_add₀ (by norm_num) place 16]
      norm_num
      nlinarith
    have := (zpow_lt_zpow_iff_right₀ (by norm_num : (1 : ℚ) < 10)).mp hlt
    omega
  obtain ⟨found, foundAt, hsearch, hat, -, hnearest⟩ := search_spec hm h hup hdown
  obtain ⟨kept, keptAt, hstrip, heq, hkeptAt, hkept⟩ := stripZeros_spec 20 found foundAt
  obtain ⟨hmem, hsteps⟩ := nearest?_eq_some hm hnearest
  rw [hsearch]
  refine ⟨kept, keptAt, hstrip, heq ▸ hmem, hat.trans hkeptAt, ?_⟩
  have hbelow : (stepsBelow m e foundAt : ℚ) ≤ 2 * digits := by
    have hgrid : (10 : ℚ) ^ place ≤ 10 ^ foundAt := zpow_le_zpow_right₀ (by norm_num) hat
    have hspec := (stepsBelow_spec m e foundAt).1
    have hposAt : (0 : ℚ) < 10 ^ foundAt := by positivity
    refine le_of_mul_le_mul_right ?_ hposAt
    nlinarith
  have hbelow' : stepsBelow m e foundAt ≤ 2 * digits := by exact_mod_cast hbelow
  omega

end WorkloadTuning.Binary64
