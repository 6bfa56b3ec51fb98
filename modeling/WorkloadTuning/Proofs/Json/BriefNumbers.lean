import WorkloadTuning.Proofs.Json.Decimals

/-! Numbers of few decimal digits. The shortest text of one shows a significand and a power of ten
that are both exact, so that the number comes back from a document. -/

namespace WorkloadTuning

open Binary64 Json
open Text

/-- The number is nearest to a decimal of up to fifteen digits, up to 22 of them behind the
point. -/
def Binary64.IsBrief (x : Binary64) : Prop :=
  ∃ negative digits place, digits < 10 ^ 15 ∧ -22 ≤ place ∧ place ≤ 0 ∧
    x = ofDecimal negative digits place

/-! ### What the shortest text shows -/

namespace Binary64

/-- What the shortest text of a brief number shows. -/
structure IsShown (m : Nat) (e : ℤ) (digits : Nat) (place : ℤ) : Prop where
  pos : 0 < digits
  surrounds : Surrounds m e (digits * 10 ^ place)
  least : -22 ≤ place
  few : digits < 2 ^ 53
  small : 0 ≤ place → digits * 10 ^ place.toNat ≤ 10 ^ 15

theorem Surrounds.pos {m : Nat} {e : ℤ} {q : ℚ} (hm : 0 < m) (h : Surrounds m e q) : 0 < q := by
  have hvalue : (0 : ℚ) < m * 2 ^ e := by positivity
  linarith [(h.bounds hm).1]

theorem Surrounds.le_add {m : Nat} {e : ℤ} {q r : ℚ} (hq : Surrounds m e q) (hr : Surrounds m e r) :
    r ≤ q + 2 ^ e := by
  have hreach : (reachBelow m e : ℚ) ≤ 2 := by
    unfold reachBelow
    split <;> norm_num
  have hle : r / 2 ^ e ≤ q / 2 ^ e + 1 := by linarith [hq.lower, hr.upper]
  rw [div_add_one (by positivity)] at hle
  exact (div_le_div_iff_of_pos_right (by positivity)).mp hle

theorem isShown_shortest {m digits : Nat} {e place : ℤ} (hstored : IsStored m e) (hm : 0 < m)
    (hdigits : 0 < digits) (hmost : digits < 10 ^ 15) (hleast : -22 ≤ place) (hplace : place ≤ 0)
    (h : Surrounds m e (digits * 10 ^ place)) :
    IsShown m e (shortest m e).1 (shortest m e).2 := by
  obtain ⟨kept, at', hshortest, hkept, hat, hfew⟩ := shortest_spec hm hdigits hmost h
  rw [hshortest]
  have hpos : 0 < kept := by
    rw [Nat.pos_iff_ne_zero]
    rintro rfl
    simpa using hkept.pos hm
  refine ⟨hpos, hkept, hleast.trans hat, by omega, fun hwhole => ?_⟩
  have hmost' : (digits : ℚ) + 1 ≤ 10 ^ 15 := by exact_mod_cast hmost
  have hvalue : (digits : ℚ) * 10 ^ place ≤ digits :=
    mul_le_of_le_one_right (by positivity) (zpow_le_one_of_nonpos₀ (by norm_num) hplace)
  -- below ten to the fifteenth the numbers lie closer than the whole ones
  have hstep : (2 : ℚ) ^ e ≤ 2 ^ (-1 : ℤ) := by
    refine zpow_le_zpow_right₀ one_le_two (not_lt.mp fun hlt => ?_)
    have hnormal : (2 : ℚ) ^ 52 ≤ m := by
      exact_mod_cast hstored.ge (by rw [minExponent]; omega)
    have hone : (1 : ℚ) ≤ 2 ^ e := one_le_zpow₀ one_le_two (by omega)
    have hlarge : (2 : ℚ) ^ 52 ≤ m * 2 ^ e :=
      hnormal.trans (le_mul_of_one_le_right (by positivity) hone)
    have hsmall := (h.bounds hm).1
    norm_num at hlarge hmost'
    linarith
  have hnear := h.le_add hkept
  obtain ⟨n, rfl⟩ := Int.eq_ofNat_of_zero_le hwhole
  rw [zpow_neg_one] at hstep
  change (kept : ℚ) * 10 ^ (n : ℤ) ≤ _ at hnear
  rw [zpow_natCast] at hnear
  have hle : (kept : ℚ) * 10 ^ n ≤ 10 ^ 15 := by
    norm_num at hstep hmost' ⊢
    linarith
  exact_mod_cast hle

theorem IsShown.point_le {m digits : Nat} {e place : ℤ} (h : IsShown m e digits place) :
    digitCount digits + place ≤ 16 := by
  have hlow := pow_le_of_digitCount h.pos
  by_cases hwhole : 0 ≤ place
  · obtain ⟨n, rfl⟩ := Int.eq_ofNat_of_zero_le hwhole
    have hle : 10 ^ (digitCount digits - 1 + n) ≤ 10 ^ 15 := by
      rw [pow_add]
      exact (Nat.mul_le_mul_right _ hlow).trans (h.small hwhole)
    have := (Nat.pow_le_pow_iff_right (by decide : 1 < 10)).mp hle
    omega
  · have hlt : 10 ^ (digitCount digits - 1) < 10 ^ 16 :=
      (hlow.trans_lt h.few).trans (by norm_num)
    have := (Nat.pow_lt_pow_iff_right (by decide : 1 < 10)).mp hlt
    omega

/-- The text shows a significand that is exact, over a power of ten that is. -/
theorem readUnsigned_shown {negative : Bool} {m digits : Nat} {e place : ℤ} (hstored : IsStored m e)
    (h : IsShown m e digits place) {rest : List Char} (hrest : IsEnd rest) :
    readUnsigned negative ((layout digits place).toList ++ rest) =
      some (.float (finite negative m e), rest) := by
  have hpos := h.pos
  by_cases hwhole : 0 ≤ place
  · have hshown : shown digits place = (digits * 10 ^ (place.toNat + 1), 1) := if_pos hwhole
    obtain ⟨n, rfl⟩ := Int.eq_ofNat_of_zero_le hwhole
    have hsmall := h.small hwhole
    rw [Int.toNat_natCast] at hshown hsmall
    have hsignificand : digits * 10 ^ (n + 1) = 5 * (digits * 10 ^ n) * 2 := by ring
    refine readUnsigned_layout hpos h.point_le ?_ hrest ?_
    · rw [hshown, hsignificand]
      omega
    · rw [hshown]
      refine floatOf_eq (n := 5 * (digits * 10 ^ n)) (j := 1) (by positivity) (by omega) (by decide)
        (by decide) ?_ Nat.one_pos (by norm_num) hstored ?_
      · rw [hsignificand, zpow_one]
        push_cast
        ring
      · have hvalue : ((digits * 10 ^ (n + 1) : Nat) : ℚ) / 10 ^ 1 = digits * 10 ^ (n : ℤ) := by
          rw [zpow_natCast]
          push_cast
          ring
        rw [hvalue]
        exact h.surrounds
  · have hshown : shown digits place = (digits, (-place).toNat) := if_neg hwhole
    have hleast := h.least
    have hfew := h.few
    refine readUnsigned_layout hpos h.point_le ?_ hrest ?_
    · rw [hshown]
      omega
    · rw [hshown]
      refine floatOf_eq (n := digits) (j := 0) hpos hfew le_rfl (by decide) ?_ (by omega) (by omega)
        hstored ?_
      · rw [zpow_zero, mul_one]
      · have hvalue : (digits : ℚ) / 10 ^ (-place).toNat = digits * 10 ^ place := by
          rw [← zpow_natCast, Int.toNat_of_nonneg (by omega), zpow_neg, div_inv_eq_mul]
        rw [hvalue]
        exact h.surrounds

section Brief
variable {digits : Nat} {place : ℤ}

theorem ofDecimal_eq_ofRatio (negative : Bool) (hdigits : 0 < digits) (hmost : digits < 10 ^ 15)
    (hleast : -22 ≤ place) (hplace : place ≤ 0) : ofDecimal negative digits place =
      ofRatio negative (digits * tenTo place.toNat) (tenTo (-place).toNat) := by
  have hcount : digitCount digits ≤ 15 :=
    (Nat.length_toDigits_le_iff (by decide) (by decide)).mpr hmost
  unfold ofDecimal
  dsimp only
  rw [if_neg hdigits.ne', if_neg (by omega), if_neg (by omega)]

theorem decimal_bounds (hdigits : 0 < digits) (hmost : digits < 10 ^ 15) (hleast : -22 ≤ place)
    (hplace : place ≤ 0) : (2 : ℚ) ^ (-1000 : ℤ) ≤ digits * 10 ^ place ∧
      (digits : ℚ) * 10 ^ place < 2 ^ (1000 : ℤ) := by
  have hone : (1 : ℚ) ≤ digits := by exact_mod_cast hdigits
  have hmost' : (digits : ℚ) ≤ 10 ^ 15 := by exact_mod_cast hmost.le
  have hlow : (10 : ℚ) ^ (-22 : ℤ) ≤ 10 ^ place := zpow_le_zpow_right₀ (by norm_num) hleast
  have hhigh : (10 : ℚ) ^ place ≤ 1 := zpow_le_one_of_nonpos₀ (by norm_num) hplace
  have hpos : (0 : ℚ) < 10 ^ place := by positivity
  constructor
  · calc (2 : ℚ) ^ (-1000 : ℤ) ≤ 2 ^ (-100 : ℤ) := zpow_le_zpow_right₀ one_le_two (by decide)
      _ ≤ 10 ^ (-22 : ℤ) := by norm_num
      _ ≤ 10 ^ place := hlow
      _ ≤ digits * 10 ^ place := le_mul_of_one_le_left hpos.le hone
  · calc (digits : ℚ) * 10 ^ place ≤ digits := mul_le_of_le_one_right (by positivity) hhigh
      _ ≤ 10 ^ 15 := hmost'
      _ < 2 ^ (100 : ℤ) := by norm_num
      _ ≤ 2 ^ (1000 : ℤ) := zpow_le_zpow_right₀ one_le_two (by decide)

/-- A brief number is zero, or its shortest text shows it. -/
theorem IsBrief.cases {x : Binary64} (h : x.IsBrief) :
    ∃ negative, x = finite negative 0 minExponent ∨ ∃ m e, 0 < m ∧ IsStored m e ∧
      x = finite negative m e ∧ IsShown m e (shortest m e).1 (shortest m e).2 := by
  obtain ⟨negative, digits, place, hmost, hleast, hplace, rfl⟩ := h
  refine ⟨negative, ?_⟩
  rcases Nat.eq_zero_or_pos digits with rfl | hdigits
  · exact .inl rfl
  · right
    have hvalue : ((digits * tenTo place.toNat : Nat) : ℚ) / (tenTo (-place).toNat : Nat) =
        digits * 10 ^ place := by
      have hpow := pow_div_pow_toNat (b := 10) (by norm_num) place
      push_cast [cast_tenTo]
      rw [mul_div_assoc, hpow]
    obtain ⟨hatLeast, hatMost⟩ := decimal_bounds hdigits hmost hleast hplace
    rw [← hvalue] at hatLeast hatMost
    obtain ⟨m, e, hstored, hm, hsurrounds, hfinite⟩ := exists_ofRatio_eq_finite
      (Nat.mul_pos hdigits (tenTo_pos _)) (tenTo_pos _) hatLeast hatMost
    rw [hvalue] at hsurrounds
    refine ⟨m, e, hm, hstored, ?_,
      isShown_shortest hstored hm hdigits hmost hleast hplace hsurrounds⟩
    rw [ofDecimal_eq_ofRatio negative hdigits hmost hleast hplace, hfinite]

end Brief

end Binary64

/-! ### Reading it back -/

theorem Json.exists_digit_of_readUnsigned {negative : Bool} {cs : List Char}
    {read : Number × List Char} (h : readUnsigned negative cs = some read) :
    ∃ c rest, cs = c :: rest ∧ isDigit c = true := by
  rcases cs with _ | ⟨c, rest⟩
  · cases h
  · refine ⟨c, rest, rfl, ?_⟩
    by_contra hc
    have hnone : (c :: rest).takeWhile isDigit = [] := by
      rw [List.takeWhile_cons_of_neg hc]
    unfold readUnsigned at h
    rw [hnone] at h
    cases h

theorem Number.float_isRead_of_text {negative : Bool} {m : Nat} {e : ℤ} (text : String)
    (htext : (finite negative m e).toText = (if negative then "-" else "") ++ text)
    (h : ∀ rest, IsEnd rest → readUnsigned negative (text.toList ++ rest) =
      some (.float (finite negative m e), rest)) :
    (Number.float (finite negative m e)).IsRead := by
  have hread := h [] (by simp [IsEnd])
  rw [List.append_nil] at hread
  obtain ⟨c, digits, hdigits, hc⟩ := exists_digit_of_readUnsigned hread
  have hchars : (Number.float (finite negative m e)).toText.toList =
      (if negative then ['-'] else []) ++ text.toList := by
    rw [toText, htext, String.toList_append]
    cases negative <;> rfl
  cases negative with
  | true =>
    refine ⟨⟨'-', text.toList, hchars, .inl rfl⟩, fun rest hrest => ?_⟩
    rw [hchars]
    exact h rest hrest
  | false =>
    refine ⟨⟨c, digits, hchars.trans hdigits, .inr hc⟩, fun rest hrest => ?_⟩
    have hrest := h rest hrest
    change _ = text.toList at hchars
    rw [hdigits, List.cons_append] at hrest
    rw [hchars, hdigits, List.cons_append]
    unfold readNumber
    split
    · next heq =>
      obtain ⟨rfl, -⟩ := List.cons.inj heq
      exact absurd hc (by decide)
    · exact hrest

/-- A brief number is read as what is written of it. -/
theorem Number.float_isRead {x : Binary64} (h : x.IsBrief) : (Number.float x).IsRead := by
  obtain ⟨negative, rfl | ⟨m, e, hm, hstored, rfl, hshown⟩⟩ := h.cases
  · refine float_isRead_of_text "0.0" rfl fun rest hrest => ?_
    have hzero : IsWhole ['0'] := ⟨⟨by simp, by simp; decide⟩, by simp⟩
    refine readUnsigned_pointed hzero hzero.toAreDigits (by decide) hrest ?_
    cases negative <;> decide +kernel
  · refine float_isRead_of_text (layout (shortest m e).1 (shortest m e).2) ?_
      fun rest hrest => readUnsigned_shown hstored hshown hrest
    unfold Binary64.toText
    dsimp only
    rw [if_neg hm.ne']

end WorkloadTuning
