import WorkloadTuning.Proofs.Decimal.Sums
import WorkloadTuning.Proofs.Duration.Spelling

/-! Which texts are durations that are too long. The seconds are added up in double precision, and
a duration is read of the sum if it is below `2 ^ 64`. The sum is close to the exact one, so a text
is out of range just about where it writes that many seconds. -/

namespace WorkloadTuning.Duration

open Binary64

/-! ### The seconds that are written -/

namespace TimeUnit

/-- The unit in seconds, as a fraction. -/
def fraction : TimeUnit → Nat × Nat
  | ns => (1, 1000000000)
  | us | micro => (1, 1000000)
  | ms => (1, 1000)
  | s => (1, 1)
  | m => (60, 1)
  | h => (3600, 1)

def seconds (u : TimeUnit) : ℚ :=
  u.fraction.1 / u.fraction.2

theorem scale_eq (u : TimeUnit) : u.scale = ofRatio false u.fraction.1 u.fraction.2 := by
  cases u <;> rfl

theorem seconds_bounds (u : TimeUnit) : 2 ^ (-100 : ℤ) ≤ u.seconds ∧ u.seconds ≤ 3600 := by
  cases u <;> norm_num [seconds, fraction]

end TimeUnit

def Numeral.written (n : Numeral) : ℚ :=
  n.digits * 10 ^ (-n.places : ℤ)

def Term.written (t : Term) : ℚ :=
  t.number.written * t.unit.seconds

/-- The seconds that are written, exactly. -/
def written (terms : List Term) : ℚ :=
  (terms.map Term.written).sum

theorem Numeral.written_ofNat (n : Nat) : (ofNat n).written = n := by
  have hdigits : (ofNat n).digits = n := by
    show Text.digitsValue (Nat.toDigits 10 n ++ []) = n
    rw [List.append_nil, Text.digitsValue_toDigits]
  have hplaces : (ofNat n).places = 0 := rfl
  rw [written, hdigits, hplaces]
  simp

theorem Numeral.written_nonneg (n : Numeral) : 0 ≤ n.written := by
  unfold written
  positivity

theorem Term.written_nonneg (t : Term) : 0 ≤ t.written :=
  mul_nonneg t.number.written_nonneg (le_trans (by positivity) t.unit.seconds_bounds.1)

theorem written_nonneg (terms : List Term) : 0 ≤ written terms := by
  refine List.sum_nonneg fun q hq => ?_
  obtain ⟨t, -, rfl⟩ := List.mem_map.mp hq
  exact t.written_nonneg

/-! ### The sum in double precision -/

theorem Term.seconds_approximates (t : Term) : Approximates t.written 3 4097 t.seconds := by
  obtain ⟨hlow, hhigh⟩ := t.unit.seconds_bounds
  obtain ⟨hnum, hden⟩ : 0 < t.unit.fraction.1 ∧ 0 < t.unit.fraction.2 := by
    cases t.unit <;> decide
  have hless : t.unit.seconds < 2 ^ (1000 : ℤ) := by
    refine hhigh.trans_lt (lt_of_lt_of_le (b := (2 : ℚ) ^ (12 : ℤ)) (by norm_num) ?_)
    exact zpow_le_zpow_right₀ one_le_two (by norm_num)
  obtain ⟨m, e, hstored, hm, hscale, hnear⟩ := exists_ofRatio_near hnum hden
    ((zpow_le_zpow_right₀ one_le_two (by norm_num)).trans hlow) hless
  have hpos : (0 : ℚ) < m * 2 ^ e := by positivity
  have hnumber : RoundsTo t.number.written t.number.value :=
    ofDecimal_roundsTo t.number.digits (-t.number.places)
  rw [Term.seconds, t.unit.scale_eq, hscale]
  exact hnumber.mul_approximates t.number.written_nonneg (.finite hstored) (value?_finite m e) hpos
    hnear hlow (by norm_num; linarith)

theorem total_append (terms : List Term) (t : Term) :
    total (terms ++ [t]) = (total terms).add t.seconds := by
  rw [total, totalFrom, List.foldl_append]
  rfl

/-- Every term adds some roundings to the error of the sum. -/
theorem total_approximates (terms : List Term) :
    Approximates (written terms) (terms.length + 3) (4098 * terms.length) (total terms) := by
  induction terms using List.reverseRecOn with
  | nil => exact zero_approximates 3
  | append_singleton terms t ih =>
    have hterm : Approximates t.written (terms.length + 3) 4097 t.seconds :=
      t.seconds_approximates.mono t.written_nonneg (Nat.le_add_left 3 _) le_rfl
    have hsum := ih.add hterm (written_nonneg terms) t.written_nonneg
    have hwritten : written (terms ++ [t]) = written terms + t.written := by simp [written]
    rw [total_append, hwritten, List.length_append, List.length_singleton]
    exact hsum.mono (add_nonneg (written_nonneg terms) t.written_nonneg) (by omega) (by omega)

/-! ### Durations of a sum -/

/-- The sum is no duration any more. -/
def IsTooLong (terms : List Term) : Prop :=
  ∀ q, (total terms).value? = some q → 2 ^ 64 ≤ q

section OfBinary64
variable {x : Binary64} {q : ℚ} {d : Duration}

theorem ofBinary64?_finite (m : Nat) (e : ℤ) : ofBinary64? (finite false m e) =
    ofNanoseconds? (roundHalfEven (m * twoTo e.toNat * nanosecondsPerSecond)
      (twoTo (-e).toNat)) := by
  unfold ofBinary64? Binary64.ratio
  dsimp only
  rw [Bool.false_and, if_neg Bool.false_ne_true]

theorem nanoseconds_isNearest (m : Nat) (e : ℤ) : IsNearest (m * 2 ^ e * 10 ^ 9)
    (roundHalfEven (m * twoTo e.toNat * nanosecondsPerSecond) (twoTo (-e).toNat)) := by
  have hnearest := roundHalfEven_isNearest (m * twoTo e.toNat * nanosecondsPerSecond)
    (twoTo_pos (-e).toNat)
  have hexact : ((m * twoTo e.toNat * nanosecondsPerSecond : Nat) : ℚ) / twoTo (-e).toNat =
      m * 2 ^ e * 10 ^ 9 := by
    rw [← pow_div_pow_toNat two_ne_zero e, nanosecondsPerSecond]
    push_cast [cast_twoTo]
    ring
  rwa [hexact] at hnearest

/-- The numbers below a power of two keep a distance from it. -/
theorem le_of_isStored {m : Nat} {e : ℤ} (h : IsStored m e) (hlt : (m : ℚ) * 2 ^ e < 2 ^ 64) :
    (m : ℚ) * 2 ^ e ≤ 2 ^ 64 - 2 ^ 11 := by
  have hfew : (m : ℚ) + 1 ≤ 2 ^ 53 := by exact_mod_cast h.lt
  have hplace : e ≤ 11 := by
    by_contra hlarge
    have hm : (2 : ℚ) ^ 52 ≤ m := by exact_mod_cast h.ge (by rw [minExponent]; omega)
    have hpow : (2 : ℚ) ^ (12 : ℤ) ≤ 2 ^ e := zpow_le_zpow_right₀ one_le_two (by omega)
    have hproduct : (2 : ℚ) ^ 52 * 2 ^ (12 : ℤ) ≤ m * 2 ^ e := by gcongr
    norm_num at hproduct hlt
    linarith
  have hpow : (2 : ℚ) ^ e ≤ 2 ^ (11 : ℤ) := zpow_le_zpow_right₀ one_le_two hplace
  calc (m : ℚ) * 2 ^ e ≤ (2 ^ 53 - 1) * 2 ^ (11 : ℤ) := by
        gcongr
        linarith
    _ = 2 ^ 64 - 2 ^ 11 := by norm_num

theorem ofBinary64?_of_lt (hx : IsAmount x) (hq : x.value? = some q) (hlt : q < 2 ^ 64) :
    ∃ d, ofBinary64? x = some d ∧ IsNearest (q * 10 ^ 9) d.nanoseconds := by
  obtain ⟨m, e, rfl, hstored, rfl⟩ := hx.eq_finite hq
  have hnearest := nanoseconds_isNearest m e
  have hle := le_of_isStored hstored hlt
  rw [ofBinary64?_finite, ofNanoseconds?]
  generalize roundHalfEven _ _ = k at *
  have hk : k ≤ (2 ^ 64 - 2 ^ 11) * 10 ^ 9 := hnearest.le (by push_cast; linarith)
  rw [if_pos (by rw [limit, nanosecondsPerSecond]; omega)]
  exact ⟨⟨k⟩, rfl, hnearest⟩

theorem ofBinary64?_of_le (hx : IsAmount x) (h : ∀ q, x.value? = some q → 2 ^ 64 ≤ q) :
    ofBinary64? x = none := by
  cases hx with
  | infinite => rfl
  | @finite m e hstored =>
    have hnearest := nanoseconds_isNearest m e
    have hge := h _ (value?_finite m e)
    rw [ofBinary64?_finite, ofNanoseconds?]
    generalize roundHalfEven _ _ = k at *
    have hk : 2 ^ 64 * 10 ^ 9 ≤ k := hnearest.ge (by push_cast; linarith)
    exact if_neg (by rw [limit, nanosecondsPerSecond]; omega)

theorem lt_limit_of_ofNanoseconds? {n : Nat} (h : ofNanoseconds? n = some d) :
    d.nanoseconds < limit := by
  unfold ofNanoseconds? at h
  split at h
  · next hlt =>
    obtain rfl := Option.some.inj h
    exact hlt
  · cases h

theorem lt_limit_of_ofBinary64? (h : ofBinary64? x = some d) : d.nanoseconds < limit := by
  unfold ofBinary64? at h
  split at h
  · dsimp only at h
    split at h
    · cases h
    · exact lt_limit_of_ofNanoseconds? h
  · cases h

end OfBinary64

/-! ### Reading -/

section Parse
variable {text : String} {terms : List Term} {d : Duration}

/-- What the text is read as. -/
inductive Reads (text : String) : Except DurationError Duration → Prop
  | zero (h : text = "0") : Reads text (.ok Duration.zero)
  | sum {terms : List Term} {q : ℚ} {d : Duration} (h : Spells text terms)
    (hq : (total terms).value? = some q) (hlt : q < 2 ^ 64)
    (hnearest : IsNearest (q * 10 ^ 9) d.nanoseconds) : Reads text (.ok d)
  | tooLong {terms : List Term} (h : Spells text terms) (hlong : IsTooLong terms) :
    Reads text (.error .outOfRange)
  | invalid (hzero : text ≠ "0") (h : ¬∃ terms, Spells text terms) :
    Reads text (.error (.invalid text))

theorem total_isAmount (terms : List Term) : IsAmount (total terms) :=
  (total_approximates terms).isAmount

theorem parse_of_isTooLong (h : Spells text terms) (hlong : IsTooLong terms) :
    parse text = .error .outOfRange := by
  rw [parse_of_spells h, ofBinary64?_of_le (total_isAmount terms) hlong]

theorem parse_of_lt (h : Spells text terms) {q : ℚ} (hq : (total terms).value? = some q)
    (hlt : q < 2 ^ 64) : ∃ d, parse text = .ok d ∧ IsNearest (q * 10 ^ 9) d.nanoseconds := by
  obtain ⟨d, hd, hnearest⟩ := ofBinary64?_of_lt (total_isAmount terms) hq hlt
  exact ⟨d, by rw [parse_of_spells h, hd], hnearest⟩

theorem ext_nanoseconds {a b : Duration} (h : a.nanoseconds = b.nanoseconds) : a = b := by
  cases a
  cases b
  exact congrArg Duration.mk h

theorem reads_parse (text : String) : Reads text (parse text) := by
  by_cases hzero : text = "0"
  · rw [hzero]
    exact .zero rfl
  · by_cases hspelled : ∃ terms, Spells text terms
    · obtain ⟨terms, h⟩ := hspelled
      by_cases hlong : IsTooLong terms
      · rw [parse_of_isTooLong h hlong]
        exact .tooLong h hlong
      · unfold IsTooLong at hlong
        push Not at hlong
        obtain ⟨q, hq, hlt⟩ := hlong
        obtain ⟨d, hd, hnearest⟩ := parse_of_lt h hq hlt
        rw [hd]
        exact .sum h hq hlt hnearest
    · rw [parse_of_not_spells hzero hspelled]
      exact .invalid hzero hspelled

theorem parse_eq_iff {outcome : Except DurationError Duration} :
    parse text = outcome ↔ Reads text outcome := by
  constructor
  · rintro rfl
    exact reads_parse text
  · rintro (hzero | ⟨h, hq, hlt, hnearest⟩ | ⟨h, hlong⟩ | ⟨hzero, h⟩)
    · rw [hzero]
      rfl
    · obtain ⟨found, hparse, hfound⟩ := parse_of_lt h hq hlt
      rw [hparse, ext_nanoseconds (hfound.unique hnearest)]
    · exact parse_of_isTooLong h hlong
    · exact parse_of_not_spells hzero h

theorem lt_limit_of_parse (h : parse text = .ok d) : d.nanoseconds < limit := by
  cases parse_eq_iff.mp h with
  | zero => exact (by decide : 0 < limit)
  | sum hspells =>
    rw [parse_of_spells hspells] at h
    split at h
    · next hd =>
      obtain rfl := Except.ok.inj h
      exact lt_limit_of_ofBinary64? hd
    · cases h

/-! ### What the exact sum tells -/

theorem unitError_eq : 2 ^ 64 * unitError = 4096 := by
  rw [unitError]
  norm_num

theorem leastStep_le : leastStep ≤ 2 ^ (-100 : ℤ) := by
  rw [leastStep]
  exact zpow_le_zpow_right₀ one_le_two (by rw [minExponent]; omega)

theorem steps_lt_one (hfew : (terms.length : ℚ) ≤ 2 ^ 52) :
    4098 * terms.length * leastStep < 1 := by
  have hpos := leastStep_pos
  calc 4098 * terms.length * leastStep ≤ 4098 * 2 ^ 52 * 2 ^ (-100 : ℤ) := by
        gcongr
        exact leastStep_le
    _ < 1 := by norm_num

/-- Rounding the sum of `n` terms costs less than `4096 * (n + 4)` seconds. -/
theorem exists_lt_of_written (h : written terms + 4096 * (terms.length + 4) ≤ 2 ^ 64) :
    ∃ q, (total terms).value? = some q ∧ q < 2 ^ 64 := by
  have hnonneg := written_nonneg terms
  have hreach : (2 : ℚ) ^ 64 ≤ reach := by
    rw [reach]
    exact pow_le_pow_right₀ one_le_two (by norm_num)
  have hsteps : 4098 * terms.length * leastStep < 1 := steps_lt_one (by linarith)
  refine (total_approximates terms).exists_lt hnonneg hreach (by positivity) ?_
  push_cast
  rw [mul_sub, mul_left_comm, unitError_eq]
  linarith

theorem isTooLong_of_written (hfew : terms.length + 4 ≤ 2 ^ 50)
    (h : 2 ^ 64 + 8192 * (terms.length + 4) ≤ written terms) : IsTooLong terms := by
  have hfew' : (terms.length : ℚ) + 4 ≤ 2 ^ 50 := by exact_mod_cast hfew
  have hsteps : 4098 * terms.length * leastStep < 1 := steps_lt_one (by linarith)
  have herror : 2 ^ 64 * ((terms.length + 3) * unitError) = 4096 * (terms.length + 3) := by
    rw [mul_left_comm, unitError_eq, mul_comm]
  have hquarter : 4 * ((terms.length + 3) * unitError) ≤ 1 := by linarith
  refine (total_approximates terms).ge (written_nonneg terms) (by push_cast; linarith) ?_
  push_cast
  generalize ((terms.length : ℚ) + 3) * unitError = error at herror hquarter ⊢
  -- half of what is written beyond the limit is enough
  calc 2 ^ 64 * (1 - error) + 4098 * terms.length * leastStep
      ≤ 2 ^ 64 * (1 - 2 * error) + 8192 * (terms.length + 4) * (1 / 2) := by linarith
    _ ≤ 2 ^ 64 * (1 - 2 * error) + 8192 * (terms.length + 4) * (1 - 2 * error) := by
        gcongr
        linarith
    _ = (2 ^ 64 + 8192 * (terms.length + 4)) * (1 - 2 * error) := by ring
    _ ≤ written terms * (1 - 2 * error) := by
        gcongr
        linarith

end Parse

end WorkloadTuning.Duration
