import WorkloadTuning.Proofs.Quantity.Units

/-! How far the arithmetic on quantities reaches. The products that are taken of a text's digits are
checked, and a text that makes them too large is refused as such. What rounds them up begins with a
sum that is not checked: it leaves 128 bits where the digits or the thousandths come close enough to
the limit, and nothing else does. -/

namespace WorkloadTuning.Quantity

variable {a b num den : Int} {text suffix : String} {w : Spelling} {q : Quantity}

/-! ### The integers on the way -/

/-- The integers that arise in rounding up `a / b`. -/
def roundingSteps (a b : Int) : List Int :=
  if 0 ≤ a then [a + b, a + b - 1, (a + b - 1) / b] else [a.tdiv b]

/-- The integers that arise between the digits of a text and its thousandths. -/
def Spelling.steps (w : Spelling) (num den : Int) : List Int :=
  let numerator := w.digits * num
  let denominator := w.scale * den
  let milli := (numerator + denominator - 1) / denominator
  [(w.digits : Int), w.scale, num, den, numerator, denominator] ++
    roundingSteps numerator denominator ++ [w.sign.value * milli]

/-- The integers that arise in looking for a whole number of units. -/
def unitSteps (q : Quantity) (num den : Int) : List Int :=
  [num, den, q.milli * den, q.milli * den % num, q.milli * den / num]

/-- Rounding up stays within 128 bits exactly if the sum before the division does. -/
theorem roundingSteps_fit_iff (ha : fitsInt128 a = true) (hb : 0 < b) :
    (∀ i ∈ roundingSteps a b, fitsInt128 i = true) ↔ (0 ≤ a → a + b < 2 ^ 127) := by
  rw [fitsInt128_iff] at ha
  unfold roundingSteps
  split
  · next hnonneg =>
    have hquotient : (a + b - 1) / b ≤ a + b - 1 := Int.ediv_le_self _ (by omega)
    have hpos : 0 ≤ (a + b - 1) / b := Int.ediv_nonneg (by omega) (by omega)
    simp only [List.forall_mem_cons, List.not_mem_nil, false_imp_iff, implies_true, and_true,
      fitsInt128_iff]
    omega
  · next hneg =>
    rw [Int.not_le] at hneg
    have hquotient : -a / b ≤ -a := Int.ediv_le_self _ (by omega)
    have hpos : 0 ≤ -a / b := Int.ediv_nonneg (by omega) (by omega)
    simp only [List.forall_mem_singleton, fitsInt128_iff, tdiv_of_nonpos b (Int.le_of_lt hneg)]
    omega

/-- Of a spelling whose rounding stays within 128 bits, all the arithmetic does. -/
theorem Spelling.steps_fit (hratio : suffixRatio? w.suffix = some (num, den))
    (h : w.digits * num + w.scale * den < 2 ^ 127) :
    ∀ i ∈ w.steps num den, fitsInt128 i = true := by
  obtain ⟨hnum, hnum', hden, hden'⟩ := ratio_bounds hratio
  have hdigits : (w.digits : Int) ≤ w.digits * num := le_mul_of_one_le_right (by omega) hnum
  have hscale : (w.scale : Int) ≤ w.scale * den := le_mul_of_one_le_right (by omega) hden
  have hpos : 0 < w.scale := Nat.pow_pos (by decide)
  have hrounding : ∀ i ∈ roundingSteps (w.digits * num) (w.scale * den), fitsInt128 i = true := by
    refine (roundingSteps_fit_iff ?_ (by omega)).mpr fun _ => h
    rw [fitsInt128_iff]
    omega
  have hmilli : fitsInt128 ((w.digits * num + w.scale * den - 1) / (w.scale * den)) = true := by
    apply hrounding
    rw [roundingSteps, if_pos (by omega)]
    simp
  have hnonneg : 0 ≤ (w.digits * num + w.scale * den - 1) / (w.scale * den) :=
    Int.ediv_nonneg (by omega) (by omega)
  simp only [steps, List.forall_mem_append, List.forall_mem_cons, List.not_mem_nil, false_imp_iff,
    implies_true, and_true]
  refine ⟨⟨?_, hrounding⟩, ?_⟩
  · simp only [fitsInt128_iff]
    omega
  · rw [fitsInt128_iff] at hmilli ⊢
    cases w.sign <;> simp only [Sign.value] <;> omega

/-- A whole number of units is looked for within 128 bits, once the product is in range. -/
theorem unitSteps_fit (hratio : suffixRatio? suffix = some (num, den))
    (h : fitsInt128 (q.milli * den) = true) : ∀ i ∈ unitSteps q num den, fitsInt128 i = true := by
  obtain ⟨hnum, hnum', hden, hden'⟩ := ratio_bounds hratio
  have hrest : 0 ≤ q.milli * den % num ∧ q.milli * den % num < num :=
    ⟨Int.emod_nonneg _ (by omega), Int.emod_lt_of_pos _ hnum⟩
  simp only [fitsInt128_iff] at h
  have hlow : -2 ^ 127 ≤ q.milli * den / num := Int.le_ediv_of_mul_le hnum (by omega)
  have hhigh : q.milli * den / num < 2 ^ 127 := Int.ediv_lt_of_lt_mul hnum (by omega)
  simp only [unitSteps, List.forall_mem_cons, List.not_mem_nil, false_imp_iff, implies_true,
    and_true, fitsInt128_iff]
  omega

/-! ### Reading a text -/

/-- The digits or the power of ten are too large for 128 bits, by themselves or in thousandths. -/
def Spelling.IsTooLarge (w : Spelling) : Prop :=
  2 ^ 127 ≤ w.digits ∨ 2 ^ 127 ≤ w.scale ∨ ∃ num den, suffixRatio? w.suffix = some (num, den) ∧
    (2 ^ 127 ≤ w.digits * num ∨ 2 ^ 127 ≤ w.scale * den)

/-- The products are in range, and the sum that rounds up is not. -/
def Spelling.LeavesRange (w : Spelling) : Prop :=
  ∃ num den, suffixRatio? w.suffix = some (num, den) ∧ w.digits * num < 2 ^ 127 ∧
    w.scale * den < 2 ^ 127 ∧ 2 ^ 127 ≤ w.digits * num + w.scale * den

theorem parse_of_isTooLarge (h : w.Spells text)
    (hhead : ∀ c ∈ w.suffix.toList.head?, isNumberChar c = false) (hlarge : w.IsTooLarge) :
    parse text = .error (.tooLarge text) := by
  have hparts : Parts.ofText (Text.trim text.toList) = w.parts := by
    rw [show Text.trim text.toList = w.toList from h]
    exact w.ofText_toList hhead
  rcases hlarge with hdigits | hscale | ⟨num, den, hratio, hproduct⟩
  · rw [parse_of_parts hparts, if_pos (.inl hdigits)]
  · rw [parse_of_parts hparts, if_pos (.inr hscale)]
  · obtain ⟨hnum, -, hden, -⟩ := ratio_bounds hratio
    have hdigits : 0 ≤ w.digits * num := by positivity
    have hscale : 0 ≤ w.scale * den := by positivity
    rw [parse_of_spells h hratio, if_neg (by omega), if_neg (by omega)]

/-- The sum that rounds up is all that leaves the range in reading a text. -/
theorem parse_outOfRange_iff :
    parse text = .error .outOfRange ↔ ∃ w : Spelling, w.Spells text ∧ w.LeavesRange := by
  constructor
  · intro h
    obtain ⟨w, num, den, hspells, hratio⟩ := exists_spelling_of_parse fun e he =>
      Except.error.inj (he.symm.trans h)
    rw [parse_of_spells hspells hratio] at h
    split_ifs at h with hsum hproducts
    · exact ⟨w, hspells, num, den, hratio, hproducts.1, hproducts.2, by omega⟩
    · cases h
  · rintro ⟨w, hspells, num, den, hratio, hdigits, hscale, hsum⟩
    rw [parse_of_spells hspells hratio, if_neg (by omega), if_pos ⟨hdigits, hscale⟩]

theorem exists_steps_of_parse (h : parse text = .ok q) :
    ∃ (w : Spelling) (num den : Int), w.Spells text ∧ suffixRatio? w.suffix = some (num, den) ∧
      (w.steps num den).getLast? = some q.milli ∧
      ∀ i ∈ w.steps num den, fitsInt128 i = true := by
  obtain ⟨w, num, den, hspells, hratio⟩ := exists_spelling_of_parse fun e he => by
    rw [h] at he
    cases he
  obtain ⟨-, -, hden, -⟩ := ratio_bounds hratio
  have hpos : 0 < w.scale := Nat.pow_pos (by decide)
  have hrounded := ceil_eq_ediv (a := w.digits * num) (b := w.scale * den) (by positivity)
  push_cast at hrounded
  rw [parse_of_spells hspells hratio, hrounded] at h
  split_ifs at h with hsum
  obtain rfl := Except.ok.inj h
  exact ⟨w, num, den, hspells, hratio, List.getLast?_concat, Spelling.steps_fit hratio hsum⟩

/-! ### Rounding a quantity, and counting its units -/

/-- A result of rounding up `a / b` to 64 bits. It is given exactly if the sum before the division
is in range, and then every step is. -/
structure RoundsInRange (a b : Int) (result : Option Int) : Prop where
  none_iff : result = none ↔ 2 ^ 127 ≤ a + b
  steps_fit : result.isSome → ∀ i ∈ roundingSteps a b, fitsInt128 i = true
  small : ∀ value ∈ result, fitsInt64 value = true

theorem ceilDiv?_roundsInRange (ha : fitsInt128 a = true) (hb : 0 < b) (hsmall : b < 2 ^ 127) :
    RoundsInRange a b ((ceilDiv? a b).map clampInt64) := by
  have hgiven : a + b < 2 ^ 127 → (ceilDiv? a b).isSome := fun hsum => by
    rw [ceilDiv?_eq_some hb hsum, Option.isSome_some]
  have hnone : 2 ^ 127 ≤ a + b → ceilDiv? a b = none := fun hsum =>
    ceilDiv?_eq_none (by omega) hsum
  constructor
  · rw [Option.map_eq_none_iff]
    refine ⟨fun h => ?_, hnone⟩
    by_contra hsum
    have hsome := hgiven (Int.not_le.mp hsum)
    rw [h] at hsome
    cases hsome
  · intro hsome
    rw [Option.isSome_map] at hsome
    refine (roundingSteps_fit_iff ha hb).mpr fun _ => ?_
    by_contra hsum
    rw [hnone (Int.not_lt.mp hsum)] at hsome
    cases hsome
  · intro value hvalue
    obtain ⟨i, -, rfl⟩ := Option.map_eq_some_iff.mp hvalue
    exact fitsInt64_clampInt64 i

/-- A result of counting the units of `num / den` thousandths. A product out of range is noticed,
and otherwise every step is in range. -/
structure CountsInRange (q : Quantity) (num den : Int) (result : Option Int) : Prop where
  none_of_large : fitsInt128 (q.milli * den) = false → result = none
  steps_fit : fitsInt128 (q.milli * den) = true → ∀ i ∈ q.unitSteps num den, fitsInt128 i = true
  small : ∀ units ∈ result, fitsInt64 units = true

theorem exactValue?_countsInRange (q : Quantity) (hratio : suffixRatio? suffix = some (num, den)) :
    CountsInRange q num den (q.exactValue? suffix) := by
  constructor
  · intro hlarge
    rw [Option.eq_none_iff_forall_ne_some]
    intro units h
    have hfits := ((exactValue?_eq_some_iff hratio).mp h).1
    rw [hlarge] at hfits
    cases hfits
  · exact unitSteps_fit hratio
  · exact fun units h => ((exactValue?_eq_some_iff hratio).mp h).2.1

/-- Reading a text stays within 128 bits unless the sum that rounds up leaves them, and what is too
large before is refused as such. What has been read stays in range in every further use, except that
rounding it to whole units or to units of `2 ^ 20` fails just below the limit. -/
theorem parse_stays_in_range (text : String) :
    (parse text = .error .outOfRange ↔ ∃ w : Spelling, w.Spells text ∧ w.LeavesRange) ∧
    (∀ w : Spelling, w.Spells text → (∀ c ∈ w.suffix.toList.head?, isNumberChar c = false) →
      w.IsTooLarge → parse text = .error (.tooLarge text)) ∧
    ∀ q, parse text = .ok q →
      (∃ (w : Spelling) (num den : Int), w.Spells text ∧ suffixRatio? w.suffix = some (num, den) ∧
        (w.steps num den).getLast? = some q.milli ∧
        ∀ i ∈ w.steps num den, fitsInt128 i = true) ∧
      fitsInt64 q.milliValue = true ∧ RoundsInRange q.milli 1000 q.value? ∧
      RoundsInRange q.milli (1000 * mebi) q.mebiValue? ∧
      ∀ suffix num den, suffixRatio? suffix = some (num, den) →
        CountsInRange q num den (q.exactValue? suffix) := by
  refine ⟨parse_outOfRange_iff, fun w h hhead hlarge => parse_of_isTooLarge h hhead hlarge, ?_⟩
  intro q h
  obtain ⟨w, num, den, hspells, hratio, hlast, hsteps⟩ := exists_steps_of_parse h
  have hmilli := hsteps q.milli (List.mem_of_getLast? hlast)
  exact ⟨⟨w, num, den, hspells, hratio, hlast, hsteps⟩, fitsInt64_clampInt64 _,
    ceilDiv?_roundsInRange hmilli (by decide) (by decide),
    ceilDiv?_roundsInRange hmilli (by decide) (by decide),
    fun suffix num den hratio => exactValue?_countsInRange q hratio⟩

/-- Two hundred million billion times `10 ^ 18` units are too large, and a quantity just below the
limit is read. -/
theorem large_stays_in_range :
    parse "200000000000000000E" = .error (.tooLarge "200000000000000000E") ∧
      ∃ q, parse "170141183460469231731687303715884105726m" = .ok q ∧ q.milli = 2 ^ 127 - 2 ∧
        fitsInt64 q.milliValue = true ∧ RoundsInRange q.milli 1000 q.value? := by
  constructor
  · apply (parse_stays_in_range _).2.1 (.ofInt 200000000000000000 "E")
    · decide
    · rintro c ⟨rfl⟩
      decide
    · exact .inr (.inr ⟨1000000000000000000000, 1, by decide, .inl (by decide)⟩)
  · have hparse : parse "170141183460469231731687303715884105726m" =
        .ok ⟨"170141183460469231731687303715884105726m", 2 ^ 127 - 2⟩ := by
      decide
    obtain ⟨-, hthousandths, hunits, -⟩ := (parse_stays_in_range _).2.2 _ hparse
    exact ⟨_, hparse, rfl, hthousandths, hunits⟩

/-- The largest number of thousandths in 128 bits cannot be read, and the next below it cannot be
rounded. -/
theorem limit_leaves_range :
    parse "170141183460469231731687303715884105727m" = .error .outOfRange ∧
      ∃ q, parse "170141183460469231731687303715884105726m" = .ok q ∧ q.value? = none ∧
        q.mebiValue? = none := by
  refine ⟨by decide, ⟨"170141183460469231731687303715884105726m", 2 ^ 127 - 2⟩, by decide, ?_, ?_⟩
  · decide
  · decide

end WorkloadTuning.Quantity
