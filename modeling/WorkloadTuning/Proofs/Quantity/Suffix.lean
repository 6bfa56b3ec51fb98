import Mathlib.Data.Rat.Defs
import Mathlib.Tactic.FieldSimp
import Mathlib.Tactic.NormNum
import Mathlib.Tactic.Ring
import WorkloadTuning.Proofs.Text.Digits
import WorkloadTuning.Quantity

/-! Suffixes of quantities. A suffix is known if it is one of the letters for powers of a thousand
or of 1024, or a power of ten of its own; no known suffix can be taken for digits, a point or blanks
beside it. -/

namespace WorkloadTuning.Quantity

/-- The suffixes that are letters, with their thousandths as numerator and denominator. -/
def letterRatios : List (String × Int × Int) :=
  [("n", 1, 10 ^ 6), ("u", 1, 10 ^ 3), ("m", 1, 1), ("", 10 ^ 3, 1), ("k", 10 ^ 6, 1),
    ("M", 10 ^ 9, 1), ("G", 10 ^ 12, 1), ("T", 10 ^ 15, 1), ("P", 10 ^ 18, 1), ("E", 10 ^ 21, 1),
    ("Ki", 1000 * 2 ^ 10, 1), ("Mi", 1000 * 2 ^ 20, 1), ("Gi", 1000 * 2 ^ 30, 1),
    ("Ti", 1000 * 2 ^ 40, 1), ("Pi", 1000 * 2 ^ 50, 1), ("Ei", 1000 * 2 ^ 60, 1)]

variable {suffix : String} {num den : Int}

theorem exponentRatio?_eq_some {exponent : List Char}
    (h : exponentRatio? exponent = some (num, den)) :
    ∃ e : Int, Text.readInt? exponent = some e ∧ e.natAbs ≤ 18 ∧
      (num, den) = if 0 ≤ e then (1000 * 10 ^ e.natAbs, 1) else (1000, 10 ^ e.natAbs) := by
  obtain ⟨e, he, h⟩ := Option.bind_eq_some_iff.mp h
  refine ⟨e, he, ?_⟩
  by_cases hlarge : 18 < e.natAbs
  · simp [hlarge] at h
  · have hvalue : (tenTo e.natAbs : Int) = 10 ^ e.natAbs := by
      simp [tenTo]
    simp only [hlarge, if_false, hvalue] at h
    refine ⟨by omega, (Option.some.inj h).symm⟩

theorem suffixRatio?_eq_some (h : suffixRatio? suffix = some (num, den)) :
    (suffix, num, den) ∈ letterRatios ∨ ∃ mark exponent, (mark = 'e' ∨ mark = 'E') ∧
      suffix.toList = mark :: exponent ∧ exponentRatio? exponent = some (num, den) := by
  unfold suffixRatio? at h
  split at h
  all_goals try
    obtain ⟨rfl, rfl⟩ := Prod.mk.inj (Option.some.inj h)
    exact .inl (by decide)
  split at h
  · next exponent hlist => exact .inr ⟨'e', exponent, .inl rfl, hlist, h⟩
  · next exponent hlist => exact .inr ⟨'E', exponent, .inr rfl, hlist, h⟩
  · cases h

theorem ratio_bounds (h : suffixRatio? suffix = some (num, den)) :
    0 < num ∧ num ≤ 2 ^ 70 ∧ 0 < den ∧ den ≤ 2 ^ 60 := by
  rcases suffixRatio?_eq_some h with hletter | ⟨mark, exponent, -, -, hexponent⟩
  · have hall : ∀ e ∈ letterRatios, 0 < e.2.1 ∧ e.2.1 ≤ 2 ^ 70 ∧ 0 < e.2.2 ∧ e.2.2 ≤ 2 ^ 60 := by
      decide
    exact hall _ hletter
  · obtain ⟨e, -, hsmall, hratio⟩ := exponentRatio?_eq_some hexponent
    have hpos : (0 : Int) < 10 ^ e.natAbs := by positivity
    have hle : (10 : Int) ^ e.natAbs ≤ 10 ^ 18 := pow_le_pow_right₀ (by decide) hsmall
    split at hratio
    all_goals
      obtain ⟨rfl, rfl⟩ := Prod.mk.inj hratio
      omega

/-- A known suffix does not continue the number in front of it. -/
theorem isNumberChar_head (h : suffixRatio? suffix = some (num, den)) :
    ∀ c ∈ suffix.toList.head?, isNumberChar c = false := by
  rcases suffixRatio?_eq_some h with hletter | ⟨mark, exponent, hmark, hlist, -⟩
  · have hall : ∀ e ∈ letterRatios, e.1.toList.head?.any isNumberChar = false := by decide
    exact (Option.any_eq_false _ _).mp (hall _ hletter)
  · rw [hlist]
    rintro c ⟨rfl⟩
    rcases hmark with rfl | rfl <;> decide

/-- A known suffix does not end in a blank. -/
theorem isBlank_last (h : suffixRatio? suffix = some (num, den)) :
    ∀ c ∈ suffix.toList.getLast?, Text.isBlank c = false := by
  rcases suffixRatio?_eq_some h with hletter | ⟨mark, exponent, -, hlist, hexponent⟩
  · have hall : ∀ e ∈ letterRatios, e.1.toList.getLast?.any Text.isBlank = false := by decide
    exact (Option.any_eq_false _ _).mp (hall _ hletter)
  · obtain ⟨e, he, -⟩ := exponentRatio?_eq_some hexponent
    obtain ⟨sign, digits, rfl, hdigits⟩ := Text.exists_digits_of_readInt? he
    intro c hc
    rw [hlist, ← List.cons_append, List.getLast?_append_of_ne_nil _ hdigits.ne_nil] at hc
    exact Text.isBlank_of_isDigit (hdigits.digits c (List.mem_of_getLast? hc))

/-! ### What a unit is worth -/

/-- The letters of the powers of a thousand. -/
def decimalPowers : List (String × ℤ) :=
  [("n", -3), ("u", -2), ("m", -1), ("", 0), ("k", 1), ("M", 2), ("G", 3), ("T", 4), ("P", 5),
    ("E", 6)]

/-- The letters of the powers of 1024. -/
def binaryPowers : List (String × ℤ) :=
  [("Ki", 1), ("Mi", 2), ("Gi", 3), ("Ti", 4), ("Pi", 5), ("Ei", 6)]

/-- What one unit of the suffix is worth. -/
inductive IsWorth : String → ℚ → Prop where
  | decimal {letters : String} {power : ℤ} :
    (letters, power) ∈ decimalPowers → IsWorth letters (1000 ^ power)
  | binary {letters : String} {power : ℤ} :
    (letters, power) ∈ binaryPowers → IsWorth letters (1024 ^ power)
  | exponent {suffix : String} {mark : Char} {digits : List Char} {e : ℤ} :
    suffix.toList = mark :: digits → mark = 'e' ∨ mark = 'E' → Text.readInt? digits = some e →
      e.natAbs ≤ 18 → IsWorth suffix (10 ^ e)

/-- The ratio of a known suffix is what its unit is worth. -/
theorem isWorth_of_ratio (h : suffixRatio? suffix = some (num, den)) :
    IsWorth suffix (num / den / 1000) := by
  rcases suffixRatio?_eq_some h with hletter | ⟨mark, digits, hmark, hlist, hexponent⟩
  · have hall : ∀ e ∈ letterRatios,
        (∃ p ∈ decimalPowers, p.1 = e.1 ∧ (e.2.1 / e.2.2 / 1000 : ℚ) = 1000 ^ p.2) ∨
          ∃ p ∈ binaryPowers, p.1 = e.1 ∧ (e.2.1 / e.2.2 / 1000 : ℚ) = 1024 ^ p.2 := by
      decide +kernel
    rcases hall _ hletter with ⟨p, hp, rfl, hworth⟩ | ⟨p, hp, rfl, hworth⟩
    · exact hworth ▸ .decimal hp
    · exact hworth ▸ .binary hp
  · obtain ⟨e, he, hsmall, hratio⟩ := exponentRatio?_eq_some hexponent
    have hworth : (num / den / 1000 : ℚ) = 10 ^ e := by
      split at hratio
      · next hpos =>
        obtain ⟨rfl, rfl⟩ := Prod.mk.inj hratio
        rw [show (10 : ℚ) ^ e = 10 ^ e.natAbs by
          rw [← zpow_natCast, Int.natAbs_of_nonneg hpos]]
        push_cast
        ring
      · next hneg =>
        obtain ⟨rfl, rfl⟩ := Prod.mk.inj hratio
        rw [show (10 : ℚ) ^ e = (10 ^ e.natAbs)⁻¹ by
          rw [← zpow_natCast, ← zpow_neg, Int.ofNat_natAbs_of_nonpos (by omega), neg_neg]]
        push_cast
        field_simp
    exact hworth ▸ .exponent hlist hmark he hsmall

theorem isSome_ratio_of_isWorth {worth : ℚ} (h : IsWorth suffix worth) :
    (suffixRatio? suffix).isSome := by
  cases h with
  | decimal hmem =>
    have hall : ∀ p ∈ decimalPowers, (suffixRatio? p.1).isSome := by decide
    exact hall _ hmem
  | binary hmem =>
    have hall : ∀ p ∈ binaryPowers, (suffixRatio? p.1).isSome := by decide
    exact hall _ hmem
  | @exponent mark digits e hlist hmark he hsmall =>
    have hratio : (exponentRatio? digits).isSome := by
      have hsmall' : ¬ 18 < e.natAbs := by omega
      simp [exponentRatio?, he, hsmall']
    unfold suffixRatio?
    split
    all_goals try rfl
    rcases hmark with rfl | rfl
    · simp only [hlist, hratio]
    · simp only [hlist, hratio]

end WorkloadTuning.Quantity
