import WorkloadTuning.Proofs.Generation.Parameters
import WorkloadTuning.Proofs.Quantity.Units
import WorkloadTuning.Selection.Selector

/-! Whole numbers of a unit as quantities. What is written for a resource is a whole number of
thousandths, of mebibytes or of megabytes, and reading it gives that number back in the unit it was
written in. -/

namespace WorkloadTuning

/-! ### Whole numbers of a unit -/

/-- The thousandths in one unit that memory is tuned in. -/
def MemoryUnit.thousandths : MemoryUnit → Int
  | mebibytes => 1048576000
  | megabytes => 1000000000

namespace Quantity

/-- A suffix of so many thousandths, up to those of a mebibyte. -/
structure IsUnit (unit : String) (thousandths : Int) : Prop where
  ratio : suffixRatio? unit = some (thousandths, 1)
  small : thousandths ≤ 1048576000

theorem isUnit_milli : IsUnit "m" 1 :=
  ⟨rfl, by decide⟩

theorem isUnit_memory (unit : MemoryUnit) : IsUnit unit.suffix unit.thousandths := by
  cases unit with
  | mebibytes => exact ⟨rfl, by decide⟩
  | megabytes => exact ⟨rfl, by decide⟩

variable {n : Nat} {unit : String} {thousandths : Int}

/-- What is written as digits and a unit is read as that number of units. -/
theorem parse_whole (h : IsUnit unit thousandths) (hn : n ≤ 2147483647) :
    parse (toString n ++ unit) =
      .ok { text := toString n ++ unit, milli := n * thousandths } := by
  obtain ⟨hpos, -⟩ := ratio_bounds h.ratio
  have hlarge : n * thousandths ≤ 2147483647 * 1048576000 :=
    Int.mul_le_mul (by omega) h.small (Int.le_of_lt hpos) (by decide)
  have hnonneg : 0 ≤ n * thousandths := Int.mul_nonneg (by omega) (Int.le_of_lt hpos)
  exact parse_units (v := n) h.ratio (Int.mul_one _).symm (by omega)

/-! ### Reading memory back -/

theorem exactValue?_eq_some {q : Quantity} {unit : MemoryUnit} {value : Int} :
    q.exactValue? unit.suffix = some value ↔
      fitsInt128 q.milli = true ∧ fitsInt64 value = true ∧ value * unit.thousandths = q.milli := by
  rw [exactValue?_eq_some_iff (isUnit_memory unit).ratio, Int.mul_one]

/-- A mebibyte and a megabyte have 64000 thousandths in common. -/
theorem dvd_megabytes {i : Int} : 1048576000 ∣ i * 1000000000 ↔ 16384 ∣ i := by
  have hmega : i * 1000000000 = i * 15625 * 64000 := by
    rw [Int.mul_assoc]
    rfl
  rw [hmega, show (1048576000 : Int) = 16384 * 64000 from rfl,
    Int.mul_dvd_mul_iff_right (by decide)]
  constructor
  · intro h
    exact Int.dvd_of_dvd_mul_left_of_gcd_one h (by decide)
  · intro h
    exact Dvd.dvd.mul_right h 15625

/-- What is read in megabytes is no whole number of mebibytes. -/
theorem memoryIn_eq_megabytes {q : Quantity} {value : Int}
    (h : ContainerSelector.memoryIn q = .ok (value, .megabytes)) (hpos : 0 < value) :
    ¬ 16384 ∣ value := by
  unfold ContainerSelector.memoryIn at h
  split at h
  · cases h
  · next units hmebi hmega =>
    rw [show units = value from (Prod.mk.inj (Except.ok.inj h)).1] at hmega
    obtain ⟨hfits, hfits64, hmilli⟩ := exactValue?_eq_some.mp hmega
    intro hdvd
    simp only [MemoryUnit.thousandths] at hmilli
    have hmebibytes : q.milli / 1048576000 * 1048576000 = q.milli := by
      rw [← hmilli]
      exact Int.ediv_mul_cancel (dvd_megabytes.mpr hdvd)
    have hsmaller : fitsInt64 (q.milli / 1048576000) = true := by
      rw [fitsInt64_iff] at hfits64 ⊢
      omega
    have hexact : q.exactValue? MemoryUnit.mebibytes.suffix = some (q.milli / 1048576000) :=
      exactValue?_eq_some.mpr ⟨hfits, hsmaller, hmebibytes⟩
    rw [hmebi] at hexact
    cases hexact
  · split at h
    · cases h
    · cases h

/-- The nearest whole number of 32 bits, in the unit that the memory was read in, is read in that
unit again. -/
theorem memoryIn_whole {q : Quantity} {value : Int} {unit : MemoryUnit}
    (h : ContainerSelector.memoryIn q = .ok (value, unit)) (hpos : 0 < value) (text : String) :
    ContainerSelector.memoryIn ⟨text, (clampInt32 value).toInt * unit.thousandths⟩ =
      .ok ((clampInt32 value).toInt, unit) := by
  have hclamp := toInt_clampInt32 value
  generalize (clampInt32 value).toInt = whole at hclamp
  have hfits : fitsInt64 whole = true := by
    rw [fitsInt64_iff]
    omega
  have hexact : (⟨text, whole * unit.thousandths⟩ : Quantity).exactValue? unit.suffix =
      some whole := by
    refine exactValue?_eq_some.mpr ⟨?_, hfits, rfl⟩
    rw [fitsInt128_iff]
    cases unit <;> simp only [MemoryUnit.thousandths] <;> omega
  cases unit with
  | mebibytes => simp only [ContainerSelector.memoryIn, hexact]
  | megabytes =>
    have hmega := memoryIn_eq_megabytes h hpos
    have hmebi : (⟨text, whole * MemoryUnit.megabytes.thousandths⟩ : Quantity).exactValue?
        MemoryUnit.mebibytes.suffix = none := by
      rw [Option.eq_none_iff_forall_ne_some]
      intro units hunits
      obtain ⟨-, -, hwhole⟩ := exactValue?_eq_some.mp hunits
      have hdvd : 16384 ∣ whole := dvd_megabytes.mp (Dvd.intro_left units hwhole)
      omega
    simp only [ContainerSelector.memoryIn, hexact, hmebi]

end Quantity

end WorkloadTuning
