import WorkloadTuning.Proofs.Selection.Rereading

/-! The amounts of a container in whole units. The cpu is read exactly. The memory is rounded up to
mebibytes at most, and not at all where it is a whole number of mebibytes or of megabytes. -/

namespace WorkloadTuning

namespace Quantity

variable {q : Quantity}

/-- The text of so many thousandths is read as the quantity again. -/
def IsCpu (q : Quantity) (amount : Int) : Prop :=
  ∃ r, parse (toString amount ++ "m") = .ok r ∧ r.same q = true

/-- The number of mebibytes, rounded up, has a place in 64 bits, and so has that of megabytes if it
is a whole one. -/
structure FitsUnits (q : Quantity) : Prop where
  mebibytes : fitsInt64 ⌈(q.milli / 1048576000 : ℚ)⌉ = true
  megabytes : ∀ units, units * MemoryUnit.megabytes.thousandths = q.milli → fitsInt64 units = true

/-- The amount that the text of a number of units is read as provides the quantity. There is less
than a mebibyte to spare, and nothing if the quantity is a whole number of a unit of memory. -/
def IsProvidedBy (q : Quantity) (amount : Int × MemoryUnit) : Prop :=
  ∃ r, parse (toString amount.1 ++ amount.2.suffix) = .ok r ∧ q.milli ≤ r.milli ∧
    r.milli < q.milli + MemoryUnit.mebibytes.thousandths ∧
    ((∃ unit : MemoryUnit, unit.thousandths ∣ q.milli) → r.same q = true)

theorem ceil_mebibytes (q : Quantity) :
    ⌈(q.milli / 1048576000 : ℚ)⌉ = (q.milli + 1048576000 - 1) / 1048576000 := by
  have hceil := ceil_eq_ediv (a := q.milli) (b := 1048576000) (by decide)
  exact_mod_cast hceil

theorem FitsUnits.bounds (h : q.FitsUnits) :
    -2 ^ 63 ≤ (q.milli + 1048576000 - 1) / 1048576000 ∧
      (q.milli + 1048576000 - 1) / 1048576000 < 2 ^ 63 := by
  rw [← fitsInt64_iff, ← ceil_mebibytes]
  exact h.mebibytes

theorem fitsUnits_of_fitsInt64 (h : fitsInt64 q.milli = true) : q.FitsUnits := by
  rw [fitsInt64_iff] at h
  constructor
  · rw [ceil_mebibytes, fitsInt64_iff]
    omega
  · intro units hunits
    simp only [MemoryUnit.thousandths] at hunits
    rw [fitsInt64_iff]
    omega

theorem isCpu_milliValue (h : fitsInt64 q.milli = true) : q.IsCpu q.milliValue := by
  rw [IsCpu, milliValue, clampInt64_eq_self h]
  rw [fitsInt64_iff] at h
  have hparse := parse_units (v := q.milli) isUnit_milli.ratio rfl (by omega)
  exact ⟨_, hparse, beq_self_eq_true _⟩

theorem mebiValue?_eq_some (h : q.FitsUnits) :
    q.mebiValue? = some ((q.milli + 1048576000 - 1) / 1048576000) := by
  have hbounds := h.bounds
  have hrounded := ceilDiv?_eq_some (a := q.milli) (b := 1048576000) (by decide) (by omega)
  rw [ceil_eq_ediv (by decide)] at hrounded
  rw [mebiValue?, show 1000 * mebi = 1048576000 from rfl, hrounded, Option.map_some,
    clampInt64_eq_self (fitsInt64_iff.mpr hbounds)]

/-- What is a whole number of a unit is given in that unit. -/
theorem exactValue?_of_dvd (h : q.FitsUnits) {unit : MemoryUnit}
    (hdvd : unit.thousandths ∣ q.milli) : (q.exactValue? unit.suffix).isSome := by
  have hbounds := h.bounds
  have hunits := Int.ediv_mul_cancel hdvd
  have hfits : fitsInt128 q.milli = true := by
    rw [fitsInt128_iff]
    omega
  have hsmall : fitsInt64 (q.milli / unit.thousandths) = true := by
    cases unit with
    | mebibytes =>
      simp only [MemoryUnit.thousandths] at hunits ⊢
      rw [fitsInt64_iff]
      omega
    | megabytes => exact h.megabytes _ hunits
  rw [exactValue?_eq_some.mpr ⟨hfits, hsmall, hunits⟩]
  rfl

/-- A whole number of units that is large enough, and not by a mebibyte, provides the quantity. -/
theorem isProvidedBy_of_bounds (h : q.FitsUnits) {amount : Int × MemoryUnit}
    (henough : q.milli ≤ amount.1 * amount.2.thousandths)
    (hclose : amount.1 * amount.2.thousandths < q.milli + MemoryUnit.mebibytes.thousandths)
    (hexact : (∃ unit : MemoryUnit, unit.thousandths ∣ q.milli) →
      amount.1 * amount.2.thousandths = q.milli) :
    q.IsProvidedBy amount := by
  have hbounds := h.bounds
  have hmebibyte : MemoryUnit.mebibytes.thousandths = 1048576000 := rfl
  have hparse : parse (toString amount.1 ++ amount.2.suffix) =
      .ok ⟨_, amount.1 * amount.2.thousandths⟩ :=
    parse_units (isUnit_memory amount.2).ratio (Int.mul_one _).symm (by omega)
  exact ⟨_, hparse, henough, hclose, fun hunit => beq_iff_eq.mpr (hexact hunit)⟩

/-- Memory is read in a unit in which it is provided. -/
theorem memoryIn_provides (h : q.FitsUnits) :
    ∃ amount, ContainerSelector.memoryIn q = .ok amount ∧ q.IsProvidedBy amount := by
  have hexact : ∀ unit value, q.exactValue? unit.suffix = some value →
      q.IsProvidedBy (value, unit) := by
    intro unit value hvalue
    obtain ⟨-, -, hmilli⟩ := exactValue?_eq_some.mp hvalue
    apply isProvidedBy_of_bounds h
    · exact Int.le_of_eq hmilli.symm
    · rw [hmilli, show MemoryUnit.mebibytes.thousandths = 1048576000 from rfl]
      omega
    · exact fun _ => hmilli
  unfold ContainerSelector.memoryIn
  split
  · next value hmebi => exact ⟨_, rfl, hexact .mebibytes value hmebi⟩
  · next value _ hmega => exact ⟨_, rfl, hexact .megabytes value hmega⟩
  · next hmebi hmega =>
    rw [mebiValue?_eq_some h]
    refine ⟨_, rfl, isProvidedBy_of_bounds h ?_ ?_ ?_⟩
    · simp only [MemoryUnit.thousandths]
      omega
    · simp only [MemoryUnit.thousandths]
      omega
    · -- No whole number of a unit is left over.
      rintro ⟨unit, hdvd⟩
      have hsome := exactValue?_of_dvd h hdvd
      cases unit with
      | mebibytes =>
        rw [hmebi] at hsome
        cases hsome
      | megabytes =>
        rw [hmega] at hsome
        cases hsome

end Quantity

namespace ContainerSelector

variable {s : ContainerSelector} {target : ObjectReference} {path : FieldPath} {container : Json}
  {cpu memory : Option Quantity}

/-- What a container declares, in amounts that have a place in 64 bits. -/
structure Declares (container : Json) (cpu memory : Option Quantity) : Prop where
  reads_cpu : readDeclared container "cpu" = .ok cpu
  reads_memory : readDeclared container "memory" = .ok memory
  cpu_fits : ∀ q ∈ cpu, fitsInt64 q.milli = true
  memory_fits : ∀ q ∈ memory, q.FitsUnits

/-- The field of a container that declares these amounts, unless it declares none. -/
structure IsMeasured (s : ContainerSelector) (target : ObjectReference) (path : FieldPath)
    (cpu memory : Option Quantity) (field? : Option ContainerField) : Prop where
  none_iff : field? = none ↔ cpu = none ∧ memory = none ∧ s.create = false
  place : ∀ f ∈ field?, f.target = target ∧ f.path = path
  cpu_exact : ∀ f ∈ field?, Option.Rel Quantity.IsCpu cpu f.cpu
  memory_provided : ∀ f ∈ field?,
    Option.Rel (fun q amount => q.IsProvidedBy (amount, f.unit)) memory f.memory

theorem cpuOf_of_declares (h : Declares container cpu memory) :
    ∃ amount, cpuOf container = .ok amount ∧ Option.Rel Quantity.IsCpu cpu amount := by
  refine ⟨_, by rw [cpuOf, h.reads_cpu]; rfl, ?_⟩
  cases cpu with
  | none => exact .none
  | some q => exact .some (Quantity.isCpu_milliValue (h.cpu_fits q rfl))

theorem memoryOf_of_declares (h : Declares container cpu memory) :
    ∃ amount, memoryOf container = .ok amount ∧ Option.Rel Quantity.IsProvidedBy memory amount := by
  cases memory with
  | none => exact ⟨none, by rw [memoryOf, h.reads_memory]; rfl, .none⟩
  | some q =>
    obtain ⟨amount, hread, hprovided⟩ := Quantity.memoryIn_provides (h.memory_fits q rfl)
    refine ⟨some amount, ?_, .some hprovided⟩
    rw [memoryOf, h.reads_memory]
    show (memoryIn q).map some = _
    rw [hread]
    rfl

/-- A container that declares amounts of 64 bits is read, and measured. -/
theorem fieldAt_of_declares (s : ContainerSelector) (target : ObjectReference) (path : FieldPath)
    (h : Declares container cpu memory) :
    ∃ field?, s.fieldAt target path container = .ok field? ∧
      s.IsMeasured target path cpu memory field? := by
  obtain ⟨cpuAmount, hcpu, hcpuRel⟩ := cpuOf_of_declares h
  obtain ⟨memoryAmount, hmemory, hmemoryRel⟩ := memoryOf_of_declares h
  refine ⟨_, fieldAt_eq_ok.mpr ⟨cpuAmount, memoryAmount, hcpu, hmemory, rfl⟩, ?_⟩
  have hfield : ∀ f ∈ s.fieldOf target path cpuAmount memoryAmount, f =
      { target, path, cpu := cpuAmount, memory := memoryAmount.map Prod.fst
        unit := (memoryAmount.map Prod.snd).getD .mebibytes
        synthesized := cpuAmount.isNone && memoryAmount.isNone } := by
    intro f hf
    unfold fieldOf at hf
    split at hf
    · cases hf
    · exact (Option.some.inj hf).symm
  have hcpuNone : cpuAmount = none ↔ cpu = none := by cases hcpuRel <;> simp
  have hmemoryNone : memoryAmount = none ↔ memory = none := by cases hmemoryRel <;> simp
  constructor
  · rw [fieldOf, ← hcpuNone, ← hmemoryNone]
    simp [and_assoc]
  · intro f hf
    rw [hfield f hf]
    exact ⟨rfl, rfl⟩
  · intro f hf
    rw [hfield f hf]
    exact hcpuRel
  · intro f hf
    rw [hfield f hf]
    cases hmemoryRel with
    | none => exact .none
    | some hprovided => exact .some hprovided

/-- The places of the containers in a resource, with what is found there. -/
def IsPlaces (s : ContainerSelector) (r : Resource)
    (places : List (FieldPath × Option Json)) : Prop :=
  ∃ path, FieldPath.parse s.path = .ok path ∧ (path.push .wildcard).expand r.tree = .ok places

theorem fields_eq_ok_iff {r : Resource} {found : List ContainerField} :
    s.fields r = .ok found ↔ ∃ places, s.IsPlaces r places ∧
      ∃ fields : List (Option ContainerField), List.Forall₂ (fun place field? =>
        s.fieldAt r.target place.1 (place.2.getD .null) = .ok field?) places fields ∧
      found = fields.filterMap id := by
  rw [fields, bind_eq_ok]
  constructor
  · rintro ⟨path, hpath, h⟩
    obtain ⟨places, hplaces, h⟩ := bind_eq_ok.mp h
    obtain ⟨fields, hfields, h⟩ := bind_eq_ok.mp h
    exact ⟨places, ⟨path, mapError_eq_ok.mp hpath, mapError_eq_ok.mp hplaces⟩, fields,
      mapM_eq_ok.mp hfields, (Except.ok.inj h).symm⟩
  · rintro ⟨places, ⟨path, hpath, hplaces⟩, fields, hfields, rfl⟩
    exact ⟨path, mapError_eq_ok.mpr hpath, bind_eq_ok.mpr ⟨places, mapError_eq_ok.mpr hplaces,
      bind_eq_ok.mpr ⟨fields, mapM_eq_ok.mpr hfields, rfl⟩⟩⟩

/-- Numbers of units are exact, and the amounts that are read of containers are never less than
what the containers declare. The cpu is the same, the memory is more by less than a mebibyte, and
the same if it is a whole number of mebibytes or of megabytes. -/
theorem fields_provide :
    (∀ (q : Quantity) suffix num den, Quantity.suffixRatio? suffix = some (num, den) →
      (fitsInt128 (q.milli * den) = true → ∀ v, q.exactValue? suffix = some v ↔
        fitsInt64 v = true ∧ (v * (num / den) : ℚ) = q.milli) ∧
      ((q.milli.natAbs + 1) * den < 2 ^ 127 → ∀ v, q.exactValue? suffix = some v →
        ∃ r, Quantity.parse (toString v ++ suffix) = .ok r ∧ r.same q = true)) ∧
    (∀ (s : ContainerSelector) r found, s.fields r = .ok found →
      ∃ places, s.IsPlaces r places ∧ ∃ fields : List (Option ContainerField),
        List.Forall₂ (fun place field? => ∀ cpu memory, Declares (place.2.getD .null) cpu memory →
          s.IsMeasured r.target place.1 cpu memory field?) places fields ∧
        found = fields.filterMap id) ∧
    (∀ (s : ContainerSelector) r places, s.IsPlaces r places →
      (∀ place ∈ places, ∃ cpu memory, Declares (place.2.getD .null) cpu memory) →
        ∃ found, s.fields r = .ok found) := by
  refine ⟨?_, ?_, ?_⟩
  · intro q suffix num den hratio
    refine ⟨fun hfits v => Quantity.exactValue?_iff hratio hfits, fun hbound v hv => ?_⟩
    exact ⟨_, Quantity.parse_exactValue hratio hbound hv, beq_self_eq_true _⟩
  · intro s r found h
    obtain ⟨places, hplaces, fields, hfields, rfl⟩ := fields_eq_ok_iff.mp h
    refine ⟨places, hplaces, fields, hfields.imp ?_, rfl⟩
    intro place field? hfield cpu memory hdeclares
    obtain ⟨_, hread, hmeasured⟩ := fieldAt_of_declares s r.target place.1 hdeclares
    obtain rfl := Except.ok.inj (hread.symm.trans hfield)
    exact hmeasured
  · intro s r places hplaces hall
    have hread : ∀ place ∈ places, ∃ field?,
        s.fieldAt r.target place.1 (place.2.getD .null) = .ok field? := by
      intro place hmem
      obtain ⟨cpu, memory, hdeclares⟩ := hall place hmem
      obtain ⟨field?, hfield, -⟩ := fieldAt_of_declares s r.target place.1 hdeclares
      exact ⟨field?, hfield⟩
    obtain ⟨fields, hfields⟩ := mapM_isOk_iff.mpr hread
    exact ⟨_, fields_eq_ok_iff.mpr ⟨places, hplaces, fields, mapM_eq_ok.mp hfields, rfl⟩⟩

/-- A pod of two containers. The memory of the first is a whole number of megabytes, that of the
second is a whole number of neither unit. -/
def meteredPod : Resource where
  target := { apiVersion := "v1", kind := "Pod", name := "metered" }
  tree := .object [("spec", .object [("containers", .array [
    .object [
      ("name", .string "app"),
      ("resources", .object [("limits", .object [
        ("cpu", .string "1.5"), ("memory", .string "1G")])])],
    .object [
      ("name", .string "proxy"),
      ("resources", .object [("requests", .object [("memory", .string "100500k")])])]])])]

def podSelector : ContainerSelector where
  path := "/spec/containers"

def podPlaces : List (FieldPath × Option Json) :=
  [(⟨[.field "spec", .field "containers", .element "name" "app"]⟩,
      some (.object [
        ("name", .string "app"),
        ("resources", .object [("limits", .object [
          ("cpu", .string "1.5"), ("memory", .string "1G")])])])),
    (⟨[.field "spec", .field "containers", .element "name" "proxy"]⟩,
      some (.object [
        ("name", .string "proxy"),
        ("resources", .object [("requests", .object [("memory", .string "100500k")])])]))]

theorem podPlaces_isPlaces : podSelector.IsPlaces meteredPod podPlaces :=
  ⟨⟨[.field "spec", .field "containers"]⟩, by decide +kernel, by decide +kernel⟩

theorem pod_declares : ∀ place ∈ podPlaces, ∃ cpu memory,
    Declares (place.2.getD .null) cpu memory := by
  have hfits : ∀ {memory : Option Quantity}, (∀ q ∈ memory, fitsInt64 q.milli = true) →
      ∀ q ∈ memory, q.FitsUnits := fun h q hq => Quantity.fitsUnits_of_fitsInt64 (h q hq)
  intro place hplace
  rcases List.mem_pair.mp hplace with rfl | rfl
  · exact ⟨some ⟨"1.5", 1500⟩, some ⟨"1G", 1000000000000⟩, by decide +kernel, by decide +kernel,
      by decide, hfits (by decide)⟩
  · exact ⟨none, some ⟨"100500k", 100500000000⟩, by decide +kernel, by decide +kernel,
      by decide, hfits (by decide)⟩

theorem podFields_provide :
    (∃ r, Quantity.parse (toString (-1500000 : Int) ++ "u") = .ok r ∧
      r.same ⟨"-1.5", -1500⟩ = true) ∧
    ∃ found, podSelector.fields meteredPod = .ok found ∧
      ∃ places, podSelector.IsPlaces meteredPod places ∧ ∃ fields : List (Option ContainerField),
        List.Forall₂ (fun place field? => ∀ cpu memory, Declares (place.2.getD .null) cpu memory →
          podSelector.IsMeasured meteredPod.target place.1 cpu memory field?) places fields ∧
        found = fields.filterMap id := by
  constructor
  · have hexact := fields_provide.1 ⟨"-1.5", -1500⟩ "u" 1 1000 rfl
    exact hexact.2 (by decide) _ ((hexact.1 (by decide) _).mpr ⟨by decide, by norm_num⟩)
  · obtain ⟨found, hfound⟩ := fields_provide.2.2 _ _ _ podPlaces_isPlaces pod_declares
    exact ⟨found, hfound, fields_provide.2.1 _ _ _ hfound⟩

example : podSelector.fields meteredPod = .ok [
    { target := meteredPod.target
      path := ⟨[.field "spec", .field "containers", .element "name" "app"]⟩
      cpu := some 1500, memory := some 1000, unit := .megabytes, synthesized := false },
    { target := meteredPod.target
      path := ⟨[.field "spec", .field "containers", .element "name" "proxy"]⟩
      cpu := none, memory := some 96, unit := .mebibytes, synthesized := false }] := by
  decide +kernel

end ContainerSelector

end WorkloadTuning
