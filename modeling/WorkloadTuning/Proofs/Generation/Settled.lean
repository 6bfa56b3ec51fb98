import WorkloadTuning.Proofs.Generation.Parameters

/-! Settled fields: what a field is read as once its parameters have been set to their baselines.
Such a field has the value that it was tuned from, rounded to what a parameter can take, and asks for
the same names, parameters and patch as before. -/

namespace WorkloadTuning

/-! ### Replicas -/

namespace ReplicaField

def settled (f : ReplicaField) : ReplicaField :=
  { f with value := f.baseline?.or f.value }

theorem baseline?_settled (f : ReplicaField) : f.settled.baseline? = f.baseline? := by
  simp only [settled, baseline?]
  by_cases hpos : 0 < f.value.getD 1
  · simp [hpos]
  · simp [hpos]

end ReplicaField

/-! ### Containers -/

/-- The baseline that a parameter can take. -/
def ResourceBaseline.settled (b : ResourceBaseline) : ResourceBaseline :=
  { b with value := (clampInt32 b.value).toInt }

theorem clampInt32_toInt_clampInt32 (i : Int) : clampInt32 (clampInt32 i).toInt = clampInt32 i := by
  rw [← Int32.toInt_inj, toInt_clampInt32, toInt_clampInt32]
  omega

/-- Bounds that are widened to the nearest integer of 32 bits have the same ones nearest. -/
theorem Bounds.including_settled (b : Bounds) (value : Int) :
    clampInt32 (b.including (clampInt32 value).toInt).min = clampInt32 (b.including value).min ∧
      clampInt32 (b.including (clampInt32 value).toInt).max =
        clampInt32 (b.including value).max := by
  have hvalue := toInt_clampInt32 value
  simp only [including, ← Int32.toInt_inj, toInt_clampInt32, hvalue]
  omega

namespace ContainerField

def cpuBaseline? (f : ContainerField) : Option ResourceBaseline :=
  baselineOf? f.synthesized "cpu" "m" cpuBounds f.cpu

def memoryBaseline? (f : ContainerField) : Option ResourceBaseline :=
  baselineOf? f.synthesized "memory" f.unit.suffix memoryBounds f.memory

theorem baselines_eq (f : ContainerField) :
    f.baselines = f.cpuBaseline?.toList ++ f.memoryBaseline?.toList :=
  rfl

theorem baselineOf?_eq_some {synthesized : Bool} {suffix unit : String} {bounds : Bounds}
    {amount : Option Int} {b : ResourceBaseline}
    (h : baselineOf? synthesized suffix unit bounds amount = some b) :
    b.suffix = suffix ∧ b.unit = unit := by
  cases amount with
  | none =>
    cases synthesized with
    | false => cases h
    | true =>
      obtain rfl := Option.some.inj h
      exact ⟨rfl, rfl⟩
  | some value =>
    simp only [baselineOf?] at h
    split at h
    · obtain rfl := Option.some.inj h
      exact ⟨rfl, rfl⟩
    · cases h

/-- The baseline of the resource of that suffix. -/
def baselineFor? (f : ContainerField) (suffix : String) : Option ResourceBaseline :=
  f.baselines.find? fun b => b.suffix = suffix

variable (f : ContainerField)

theorem baselineFor?_cpu : f.baselineFor? "cpu" = f.cpuBaseline? := by
  rw [baselineFor?, baselines_eq]
  cases hcpu : f.cpuBaseline? with
  | some b => simp [(baselineOf?_eq_some hcpu).1]
  | none =>
    cases hmemory : f.memoryBaseline? with
    | none => rfl
    | some b => simp [(baselineOf?_eq_some hmemory).1]

theorem baselineFor?_memory : f.baselineFor? "memory" = f.memoryBaseline? := by
  rw [baselineFor?, baselines_eq]
  cases hcpu : f.cpuBaseline? with
  | some b =>
    cases hmemory : f.memoryBaseline? with
    | none => simp [(baselineOf?_eq_some hcpu).1]
    | some c => simp [(baselineOf?_eq_some hcpu).1, (baselineOf?_eq_some hmemory).1]
  | none =>
    cases hmemory : f.memoryBaseline? with
    | none => rfl
    | some c => simp [(baselineOf?_eq_some hmemory).1]

theorem suffixes_nodup : f.suffixes.Nodup := by
  rw [suffixes, baselines_eq, List.map_append]
  cases hcpu : f.cpuBaseline? with
  | none => cases f.memoryBaseline? <;> simp
  | some b =>
    cases hmemory : f.memoryBaseline? with
    | none => simp
    | some c => simp [(baselineOf?_eq_some hcpu).1, (baselineOf?_eq_some hmemory).1]

/-- The amount that is read once the baseline has been written; without one, the same as before. -/
def settledAmount (baseline : Option ResourceBaseline) (amount : Option Int) : Option Int :=
  (baseline.map fun b => b.settled.value).or amount

/-- A container that has been written declares what it is tuned by. -/
def settled (f : ContainerField) : ContainerField :=
  { f with
    cpu := settledAmount f.cpuBaseline? f.cpu
    memory := settledAmount f.memoryBaseline? f.memory
    synthesized := false }

theorem baselineOf?_settled (synthesized : Bool) (suffix unit : String) {bounds : Bounds}
    (hmin : 0 < bounds.min) (amount : Option Int) :
    baselineOf? false suffix unit bounds
        (settledAmount (baselineOf? synthesized suffix unit bounds amount) amount) =
      (baselineOf? synthesized suffix unit bounds amount).map ResourceBaseline.settled := by
  have hkept : ∀ value : Int, 0 < value → 0 < (clampInt32 value).toInt := by
    intro value hvalue
    rw [toInt_clampInt32]
    omega
  cases amount with
  | none =>
    cases synthesized with
    | false => simp [baselineOf?, settledAmount]
    | true => simp [baselineOf?, settledAmount, ResourceBaseline.settled, hkept _ hmin]
  | some value =>
    by_cases hpos : 0 < value
    · simp [baselineOf?, settledAmount, ResourceBaseline.settled, hpos, hkept _ hpos]
    · simp [baselineOf?, settledAmount, hpos]

theorem baselines_settled (f : ContainerField) :
    f.settled.baselines = f.baselines.map ResourceBaseline.settled := by
  have hcpu : f.settled.cpuBaseline? = f.cpuBaseline?.map ResourceBaseline.settled :=
    baselineOf?_settled f.synthesized "cpu" "m" (by decide) f.cpu
  have hmemory : f.settled.memoryBaseline? = f.memoryBaseline?.map ResourceBaseline.settled :=
    baselineOf?_settled f.synthesized "memory" f.unit.suffix (by decide) f.memory
  show f.settled.cpuBaseline?.toList ++ f.settled.memoryBaseline?.toList =
    (f.cpuBaseline?.toList ++ f.memoryBaseline?.toList).map ResourceBaseline.settled
  rw [hcpu, hmemory, List.map_append]
  cases f.cpuBaseline? <;> cases f.memoryBaseline? <;> rfl

end ContainerField

/-! ### Variables -/

namespace VariableField

def settled (f : VariableField) : VariableField :=
  { f with value := f.value.or f.values.head? }

theorem parameters_settled (f : VariableField) (namer : Namer) :
    f.settled.parameters namer = f.parameters namer := by
  obtain ⟨target, path, name, value, values⟩ := f
  cases values with
  | nil => rfl
  | cons first rest =>
    cases value with
    | some value => rfl
    | none => simp [parameters, settled, valuePath, suffix]

end VariableField

/-! ### All fields -/

namespace TunableField

def settled : TunableField → TunableField
  | replicas f => replicas f.settled
  | container f => container f.settled
  | envVar f => envVar f.settled

theorem target_settled (f : TunableField) : f.settled.target = f.target := by
  cases f <;> rfl

theorem path_settled (f : TunableField) : f.settled.path = f.path := by
  cases f <;> rfl

theorem suffixes_settled (f : TunableField) : f.settled.suffixes = f.suffixes := by
  cases f with
  | replicas f => simp only [settled, suffixes, ReplicaField.suffixes, f.baseline?_settled]
  | container f =>
    simp [settled, suffixes, ContainerField.suffixes, f.baselines_settled,
      ResourceBaseline.settled, Function.comp_def]
  | envVar f => rfl

theorem nameKeys_settled (f : TunableField) : f.settled.nameKeys = f.nameKeys := by
  rw [nameKeys, nameKeys, f.suffixes_settled, f.target_settled, f.path_settled]

theorem parameters_settled (f : TunableField) (namer : Namer) :
    f.settled.parameters namer = f.parameters namer := by
  cases f with
  | replicas f =>
    simp only [settled, parameters, ReplicaField.parameters, f.baseline?_settled]
    rfl
  | container f =>
    simp only [settled, parameters, ContainerField.parameters, f.baselines_settled, List.map_map]
    apply List.map_congr_left
    intro b _
    obtain ⟨hmin, hmax⟩ := b.bounds.including_settled b.value
    simp only [Function.comp_apply, ResourceBaseline.settled, hmin, hmax,
      clampInt32_toInt_clampInt32]
    rfl
  | envVar f => exact f.parameters_settled namer

theorem patch_settled (f : TunableField) (namer : Namer) :
    f.settled.patch namer = f.patch namer := by
  cases f with
  | replicas f =>
    simp only [settled, patch, ReplicaField.patch, f.baseline?_settled]
    rfl
  | container f =>
    have hvalues : f.settled.baselines.map (fun b => (b.suffix,
        Json.string (Template.placeholder (namer.name f.target f.path b.suffix) ++ b.unit))) =
      f.baselines.map (fun b => (b.suffix,
        Json.string (Template.placeholder (namer.name f.target f.path b.suffix) ++ b.unit))) := by
      rw [f.baselines_settled, List.map_map]
      rfl
    have hempty : f.settled.baselines.isEmpty = f.baselines.isEmpty := by
      rw [f.baselines_settled, List.isEmpty_map]
    simp only [settled, patch, ContainerField.patch, hempty]
    rw [show f.settled.target = f.target from rfl, show f.settled.path = f.path from rfl, hvalues]
  | envVar f => rfl

end TunableField

namespace Generator

variable (namer : Namer) (fields : List TunableField)

theorem nameKeys_map_settled : (fields.map TunableField.settled).flatMap TunableField.nameKeys =
    fields.flatMap TunableField.nameKeys := by
  rw [List.flatMap_map]
  exact List.flatMap_congr fun f _ => f.nameKeys_settled

theorem parametersOf_map_settled :
    parametersOf namer (fields.map TunableField.settled) = parametersOf namer fields := by
  have hsame : (fields.map TunableField.settled).flatMap (TunableField.parameters namer) =
      fields.flatMap (TunableField.parameters namer) := by
    rw [List.flatMap_map]
    exact List.flatMap_congr fun f _ => f.parameters_settled namer
  rw [parametersOf, parametersOf, hsame]

theorem patchesOf_map_settled :
    patchesOf namer (fields.map TunableField.settled) = patchesOf namer fields := by
  rw [patchesOf, patchesOf, List.foldlM_map]
  congr 1
  funext patches f
  rw [f.target_settled, f.patch_settled]

/-- Where all fields that are found are the settled ones, what is generated is the same. -/
theorem generate_of_settled [RegexEngine] {g : Generator} {set next : ResourceSet}
    {found : List TunableField} {generated : Generated} (hfields : g.fields set = .ok found)
    (hnext : g.fields next = .ok (found.map TunableField.settled))
    (h : g.generate set = .ok generated) : g.generate next = .ok generated := by
  rw [generate, hfields] at h
  rw [generate, hnext]
  simp only [Bind.bind, Except.bind] at h ⊢
  rw [nameKeys_map_settled, parametersOf_map_settled, patchesOf_map_settled]
  exact h

end Generator

end WorkloadTuning
