import WorkloadTuning.Proofs.Generation.Patches
import WorkloadTuning.Proofs.Trial.Rendering
import WorkloadTuning.Service.Experiment

/-! Generated experiments are accepted by all that work with them later: the service's definition,
its check against the experiment, and the rendering of the patches for a trial. -/

namespace WorkloadTuning

open Template (IsGenerated IsLiteral)

/-- What is promised of the experiment of that name. -/
structure Generated.IsAccepted (generated : Generated) (name : String) : Prop where
  names_nodup : (generated.parameters.map Parameter.name).Nodup
  names_plain : ∀ p ∈ generated.parameters, IsPlainName p.name
  sound : ∀ p ∈ generated.parameters, p.IsSound
  targets_nodup : (generated.patches.map PatchTemplate.target).Nodup
  /-- Templates refer to parameters of the experiment only. -/
  references : ∀ t ∈ generated.patches, ∃ names, Template.references t.patch = .ok names ∧
    names ⊆ generated.parameters.map Parameter.name
  /-- The baseline trial assigns each parameter its baseline, and the definition that is sent to the
  service agrees with the experiment. -/
  submitted : ∃ submission, (generated.experiment name).submission = .ok submission ∧
    (generated.experiment name).checkDefinition submission.definition = .ok () ∧
    (generated.parameters ≠ [] → ∃ baseline, submission.baseline = some baseline ∧
      List.Forall₂ (fun p (a : Service.Assignment) => a.parameterName = p.name ∧
          p.baseline.map NumberOrString.ofIntOrString = some a.value)
        generated.parameters baseline.assignments)
  renders : ∀ trial : Trial,
    (∀ p ∈ generated.parameters, ∃ a ∈ trial.spec.assignments, a.name = p.name) →
      ∃ ops, trial.renderPatches (generated.experiment name) = .ok ops

/-! ### Submission -/

namespace Experiment

theorem compareNames_self (e : Experiment) (part : DefinitionPart) (names : List String) :
    e.compareNames part names names = .ok () := by
  simp only [compareNames, if_true]

/-- An experiment agrees with the definition that is made from it. -/
theorem checkDefinition_toDefinition (e : Experiment) :
    e.checkDefinition e.toDefinition = .ok () := by
  have hparameters : e.toDefinition.parameters.map Service.Parameter.name =
      e.freeParameters.map Parameter.name := by
    simp only [toDefinition, List.map_map]
    exact List.map_congr_left fun p _ => p.toService_name
  have hmetrics : e.toDefinition.metrics.map Service.Metric.name =
      e.spec.metrics.map Metric.name := by
    simp [toDefinition, Metric.toService, Function.comp_def]
  simp only [checkDefinition, hparameters, hmetrics, compareNames_self]
  rfl

variable {e : Experiment}

theorem freeParameters_of_isSound (h : ∀ p ∈ e.spec.parameters, p.IsSound) :
    e.freeParameters = e.spec.parameters := by
  apply List.filter_eq_self.mpr
  intro p hp
  rw [(h p hp).not_degenerate]
  rfl

theorem mapM_baselineAssignment {parameters : List Parameter} (h : ∀ p ∈ parameters, p.IsSound) :
    ∃ assignments : List Service.Assignment,
      parameters.mapM Parameter.baselineAssignment = .ok (assignments.map some) ∧
      List.Forall₂ (fun p (a : Service.Assignment) => a.parameterName = p.name ∧
          p.baseline.map NumberOrString.ofIntOrString = some a.value) parameters assignments := by
  induction parameters with
  | nil => exact ⟨[], rfl, .nil⟩
  | cons p rest ih =>
    obtain ⟨value, hbaseline, hassigned⟩ := (h p List.mem_cons_self).baselineAssignment
    obtain ⟨later, hlater, hall⟩ := ih fun q hq => h q (List.mem_cons_of_mem _ hq)
    refine ⟨{ parameterName := p.name, value := .ofIntOrString value } :: later, ?_, .cons ?_ hall⟩
    · rw [List.mapM_cons, hassigned, hlater]
      rfl
    · exact ⟨rfl, by rw [hbaseline]; rfl⟩

/-- With a baseline for every parameter, the baseline trial covers them all. -/
theorem baselineSuggestion_of_isSound (h : ∀ p ∈ e.spec.parameters, p.IsSound) :
    ∃ assignments, List.Forall₂ (fun p (a : Service.Assignment) => a.parameterName = p.name ∧
        p.baseline.map NumberOrString.ofIntOrString = some a.value)
        e.spec.parameters assignments ∧
      e.baselineSuggestion = .ok (if e.spec.parameters = [] then none
        else some { labels := Dict.ofList [("baseline", "true")], assignments }) := by
  obtain ⟨assignments, hassigned, hall⟩ := mapM_baselineAssignment h
  have hlength := hall.length_eq
  have hfilter : (assignments.map some).filterMap id = assignments := by
    simp [List.filterMap_map]
  refine ⟨assignments, hall, ?_⟩
  rw [baselineSuggestion, freeParameters_of_isSound h, hassigned]
  refine bind_eq_ok.mpr ⟨_, rfl, ?_⟩
  dsimp only
  rw [hfilter]
  by_cases hempty : e.spec.parameters = []
  · have hnil : assignments = [] := by
      rw [hempty] at hlength
      exact List.length_eq_zero_iff.mp hlength.symm
    rw [if_pos hempty, hnil]
    rfl
  · have hne : assignments.isEmpty = false := by
      cases assignments with
      | nil => exact absurd (List.length_eq_zero_iff.mp hlength) hempty
      | cons => rfl
    rw [if_neg hempty, if_neg (by rw [hne]; decide), if_neg (by simp [hlength])]
    rfl

end Experiment

/-! ### Rendering -/

namespace Trial

variable {t : Trial}

/-- Templates of generated texts render for a trial that assigns the names they refer to. -/
theorem renderPatches_ok {e : Experiment}
    (hpatches : ∀ template ∈ e.spec.patches,
      Json.EveryText (IsGenerated (e.spec.parameters.map Parameter.name)) template.patch)
    (hbound : ∀ p ∈ e.spec.parameters, ∃ value, t.assigned.get? p.name = some value) :
    ∃ ops, t.renderPatches e = .ok ops := by
  have hassigned : ∀ p ∈ e.spec.parameters, t.Assigns p.name := fun p hp =>
    assigned_isSome_iff.mp (Option.isSome_iff_exists.mpr (hbound p hp))
  refine renderPatches_isOk_iff.mpr ⟨fun p hp _ => .inl (hassigned p hp), ?_⟩
  intro template htemplate
  obtain ⟨names, hnames, hsub⟩ := Template.references_ok (hpatches template htemplate)
  refine ⟨names, hnames, fun name hname => .inl ?_⟩
  obtain ⟨p, hp, rfl⟩ := List.mem_map.mp (hsub hname)
  exact hassigned p hp

end Trial

/-! ### Generation -/

namespace Generator

/-- No container name, variable name or other value that the path of a found field matches list
elements with starts a placeholder. -/
def LiteralMatches [RegexEngine] (g : Generator) (set : ResourceSet) : Prop :=
  ∀ fields, g.fields set = .ok fields → ∀ f ∈ fields, ∀ value ∈ f.path.matchValues, IsLiteral value

/-- The names made for all parameters of the fields. -/
def namerOf (fields : List TunableField) : Namer :=
  Namer.ofKeys (fields.flatMap TunableField.nameKeys)

theorem key_mem {fields : List TunableField} {f : TunableField} (hf : f ∈ fields) {suffix : String}
    (hsuffix : suffix ∈ f.suffixes) :
    (⟨f.target, f.path, suffix⟩ : NameKey) ∈ fields.flatMap TunableField.nameKeys :=
  List.mem_flatMap.mpr ⟨f, hf, TunableField.mem_nameKeys hsuffix⟩

section Engine
variable [RegexEngine] {g : Generator} {set : ResourceSet}

/-- The parts of what was generated. -/
theorem generate_eq_ok {generated : Generated} (h : g.generate set = .ok generated) :
    ∃ fields patches, g.fields set = .ok fields ∧
      patchesOf (namerOf fields) fields = .ok patches ∧
      generated.parameters = parametersOf (namerOf fields) fields ∧
      generated.patches =
        patches.map (fun (target, patch) => { patch, target := some target }) ∧
      generated.metrics = g.metrics := by
  obtain ⟨fields, hfields, h⟩ := bind_eq_ok.mp h
  obtain ⟨patches, hpatches, h⟩ := bind_eq_ok.mp h
  obtain rfl := Except.ok.inj h
  exact ⟨fields, patches, hfields, hpatches, rfl, rfl, rfl⟩

theorem name_isPlainName {fields : List TunableField} (hfields : g.fields set = .ok fields)
    {f : TunableField} (hf : f ∈ fields) {suffix : String} (hsuffix : suffix ∈ f.suffixes) :
    IsPlainName ((namerOf fields).name f.target f.path suffix) := by
  refine Namer.name_isPlainName ?_ (key_mem hf hsuffix)
  intro key hkey
  obtain ⟨f', hf', hmem⟩ := List.mem_flatMap.mp hkey
  obtain ⟨suffix', hsuffix', rfl⟩ := List.mem_map.mp hmem
  exact (isFound_of_mem_fields hfields hf').suffix_ne_empty suffix' hsuffix'

/-- Every field that was found has plain names that are names of parameters. -/
theorem isPlain_of_mem_fields {fields : List TunableField} (hfields : g.fields set = .ok fields)
    (hliteral : g.LiteralMatches set) {f : TunableField} (hf : f ∈ fields) :
    f.IsPlain (namerOf fields) ((parametersOf (namerOf fields) fields).map Parameter.name) where
  name_mem _ hsuffix := name_mem_parametersOf _ fields hf hsuffix
  name_plain _ hsuffix := name_isPlainName hfields hf hsuffix
  match_literal := hliteral fields hfields f hf

theorem everyText_of_mem_patches {generated : Generated} (h : g.generate set = .ok generated)
    (hliteral : g.LiteralMatches set) : ∀ t ∈ generated.patches,
      Json.EveryText (IsGenerated (generated.parameters.map Parameter.name)) t.patch := by
  obtain ⟨fields, patches, hfields, hpatches, hparameters, htemplates, -⟩ := generate_eq_ok h
  intro t ht
  rw [htemplates] at ht
  obtain ⟨⟨target, patch⟩, hmem, rfl⟩ := List.mem_map.mp ht
  rw [hparameters]
  refine (patchesOf_forall ?_ (fun old fragment hold hnew => hold.merge fragment hnew) hpatches
    (target, patch) hmem).1
  intro f hf fragment hfragment
  exact (isPlain_of_mem_fields hfields hliteral hf).everyText_patch hfragment

theorem isPlainName_of_generated {generated : Generated} (h : g.generate set = .ok generated) :
    ∀ p ∈ generated.parameters, IsPlainName p.name := by
  obtain ⟨fields, patches, hfields, -, hparameters, -⟩ := generate_eq_ok h
  intro p hp
  rw [hparameters] at hp
  obtain ⟨f, hf, hmem⟩ := exists_of_mem_parametersOf _ fields hp
  have hname := List.mem_map_of_mem (f := Parameter.name) hmem
  rw [TunableField.parameters_names] at hname
  obtain ⟨key, hkey, heq⟩ := List.mem_map.mp hname
  obtain ⟨suffix, hsuffix, rfl⟩ := List.mem_map.mp hkey
  rw [← heq]
  exact name_isPlainName hfields hf hsuffix

theorem names_nodup_of_generated {generated : Generated} (h : g.generate set = .ok generated) :
    (generated.parameters.map Parameter.name).Nodup := by
  obtain ⟨fields, patches, -, -, hparameters, -⟩ := generate_eq_ok h
  rw [hparameters]
  exact parametersOf_names_nodup _ fields

/-- Whatever is generated is accepted. -/
theorem generate_isAccepted {generated : Generated} (h : g.generate set = .ok generated)
    (hliteral : g.LiteralMatches set) (name : String) : generated.IsAccepted name := by
  have htexts := everyText_of_mem_patches h hliteral
  obtain ⟨fields, patches, hfields, hpatches, hparameters, htemplates, -⟩ := generate_eq_ok h
  have hsound : ∀ p ∈ generated.parameters, p.IsSound := by
    intro p hp
    rw [hparameters] at hp
    obtain ⟨f, -, hmem⟩ := exists_of_mem_parametersOf _ fields hp
    exact f.parameters_isSound _ p hmem
  refine ⟨names_nodup_of_generated h, isPlainName_of_generated h, hsound, ?_, ?_, ?_, ?_⟩
  · rw [htemplates, List.map_map]
    have hnodup := patchesOf_targets_nodup hpatches
    have hsome := hnodup.map (Option.some_injective ObjectReference)
    rwa [List.map_map] at hsome
  · exact fun t ht => Template.references_ok (htexts t ht)
  · have hspec : (generated.experiment name).spec.parameters = generated.parameters := rfl
    obtain ⟨assignments, hall, hsuggestion⟩ :=
      Experiment.baselineSuggestion_of_isSound (hspec ▸ hsound)
    refine ⟨_, bind_eq_ok.mpr ⟨_, hsuggestion, rfl⟩,
      Experiment.checkDefinition_toDefinition _, fun hne => ⟨_, if_neg hne, hall⟩⟩
  · exact fun trial htrial => Trial.renderPatches_ok htexts fun p hp =>
      Trial.exists_assigned (htrial p hp)

/-! ### A sample -/

end Engine

/-- A deployment with one container. -/
def sampleResource : Resource where
  target := { apiVersion := "apps/v1", kind := "Deployment", name := "web" }
  tree := .object [
    ("spec", .object [
      ("template", .object [("spec", .object [("containers", .array [.object [
        ("name", .string "app"),
        ("resources", .object [("limits", .object [("cpu", .string "1")])])]])])])])]

def sampleGenerator : Generator := addSelector {} (.containers {})

/-- What is generated for the sample. -/
def sampleGenerated : Generated where
  parameters := [.integer "cpu" 100 4000 1000]
  patches := [{
    target := some sampleResource.target
    patch := .object [("spec", .object [
      ("template", .object [("spec", .object [("containers", .array [.object [
        ("name", .string "app"),
        ("resources", .object [
          ("limits", .object [("cpu", .string "\x7b\x7b .Values.cpu \x7d\x7dm")]),
          ("requests", .object [("cpu", .string "\x7b\x7b .Values.cpu \x7d\x7dm")])])]])])])])] }]
  metrics := []

theorem sample_fields : sampleGenerator.fields ⟨[sampleResource]⟩ = .ok [.container {
    target := sampleResource.target
    path := ⟨[.field "spec", .field "template", .field "spec", .field "containers",
      .element "name" "app"]⟩
    cpu := some 1000, memory := none, unit := .mebibytes, synthesized := false }] := by
  decide +kernel

theorem sample_generate : sampleGenerator.generate ⟨[sampleResource]⟩ = .ok sampleGenerated := by
  decide +kernel

theorem sample_literalMatches : sampleGenerator.LiteralMatches ⟨[sampleResource]⟩ := by
  intro fields hfields
  obtain rfl := Except.ok.inj (sample_fields.symm.trans hfields)
  decide +kernel

theorem sample_isAccepted : sampleGenerator.generate ⟨[sampleResource]⟩ = .ok sampleGenerated ∧
    sampleGenerator.LiteralMatches ⟨[sampleResource]⟩ ∧ sampleGenerated.IsAccepted "bench" :=
  ⟨sample_generate, sample_literalMatches,
    generate_isAccepted sample_generate sample_literalMatches "bench"⟩

end Generator

end WorkloadTuning
