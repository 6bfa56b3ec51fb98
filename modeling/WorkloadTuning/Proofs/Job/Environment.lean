import WorkloadTuning.Job.Build
import WorkloadTuning.Proofs.Generation.Acceptance

/-! The environment of a trial's job. Every container of the template gets one variable for each
assignment. The variables of generated parameters have the same name just where the parameters' names
differ in nothing but dots and underscores. -/

namespace WorkloadTuning

/-! ### Names of variables -/

/-- A dot as an underscore. -/
def undotted (c : Char) : Char :=
  if c = '.' then '_' else c

/-- The name with its dots replaced by underscores. -/
def underscored (name : String) : String :=
  String.ofList (name.toList.map undotted)

theorem upper_toList_of_plain {name : String} (h : IsPlainName name) :
    (Text.upper name).toList = name.toList.map Char.toUpper := by
  have hchars : ∀ c ∈ name.toList, Text.upperOf c = [c.toUpper] := by
    intro c hc
    have hrange := toNat_of_isPlainChar (h.plain c hc)
    exact if_pos (by omega)
  rw [Text.upper, String.toList_ofList, List.flatMap_congr hchars, List.map_eq_flatMap]

/-- On plain characters, case and dots do not get in each other's way. -/
theorem undotted_toUpper {c : Char} (h : isPlainChar c) :
    undotted c.toUpper = (undotted c).toUpper := by
  by_cases hdot : c = '.'
  · subst hdot
    decide
  · have hupper : c.toUpper ≠ '.' := by
      intro heq
      have hback := toLower_toUpper h
      rw [heq] at hback
      exact hdot hback.symm
    rw [undotted, undotted, if_neg hdot, if_neg hupper]

theorem isPlainChar_undotted {c : Char} (h : isPlainChar c) : isPlainChar (undotted c) := by
  rw [undotted]
  split
  · decide
  · exact h

theorem envVarName_toList {name : String} (h : IsPlainName name) :
    (envVarName name).toList = (underscored name).toList.map Char.toUpper := by
  rw [envVarName, underscored, upper_toList_of_plain h, String.toList_ofList, String.toList_ofList,
    List.map_map, List.map_map]
  exact List.map_congr_left fun c hc => undotted_toUpper (h.plain c hc)

/-- The variable's name tells the parameter's name but for its dots. -/
theorem envVarName_lower {name : String} (h : IsPlainName name) :
    (envVarName name).toList.map Char.toLower = (underscored name).toList := by
  rw [envVarName_toList h, List.map_map]
  refine (List.map_congr_left fun c hc => ?_).trans (List.map_id _)
  rw [underscored, String.toList_ofList] at hc
  obtain ⟨d, hd, rfl⟩ := List.mem_map.mp hc
  exact toLower_toUpper (isPlainChar_undotted (h.plain d hd))

theorem envVarName_eq_iff {a b : String} (ha : IsPlainName a) (hb : IsPlainName b) :
    envVarName a = envVarName b ↔ underscored a = underscored b := by
  constructor
  · intro h
    rw [← String.toList_inj, ← envVarName_lower ha, ← envVarName_lower hb, h]
  · intro h
    rw [← String.toList_inj, envVarName_toList ha, envVarName_toList hb, h]

theorem envVarNames_nodup_iff {names : List String} (h : ∀ name ∈ names, IsPlainName name) :
    (names.map envVarName).Nodup ↔ (names.map underscored).Nodup := by
  simp only [List.Nodup, List.pairwise_map]
  exact List.Pairwise.iff_of_mem fun ha hb => not_congr (envVarName_eq_iff (h _ ha) (h _ hb))

theorem underscored_of_no_dot {name : String} (h : '.' ∉ name.toList) : underscored name = name := by
  have hchars : ∀ c ∈ name.toList, undotted c = id c := by
    intro c hc
    exact if_neg fun hdot : c = '.' => h (hdot ▸ hc)
  rw [underscored, List.map_congr_left hchars, List.map_id, String.ofList_toList]

/-! ### The job -/

namespace Trial

variable {t : Trial}

theorem podSpec_of_containers {given : PodSpec} (h : given.containers ≠ []) :
    ∃ spec, t.podSpec given = .ok spec ∧
      spec.containers = given.containers.map fun c => { c with env := c.env ++ t.assignmentEnv } := by
  have hcontainers : t.jobContainers given.containers =
      .ok (given.containers.map fun c => { c with env := c.env ++ t.assignmentEnv }) :=
    if_neg (by simpa using h)
  exact ⟨_, bind_eq_ok.mpr ⟨_, hcontainers, rfl⟩, rfl⟩

/-- Without recorded patches, the job is the one that is made of the template. -/
theorem buildJob_of_template (hpatches : t.status.patchOperations = []) {template : JobTemplate}
    (htemplate : t.spec.jobTemplate = some template)
    (hcontainers : template.spec.template.spec.containers ≠ []) :
    ∃ job, t.buildJob = .ok { job } ∧ job.spec.template.spec.containers =
      template.spec.template.spec.containers.map fun c =>
        { c with env := c.env ++ t.assignmentEnv } := by
  have hstart : t.jobTemplate = template := by
    rw [jobTemplate, htemplate]
  have hself : t.jobPatches = [] := by
    rw [jobPatches, hpatches, List.filter_nil]
  obtain ⟨spec, hspec, hmapped⟩ := podSpec_of_containers (t := t) hcontainers
  have hjob : ∃ job, t.unpatchedJob = .ok job ∧ job.spec.template.spec = spec := by
    rw [unpatchedJob, hstart]
    exact ⟨_, bind_eq_ok.mpr ⟨spec, hspec, rfl⟩, rfl⟩
  obtain ⟨job, hjob, rfl⟩ := hjob
  refine ⟨job, bind_eq_ok.mpr ⟨job, hjob, ?_⟩, hmapped⟩
  rw [patchSelf, hself]
  rfl

end Trial

namespace Generator

/-- For a trial that assigns each generated parameter once, every container of the template gets one
variable per parameter. Two of them have the same name just if the parameters' names have with
underscores for dots, so that all are different where no name has a dot. -/
theorem generate_job_environment [RegexEngine] {g : Generator} {set : ResourceSet}
    {generated : Generated} (h : g.generate set = .ok generated)
    {t : Trial} (hassigned : (t.spec.assignments.map Assignment.name).Perm
      (generated.parameters.map Parameter.name))
    (hpatches : t.status.patchOperations = []) {template : JobTemplate}
    (htemplate : t.spec.jobTemplate = some template)
    (hcontainers : template.spec.template.spec.containers ≠ []) :
    ∃ job, t.buildJob = .ok { job } ∧
      job.spec.template.spec.containers = template.spec.template.spec.containers.map (fun c =>
        { c with env := c.env ++ t.assignmentEnv }) ∧
      (t.assignmentEnv.map EnvVar.name).Perm (generated.parameters.map fun p => envVarName p.name) ∧
      (∀ p ∈ generated.parameters, ∀ q ∈ generated.parameters,
        envVarName p.name = envVarName q.name ↔ underscored p.name = underscored q.name) ∧
      ((t.assignmentEnv.map EnvVar.name).Nodup ↔
        (generated.parameters.map fun p => underscored p.name).Nodup) ∧
      ((∀ p ∈ generated.parameters, '.' ∉ p.name.toList) →
        (t.assignmentEnv.map EnvVar.name).Nodup) := by
  obtain ⟨job, hjob, hmapped⟩ := Trial.buildJob_of_template hpatches htemplate hcontainers
  have hnames : t.assignmentEnv.map EnvVar.name =
      (t.spec.assignments.map Assignment.name).map envVarName := by
    simp [Trial.assignmentEnv]
  -- The order of the assignments plays no part: repetitions are those among the parameters.
  have hperm : (t.assignmentEnv.map EnvVar.name).Perm
      ((generated.parameters.map Parameter.name).map envVarName) := by
    rw [hnames]
    exact hassigned.map envVarName
  have hplain : ∀ p ∈ generated.parameters, IsPlainName p.name := isPlainName_of_generated h
  have hnodup : (t.assignmentEnv.map EnvVar.name).Nodup ↔
      ((generated.parameters.map Parameter.name).map underscored).Nodup :=
    hperm.nodup_iff.trans (envVarNames_nodup_iff (List.forall_mem_map.mpr hplain))
  rw [List.map_map] at hperm hnodup
  refine ⟨job, hjob, hmapped, hperm, fun p hp q hq => envVarName_eq_iff (hplain p hp) (hplain q hq),
    hnodup, fun hdots => hnodup.mpr ?_⟩
  have hsame : ∀ p ∈ generated.parameters, (underscored ∘ Parameter.name) p = p.name :=
    fun p hp => underscored_of_no_dot (hdots p hp)
  rw [List.map_congr_left hsame]
  exact names_nodup_of_generated h

def sampleContainer (env : List EnvVar) : Container :=
  { name := "load", image := "load:1", env }

/-- A trial whose job template has one container. -/
def sampleJobTrial (assignments : List Assignment) : Trial :=
  let template : JobTemplate :=
    { spec := { template := { spec := { containers := [sampleContainer []] } } } }
  { metadata := { name := "bench-001" }, spec := { assignments, jobTemplate := some template } }

theorem sample_job_environment : sampleGenerator.generate ⟨[sampleResource]⟩ = .ok sampleGenerated ∧
    ∃ job, (sampleJobTrial [{ name := "cpu", value := .int 1000 }]).buildJob = .ok { job } ∧
      job.spec.template.spec.containers = [sampleContainer [{ name := "CPU", value := "1000" }]] ∧
      ["CPU"].Nodup := by
  obtain ⟨job, hjob, hcontainers, -, -, -, hnodup⟩ := generate_job_environment sample_generate
    (t := sampleJobTrial [{ name := "cpu", value := .int 1000 }]) (.refl ["cpu"]) rfl rfl
    (List.cons_ne_nil _ _)
  refine ⟨sample_generate, job, hjob, ?_, ?_⟩
  · rw [hcontainers]
    decide
  · refine hnodup ?_
    intro p hp
    obtain rfl := List.mem_singleton.mp hp
    decide

/-- A container with two variables whose names differ in a dot only. -/
def dottedResource : Resource where
  target := { apiVersion := "apps/v1", kind := "Deployment", name := "web" }
  tree := .object [
    ("spec", .object [
      ("template", .object [("spec", .object [("containers", .array [.object [
        ("name", .string "app"),
        ("env", .array [
          .object [("name", .string "log.level"), ("value", .string "info")],
          .object [("name", .string "log_level"), ("value", .string "warn")]])]])])])])]

def dottedGenerator : Generator :=
  addSelector (addSelector {} (.envVar { name := "log.level", values := ["info", "debug"] }))
    (.envVar { name := "log_level", values := ["warn", "error"] })

def dottedField (name value other : String) : TunableField :=
  .envVar {
    target := dottedResource.target
    path := ⟨[.field "spec", .field "template", .field "spec", .field "containers",
      .element "name" "app"]⟩
    name, value := some value, values := [value, other] }

def dottedFields : List TunableField :=
  [dottedField "log.level" "info" "debug", dottedField "log_level" "warn" "error"]

theorem dotted_fields : dottedGenerator.fields ⟨[dottedResource]⟩ = .ok dottedFields := by
  decide +kernel

theorem dotted_namer : namerOf dottedFields =
    ⟨(dottedFields.flatMap TunableField.nameKeys).zip ["log.level", "log_level"]⟩ := by
  rw [namerOf, Namer.ofKeys,
    NameKey.sorted_of_pairwise (by decide +kernel) (by decide +kernel)]
  decide +kernel

/-- Two parameters of one experiment share a variable. -/
theorem dotted_names_collide :
    ∃ generated job, dottedGenerator.generate ⟨[dottedResource]⟩ = .ok generated ∧
      generated.parameters.map Parameter.name = ["log.level", "log_level"] ∧
      (sampleJobTrial [{ name := "log.level", value := .string "debug" },
        { name := "log_level", value := .string "error" }]).buildJob = .ok { job } ∧
      job.spec.template.spec.containers = [sampleContainer [
        { name := "LOG_LEVEL", value := "debug" }, { name := "LOG_LEVEL", value := "error" }]] := by
  have hpatches : ∃ patches, patchesOf (namerOf dottedFields) dottedFields = .ok patches := by
    rw [dotted_namer]
    exact ⟨_, rfl⟩
  have hparameters : (parametersOf (namerOf dottedFields) dottedFields).map Parameter.name =
      ["log.level", "log_level"] := by
    rw [dotted_namer]
    decide +kernel
  obtain ⟨patches, hpatches⟩ := hpatches
  obtain ⟨job, hjob, hcontainers⟩ := Trial.buildJob_of_template (t := sampleJobTrial
    [{ name := "log.level", value := .string "debug" },
      { name := "log_level", value := .string "error" }]) rfl rfl (List.cons_ne_nil _ _)
  refine ⟨_, job, bind_eq_ok.mpr ⟨_, dotted_fields, bind_eq_ok.mpr ⟨patches, hpatches, rfl⟩⟩,
    hparameters, hjob, ?_⟩
  rw [hcontainers]
  decide

end Generator

end WorkloadTuning
