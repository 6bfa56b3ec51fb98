import WorkloadTuning.Proofs.Job.Fields
import WorkloadTuning.Proofs.Job.Patching

/-! Jobs that run once: with a container, and with a word on restarts and on retries. A job is made
such before the patches recorded for it are merged, and no default is filled in again after that. So
it comes out as a job that runs once just where the patch leaves the three fields something. -/

namespace WorkloadTuning

open Record

/-- The job has something to run, and says whether to restart and to retry it. -/
structure Job.IsRunnable (job : Job) : Prop where
  containers : job.spec.template.spec.containers ≠ []
  restartPolicy : job.spec.template.spec.restartPolicy ≠ ""
  backoffLimit : job.spec.backoffLimit.isSome

/-! ### Before any patch -/

namespace Trial

variable {t : Trial} {job : Job}

theorem jobContainers_ends (t : Trial) (given : List Container) :
    (given = [] ∧ t.runtime? = none ∧ t.jobContainers given = .error .outOfRange) ∨
      ∃ containers, t.jobContainers given = .ok containers ∧ containers ≠ [] := by
  cases given with
  | nil =>
    cases hruntime : t.runtime? with
    | none => exact .inl ⟨rfl, rfl, by simp [jobContainers, hruntime]⟩
    | some runtime =>
      exact .inr ⟨[defaultContainer runtime], by simp [jobContainers, hruntime],
        List.cons_ne_nil _ _⟩
  | cons c rest => exact .inr ⟨_, rfl, List.cons_ne_nil _ _⟩

/-- A job is made unless the time that its only container would sleep for is out of range. -/
theorem unpatchedJob_ends (t : Trial) :
    (t.jobTemplate.spec.template.spec.containers = [] ∧ t.runtime? = none ∧
      t.unpatchedJob = .error .outOfRange) ∨
    ∃ job, t.unpatchedJob = .ok job ∧ job.IsRunnable := by
  rcases jobContainers_ends t t.jobTemplate.spec.template.spec.containers with
    ⟨hnone, hruntime, hfails⟩ | ⟨containers, hcontainers, hne⟩
  · exact .inl ⟨hnone, hruntime, by rw [unpatchedJob, podSpec, hfails]; rfl⟩
  · refine .inr ⟨_, by rw [unpatchedJob, podSpec, hcontainers]; rfl, hne, ?_, ?_⟩
    · show (if _ then "Never" else _) ≠ ""
      split
      · decide
      · next hgiven => simpa using hgiven
    · show Option.isSome (Option.or _ _)
      simp

end Trial

/-! ### Fields under patches -/

theorem PodSpec.decides_restartPolicy {p : PodSpec} (hkeys : (toJson p).HasDistinctKeys)
    (h : p.restartPolicy ≠ "") :
    Decides (toJson p) (fun r : PodSpec => r.restartPolicy ≠ "") (fun value => value ≠ .string "")
      ["restartPolicy"] := by
  have hold : (toJson p).get? "restartPolicy" = some (.string p.restartPolicy) := by
    show Members.get? (textMember _ _ ++ member _ _ ++ _) _ = _
    rw [List.append_assoc, get?_textMember _ h]
  have hkept : ∀ {text : String}, ofJson (.string p.restartPolicy) = .ok text → text ≠ "" := by
    intro text htext
    rwa [← Json.string.inj (eq_string_of_ofJson htext)]
  have hdecides := (decides_text (.string p.restartPolicy)).field restartPolicy_isField isReadWith
    hkeys.1 hold (not_not_intro rfl) hkept
  exact hdecides

theorem PodSpec.decides_containers {p : PodSpec} (hkeys : (toJson p).HasDistinctKeys)
    (h : p.containers ≠ []) :
    Decides (toJson p) (fun r : PodSpec => r.containers ≠ []) (fun value => value ≠ .array [])
      ["containers"] := by
  have hold : (toJson p).get? "containers" = some (toJson p.containers) := by
    show Members.get? (memberUnless _ _ _ ++ member _ _ ++ _) _ = _
    rw [List.append_assoc, get?_memberUnless (by decide)]
    rfl
  have hkept : ∀ {l : List Container}, ofJson (toJson p.containers) = .ok l → l ≠ [] := by
    intro l hl hnone
    obtain ⟨items, hitems, hempty⟩ := eq_array_of_ofJson hl
    rw [← Json.array.inj hitems, List.map_eq_nil_iff] at hempty
    exact h (hempty.mp hnone)
  have hdecides := (decides_list (toJson p.containers)).field containers_isField isReadWith
    hkeys.1 hold (not_not_intro rfl) hkept
  exact hdecides

theorem JobSpec.decides_backoffLimit {spec : JobSpec} (hkeys : (toJson spec).HasDistinctKeys)
    (h : spec.backoffLimit.isSome) :
    Decides (toJson spec) (fun r : JobSpec => r.backoffLimit.isSome) (fun _ => True)
      ["backoffLimit"] := by
  obtain ⟨limit, hlimit⟩ := Option.isSome_iff_exists.mp h
  have hold : (toJson spec).get? "backoffLimit" = some (toJson limit) := by
    show Members.get? (optionMember _ spec.backoffLimit ++ member _ _ ++ _) _ = _
    rw [hlimit]
    rfl
  exact (decides_option _).field backoffLimit_isField isReadWith hkeys.1 hold (by simp)
    fun hb => isSome_of_ofJson (Json.noConfusion) hb

theorem Job.get?_spec (job : Job) : (toJson job).get? "spec" = some (toJson job.spec) := rfl

theorem PodTemplate.get?_spec (pod : PodTemplate) :
    (toJson pod).get? "spec" = some (toJson pod.spec) := rfl

theorem JobSpec.get?_template (spec : JobSpec) :
    (toJson spec).get? "template" = some (toJson spec.template) := by
  show Members.get? (memberUnless _ _ _ ++ member _ _ ++ _) _ = _
  rw [List.append_assoc, get?_memberUnless (by decide)]
  rfl

section Outwards
variable {passes : Json → Prop} {key : String} {path : List String}

theorem PodTemplate.decides_spec {pod : PodTemplate} {fine : PodSpec → Prop}
    (hkeys : (toJson pod).HasDistinctKeys) (hdefault : ¬ fine {})
    (h : Decides (toJson pod.spec) fine passes (key :: path)) :
    Decides (toJson pod) (fun r : PodTemplate => fine r.spec) passes ("spec" :: key :: path) :=
  h.field spec_isField isReadWith hkeys.1 (get?_spec _) hdefault h.kept

theorem JobSpec.decides_template {spec : JobSpec} {fine : PodTemplate → Prop}
    (hkeys : (toJson spec).HasDistinctKeys) (hdefault : ¬ fine {})
    (h : Decides (toJson spec.template) fine passes (key :: path)) :
    Decides (toJson spec) (fun r : JobSpec => fine r.template) passes
      ("template" :: key :: path) :=
  h.field template_isField isReadWith hkeys.1 spec.get?_template hdefault h.kept

theorem Job.decides_spec {job : Job} {fine : JobSpec → Prop}
    (hkeys : (toJson job).HasDistinctKeys) (hdefault : ¬ fine {})
    (h : Decides (toJson job.spec) fine passes (key :: path)) :
    Decides (toJson job) (fun r : Job => fine r.spec) passes ("spec" :: key :: path) :=
  h.field spec_isField isReadWith hkeys.1 (get?_spec _) hdefault h.kept

end Outwards

/-! ### After the patches -/

/-- The patch removes none of the three fields of a job that is to run once, and empties none. -/
structure KeepsRunnable (data : Json) : Prop where
  containers :
    data.Keeps (fun value => value ≠ .array []) ["spec", "template", "spec", "containers"]
  restartPolicy :
    data.Keeps (fun value => value ≠ .string "") ["spec", "template", "spec", "restartPolicy"]
  backoffLimit : data.Keeps (fun _ => True) ["spec", "backoffLimit"]

theorem Job.IsRunnable.patched_iff {job patched : Job} (h : job.IsRunnable)
    (hkeys : (toJson job).HasDistinctKeys) {data : Json} (hdata : data.HasDistinctKeys)
    (hfollows : data.Follows ["spec", "template", "spec", "containers"])
    (hpatched : job.PatchesTo data patched) : patched.IsRunnable ↔ KeepsRunnable data := by
  have hspec := hkeys.get? job.get?_spec
  have htemplate := hspec.get? job.spec.get?_template
  have hpod := htemplate.get? job.spec.template.get?_spec
  have hne : data ≠ .null := by
    rintro rfl
    cases hpatched
  have hdecided : ∀ {fine : Job → Prop} {passes : Json → Prop} {path : List String},
      Decides (toJson job) fine passes path → data.Follows path →
        (fine patched ↔ data.Keeps passes path) :=
    fun hdecides hpath => hdecides data patched hdata hpath hne hpatched
  have hcontainers := hdecided
    (Job.decides_spec hkeys (by simp) <| JobSpec.decides_template hspec (by simp) <|
      PodTemplate.decides_spec htemplate (by simp) <| PodSpec.decides_containers hpod h.containers)
    hfollows
  have hrestart := hdecided
    (Job.decides_spec hkeys (by simp) <| JobSpec.decides_template hspec (by simp) <|
      PodTemplate.decides_spec htemplate (by simp) <|
        PodSpec.decides_restartPolicy hpod h.restartPolicy)
    (Json.Follows.turn ["spec", "template", "spec"] hfollows "restartPolicy")
  have hbackoff := hdecided
    (Job.decides_spec hkeys (by simp) <| JobSpec.decides_backoffLimit hspec h.backoffLimit)
    (Json.Follows.turn ["spec"] hfollows "backoffLimit")
  constructor
  · intro hruns
    exact ⟨hcontainers.mp hruns.containers, hrestart.mp hruns.restartPolicy,
      hbackoff.mp hruns.backoffLimit⟩
  · intro hkeeps
    exact ⟨hcontainers.mpr hkeeps.containers, hrestart.mpr hkeeps.restartPolicy,
      hbackoff.mpr hkeeps.backoffLimit⟩

namespace Trial

/-- A job is made runnable, and comes out either as it was made or patched. If patched, it is still
runnable just where the patch keeps it so: nothing is filled in again. -/
theorem buildJob_runnable (t : Trial) :
    (t.jobTemplate.spec.template.spec.containers = [] ∧ t.runtime? = none ∧
      t.buildJob = .error .outOfRange) ∨
    ∃ job built, t.unpatchedJob = .ok job ∧ job.IsRunnable ∧ t.buildJob = .ok built ∧
      (built.job = job ∨ ∃ op ∈ t.jobPatches, job.PatchesTo op.data built.job ∧
        ((toJson job).HasDistinctKeys → op.data.HasDistinctKeys →
          op.data.Follows ["spec", "template", "spec", "containers"] →
            (built.job.IsRunnable ↔ KeepsRunnable op.data))) := by
  rcases t.unpatchedJob_ends with ⟨hnone, hruntime, hfails⟩ | ⟨job, hjob, hruns⟩
  · exact .inl ⟨hnone, hruntime, by rw [buildJob, hfails]; rfl⟩
  · obtain ⟨built, hbuilt, hends⟩ := buildJob_ends hjob
    refine .inr ⟨job, built, hjob, hruns, hbuilt, ?_⟩
    cases hends with
    | unpatched => exact .inl rfl
    | refused => exact .inl rfl
    | @patched before after op _ heq _ hpatched =>
      have hop : op ∈ t.jobPatches := heq ▸ List.mem_append_right before List.mem_cons_self
      exact .inr ⟨op, hop, hpatched, fun hkeys hdata hfollows =>
        hruns.patched_iff hkeys hdata hfollows hpatched⟩

theorem retries_follows :
    (retries (.ofInt 2)).Follows ["spec", "template", "spec", "containers"] := by
  refine ⟨rfl, fun value hvalue => ?_⟩
  obtain rfl := Option.some.inj hvalue
  exact ⟨rfl, fun value hvalue => by cases hvalue⟩

theorem retries_keepsRunnable : KeepsRunnable (retries (.ofInt 2)) := by
  constructor
  all_goals
    intro value hvalue
    obtain rfl := Option.some.inj hvalue
    refine ⟨nofun, fun value hvalue => ?_⟩
  · cases hvalue
  · cases hvalue
  · obtain rfl := Option.some.inj hvalue
    exact ⟨nofun, trivial⟩

/-- A job with another number of retries still runs. -/
theorem retried_isRunnable :
    ∃ built, (patchedTrial [retries (.ofInt 2)]).buildJob = .ok built ∧ built.job.IsRunnable := by
  rcases buildJob_runnable (patchedTrial [retries (.ofInt 2)]) with
    ⟨hnone, -, -⟩ | ⟨job, built, hjob, hruns, hbuilt, hpatched⟩
  · cases hnone
  · refine ⟨built, hbuilt, ?_⟩
    rcases hpatched with heq | ⟨op, hop, -, hiff⟩
    · rwa [heq]
    · obtain rfl : loadJob 0 "Never" = job :=
        Except.ok.inj ((patchedTrial_unpatchedJob _).symm.trans hjob)
      have hdata : op.data = retries (.ofInt 2) := by
        obtain rfl := List.mem_singleton.mp hop
        rfl
      rw [hdata] at hiff
      exact (hiff (by decide +kernel) (by decide +kernel) retries_follows).mpr retries_keepsRunnable

/-- A patch that takes the settings away again. -/
def stripping : Json :=
  .object [("spec", .object [
    ("backoffLimit", .null),
    ("template", .object [("spec", .object [
      ("restartPolicy", .null), ("containers", .array [])])])])]

/-- What is left of a job after that. -/
def strippedJob : Job :=
  let job := loadJob 0 "Never"
  { job with spec := { template := { metadata := job.spec.template.metadata } } }

/-- Patched so, a job comes with nothing to run and no settings, and no failure is told. -/
theorem settings_stripped :
    (patchedTrial [stripping]).buildJob = .ok { job := strippedJob } ∧
      strippedJob.spec.template.spec.containers = [] ∧
      strippedJob.spec.template.spec.restartPolicy = "" ∧
      strippedJob.spec.backoffLimit = none :=
  ⟨by decide +kernel, rfl, rfl, rfl⟩

end Trial

end WorkloadTuning
