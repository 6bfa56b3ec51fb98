import WorkloadTuning.Json.Merge
import WorkloadTuning.Error
import WorkloadTuning.Text.Case
import WorkloadTuning.Trial.Basic

/-! Building the job that runs a trial: the job of its template, or an empty one, with labels, the
assignments as environment variables, and settings that keep it from running twice. -/

namespace WorkloadTuning

/-- The job of a trial. If none of the patches recorded for the job could be applied, it comes
unpatched with the failure of the last. -/
structure BuiltJob where
  job : Job
  failure : Option Error := none
deriving DecidableEq, Repr

/-- The environment variable of a parameter: `db.cpu` becomes `DB_CPU`. -/
def envVarName (parameter : String) : String :=
  String.ofList ((Text.upper parameter).toList.map fun c => if c = '.' then '_' else c)

namespace Trial

def assignmentEnv (t : Trial) : List EnvVar :=
  t.spec.assignments.map fun a => { name := envVarName a.name, value := a.value.toText }

def defaultRuntime : Duration := .ofSeconds 120

/-- How long the default container sleeps: the expected runtime and the offset of its start. -/
def runtime? (t : Trial) : Option Duration :=
  let base := (t.spec.approximateRuntime.filter fun d => !d.isZero).getD defaultRuntime
  match t.spec.startTimeOffset with
  | some offset => base.add? offset
  | none => some base

/-- The container of a job that has no other. -/
def defaultContainer (runtime : Duration) : Container :=
  { name := "default-trial-run"
    image := "busybox"
    command := ["/bin/sh"]
    args := ["-c", "echo 'Sleeping for " ++ runtime.toText ++ "...' && sleep " ++
      toString runtime.roundedSeconds ++ " && echo 'Done.'"] }

def labelled (t : Trial) (m : Metadata) : Metadata :=
  (m.addLabel Vocabulary.trialLabel t.name).addLabel Vocabulary.trialRoleLabel
    Vocabulary.trialRunRole

/-- What the job starts from. -/
def jobTemplate (t : Trial) : JobTemplate :=
  match t.spec.jobTemplate with
  | some template => template
  | none =>
    let metadata := ({} : Metadata).addLabel Vocabulary.experimentLabel t.experimentName
    { metadata, spec := { template := { metadata } } }

/-- The containers of the job, given those of its template. -/
def jobContainers (t : Trial) (containers : List Container) : Outcome (List Container) :=
  if containers.isEmpty then
    match t.runtime? with
    | some runtime => .ok [defaultContainer runtime]
    | none => .error .outOfRange
  else .ok (containers.map fun c => { c with env := c.env ++ t.assignmentEnv })

def jobMetadata (t : Trial) (given : Metadata) : Metadata :=
  let m := t.labelled given
  { m with namespaceName := t.metadata.namespaceName
           name := if m.name.isEmpty then t.name else m.name }

def podSpec (t : Trial) (given : PodSpec) : Outcome PodSpec := do
  let containers ← t.jobContainers given.containers
  let restartPolicy := if given.restartPolicy.isEmpty then "Never" else given.restartPolicy
  return { given with restartPolicy, containers }

/-- The job before the patches recorded for it. -/
def unpatchedJob (t : Trial) : Outcome Job := do
  let template := t.jobTemplate
  let pod := template.spec.template
  let spec ← t.podSpec pod.spec
  return { metadata := t.jobMetadata template.metadata
           spec := { template.spec with
             backoffLimit := template.spec.backoffLimit.or (some 0)
             template := { metadata := t.labelled pod.metadata, spec } } }

/-- The structural patches recorded for the trial's job. -/
def jobPatches (t : Trial) : List PatchOperation :=
  t.status.patchOperations.filter fun op => op.kind == .strategic && t.isJobReference op.target

/-- The job with structural patch data merged into it. -/
def patchJob (job : Job) (data : Json) : Outcome Job :=
  (Record.ofJson ((Record.toJson job).merge data)).mapError fun _ => .record

/-- The job with the first of the patches that leads to a job again. -/
def firstPatched (job : Job) : Option Error → List PatchOperation → Outcome (Option Job)
  | none, [] => .ok none
  | some e, [] => .error e
  | _, op :: rest =>
    match patchJob job op.data with
    | .ok patched => .ok (some patched)
    | .error e => firstPatched job (some e) rest

/-- Apply the patches recorded for the trial's job; none if there are no such patches. -/
def patchSelf (t : Trial) (job : Job) : Outcome (Option Job) :=
  firstPatched job none t.jobPatches

/-- The job for the trial. -/
def buildJob (t : Trial) : Outcome BuiltJob := do
  let job ← t.unpatchedJob
  match t.patchSelf job with
  | .ok patched => return { job := patched.getD job }
  | .error e => return { job, failure := some e }

end Trial

end WorkloadTuning
