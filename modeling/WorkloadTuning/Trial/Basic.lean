import WorkloadTuning.Condition
import WorkloadTuning.Duration
import WorkloadTuning.IntOrString
import WorkloadTuning.Job.Basic
import WorkloadTuning.Patch.Basic
import WorkloadTuning.Vocabulary

/-! Trials: runs of a workload with a value assigned to every parameter. -/

namespace WorkloadTuning

open Record

structure Assignment where
  name : String := ""
  value : IntOrString := .string ""
deriving DecidableEq, Repr, Inhabited

/-- The measured value of a metric, as text. -/
structure TrialValue where
  name : String := ""
  value : String := ""
  error : String := ""
deriving DecidableEq, Repr, Inhabited

structure TrialSpec where
  experiment : Option ObjectReference := none
  assignments : List Assignment := []
  values : List TrialValue := []
  jobTemplate : Option JobTemplate := none
  /-- How long the run is expected to take. -/
  approximateRuntime : Option Duration := none
  /-- How long to wait before measuring. -/
  startTimeOffset : Option Duration := none
deriving DecidableEq, Repr, Inhabited

inductive TrialAspect where
  | complete
  | failed
  | patched
  | ready
  | observed
deriving DecidableEq, Repr

structure TrialStatus where
  phase : String := ""
  assignments : String := ""
  values : String := ""
  startTime : Option Timestamp := none
  completionTime : Option Timestamp := none
  conditions : List (Condition TrialAspect) := []
  patchOperations : List PatchOperation := []
deriving DecidableEq, Repr, Inhabited

structure Trial where
  apiVersion : String := Vocabulary.apiVersion
  kind : String := "Trial"
  metadata : Metadata := {}
  spec : TrialSpec := {}
  status : TrialStatus := {}
deriving DecidableEq, Repr, Inhabited

namespace Assignment

def take (a : Assignment) (key : String) (value : Json) : Decoded Assignment :=
  match key with
  | "name" => return { a with name := ← ofJson value }
  | "value" => return { a with value := ← ofJson value }
  | _ => return a

instance : Record Assignment where
  toJson a := .object (member "name" a.name ++ member "value" a.value)
  ofJson := read take {} ["name", "value"] ["name", "value"]

end Assignment

namespace TrialValue

def take (v : TrialValue) (key : String) (value : Json) : Decoded TrialValue :=
  match key with
  | "name" => return { v with name := ← ofJson value }
  | "value" => return { v with value := ← ofJson value }
  | "error" => return { v with error := ← ofJson value }
  | _ => return v

instance : Record TrialValue where
  toJson v := .object (member "name" v.name ++ member "value" v.value ++
    textMember "error" v.error)
  ofJson := read take {} ["name", "value", "error"] ["name", "value"]

end TrialValue

namespace TrialSpec

def take (s : TrialSpec) (key : String) (value : Json) : Decoded TrialSpec :=
  match key with
  | "experimentRef" => return { s with experiment := ← ofJson value }
  | "assignments" => return { s with assignments := ← ofJson value }
  | "values" => return { s with values := ← ofJson value }
  | "jobTemplate" => return { s with jobTemplate := ← ofJson value }
  | "approximateRuntime" => return { s with approximateRuntime := ← ofJson value }
  | "startTimeOffset" => return { s with startTimeOffset := ← ofJson value }
  | _ => return s

def fields : List String :=
  ["experimentRef", "assignments", "values", "jobTemplate", "approximateRuntime",
    "startTimeOffset"]

instance : Record TrialSpec where
  toJson s := .object (optionMember "experimentRef" s.experiment ++
    listMember "assignments" s.assignments ++ listMember "values" s.values ++
    optionMember "jobTemplate" s.jobTemplate ++
    optionMember "approximateRuntime" s.approximateRuntime ++
    optionMember "startTimeOffset" s.startTimeOffset)
  ofJson := read take {} fields []

end TrialSpec

namespace TrialAspect

def toText : TrialAspect → String
  | complete => "Complete"
  | failed => "Failed"
  | patched => "Patched"
  | ready => "Ready"
  | observed => "Observed"

instance : Record TrialAspect where
  toJson aspect := .string aspect.toText
  ofJson := readName
    ([complete, failed, patched, ready, observed].map fun aspect => (aspect.toText, aspect))

end TrialAspect

namespace TrialStatus

def take (s : TrialStatus) (key : String) (value : Json) : Decoded TrialStatus :=
  match key with
  | "phase" => return { s with phase := ← ofJson value }
  | "assignments" => return { s with assignments := ← ofJson value }
  | "values" => return { s with values := ← ofJson value }
  | "startTime" => return { s with startTime := ← ofJson value }
  | "completionTime" => return { s with completionTime := ← ofJson value }
  | "conditions" => return { s with conditions := ← ofJson value }
  | "patchOperations" => return { s with patchOperations := ← ofJson value }
  | _ => return s

def fields : List String :=
  ["phase", "assignments", "values", "startTime", "completionTime", "conditions",
    "patchOperations"]

instance : Record TrialStatus where
  toJson s := .object (textMember "phase" s.phase ++ textMember "assignments" s.assignments ++
    textMember "values" s.values ++ optionMember "startTime" s.startTime ++
    optionMember "completionTime" s.completionTime ++ listMember "conditions" s.conditions ++
    listMember "patchOperations" s.patchOperations)
  ofJson := read take {} fields []

end TrialStatus

namespace Trial

def take (t : Trial) (key : String) (value : Json) : Decoded Trial :=
  match key with
  | "apiVersion" => return { t with apiVersion := ← ofJson value }
  | "kind" => return { t with kind := ← ofJson value }
  | "metadata" => return { t with metadata := ← ofJson value }
  | "spec" => return { t with spec := ← ofJson value }
  | "status" => return { t with status := ← ofJson value }
  | _ => return t

instance : Record Trial where
  toJson t := .object (member "apiVersion" t.apiVersion ++ member "kind" t.kind ++
    member "metadata" t.metadata ++ member "spec" t.spec ++ member "status" t.status)
  ofJson := read take {} ["apiVersion", "kind", "metadata", "spec", "status"]
    ["apiVersion", "kind"]

def name (t : Trial) : String :=
  t.metadata.name

/-- The name of the experiment that the trial belongs to. -/
def experimentName (t : Trial) : String :=
  let labelled := (t.metadata.labels.get? Vocabulary.experimentLabel).getD ""
  match t.spec.experiment with
  | some r => if r.name.isEmpty then labelled else r.name
  | none => labelled

/-- The value of the first assignment to that parameter. -/
def assignment? (t : Trial) (name : String) : Option IntOrString :=
  (t.spec.assignments.find? fun a => a.name == name).map Assignment.value

def findCondition? (t : Trial) (aspect : TrialAspect) : Option (Condition TrialAspect) :=
  t.status.conditions.find? fun c => c.type == aspect && c.status == .holds

def hasCondition (t : Trial) (aspect : TrialAspect) : Bool :=
  (t.findCondition? aspect).isSome

def failure? (t : Trial) : Option (Condition TrialAspect) :=
  t.findCondition? .failed

def applyCondition (t : Trial) (aspect : TrialAspect) (status : ConditionStatus)
    (reason message : String) (time : Option Timestamp) : Trial :=
  let conditions := Condition.apply aspect status reason message time t.status.conditions
  { t with status := { t.status with conditions } }

/-- How far the trial has come. -/
def phase (t : Trial) : String :=
  if t.hasCondition .failed then "Failed"
  else if t.hasCondition .complete then "Completed"
  else if t.hasCondition .ready then "Running"
  else if t.hasCondition .patched then "Patched"
  else "Created"

/-- Write the summaries for human readers. -/
def updateStatus (t : Trial) : Trial :=
  let assignments := t.spec.assignments.map fun a => a.name ++ "=" ++ a.value.toText
  let values := t.spec.values.map fun v => v.name ++ "=" ++ v.value
  { t with status := { t.status with
      assignments := Text.joined ", " assignments
      values := Text.joined ", " values
      phase := t.phase } }

/-- The name of the trial's job: the one of its template, or else the trial's own. -/
def jobName (t : Trial) : String :=
  match t.spec.jobTemplate with
  | some template => if template.metadata.name.isEmpty then t.name else template.metadata.name
  | none => t.name

/-- The reference to the trial's job, whether or not that exists yet. -/
def jobReference (t : Trial) : ObjectReference :=
  { apiVersion := "batch/v1", kind := "Job", namespaceName := t.metadata.namespaceName,
    name := t.jobName }

/-- The reference points to the trial's job. It may leave out the version and the namespace. -/
def isJobReference (t : Trial) (target : ObjectReference) : Bool :=
  target.kind == "Job" && (target.apiVersion.isEmpty || target.apiVersion == "batch/v1") &&
    (target.namespaceName.isEmpty || target.namespaceName == t.metadata.namespaceName) &&
    match t.spec.jobTemplate with
    | some template =>
      if template.metadata.name.isEmpty then namedLikeTrial else template.metadata.name == target.name
    | none => namedLikeTrial
where
  namedLikeTrial : Bool := !target.name.isEmpty && target.name == t.name

end Trial

end WorkloadTuning
