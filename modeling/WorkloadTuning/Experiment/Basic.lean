import WorkloadTuning.Experiment.Constraint
import WorkloadTuning.Experiment.Metric
import WorkloadTuning.Experiment.Parameter
import WorkloadTuning.Trial.Basic

/-! Experiments: what is tuned, what is measured, and how the trials look. -/

namespace WorkloadTuning

open Record

structure TrialTemplate where
  metadata : Metadata := {}
  spec : TrialSpec := {}
deriving DecidableEq, Repr, Inhabited

structure ExperimentSpec where
  /-- Trials that may run at the same time; with none, the experiment is paused. -/
  replicas : Option Int32 := none
  parameters : List Parameter := []
  constraints : List Constraint := []
  metrics : List Metric := []
  optimization : List Optimization := []
  patches : List PatchTemplate := []
  trialTemplate : TrialTemplate := {}
deriving DecidableEq, Repr, Inhabited

inductive ExperimentAspect where
  | complete
  | failed
deriving DecidableEq, Repr

structure ExperimentStatus where
  conditions : List (Condition ExperimentAspect) := []
  phase : String := ""
deriving DecidableEq, Repr, Inhabited

structure Experiment where
  apiVersion : String := Vocabulary.apiVersion
  kind : String := "Experiment"
  metadata : Metadata := {}
  spec : ExperimentSpec := {}
  status : ExperimentStatus := {}
deriving DecidableEq, Repr, Inhabited

namespace TrialTemplate

def take (t : TrialTemplate) (key : String) (value : Json) : Decoded TrialTemplate :=
  match key with
  | "metadata" => return { t with metadata := ← ofJson value }
  | "spec" => return { t with spec := ← ofJson value }
  | _ => return t

instance : Record TrialTemplate where
  toJson t := .object (member "metadata" t.metadata ++ member "spec" t.spec)
  ofJson := read take {} ["metadata", "spec"] []

end TrialTemplate

namespace ExperimentSpec

def take (s : ExperimentSpec) (key : String) (value : Json) : Decoded ExperimentSpec :=
  match key with
  | "replicas" => return { s with replicas := ← ofJson value }
  | "parameters" => return { s with parameters := ← ofJson value }
  | "constraints" => return { s with constraints := ← ofJson value }
  | "metrics" => return { s with metrics := ← ofJson value }
  | "optimization" => return { s with optimization := ← ofJson value }
  | "patches" => return { s with patches := ← ofJson value }
  | "trialTemplate" => return { s with trialTemplate := ← ofJson value }
  | _ => return s

def fields : List String :=
  ["replicas", "parameters", "constraints", "metrics", "optimization", "patches",
    "trialTemplate"]

instance : Record ExperimentSpec where
  toJson s := .object (optionMember "replicas" s.replicas ++ listMember "parameters" s.parameters ++
    listMember "constraints" s.constraints ++ listMember "metrics" s.metrics ++
    listMember "optimization" s.optimization ++ listMember "patches" s.patches ++
    member "trialTemplate" s.trialTemplate)
  ofJson := read take {} fields []

end ExperimentSpec

namespace ExperimentAspect

def toText : ExperimentAspect → String
  | complete => "Complete"
  | failed => "Failed"

instance : Record ExperimentAspect where
  toJson aspect := .string aspect.toText
  ofJson := readName ([complete, failed].map fun aspect => (aspect.toText, aspect))

end ExperimentAspect

namespace ExperimentStatus

def take (s : ExperimentStatus) (key : String) (value : Json) : Decoded ExperimentStatus :=
  match key with
  | "conditions" => return { s with conditions := ← ofJson value }
  | "phase" => return { s with phase := ← ofJson value }
  | _ => return s

instance : Record ExperimentStatus where
  toJson s := .object (listMember "conditions" s.conditions ++ textMember "phase" s.phase)
  ofJson := read take {} ["conditions", "phase"] []

end ExperimentStatus

namespace Experiment

def take (e : Experiment) (key : String) (value : Json) : Decoded Experiment :=
  match key with
  | "apiVersion" => return { e with apiVersion := ← ofJson value }
  | "kind" => return { e with kind := ← ofJson value }
  | "metadata" => return { e with metadata := ← ofJson value }
  | "spec" => return { e with spec := ← ofJson value }
  | "status" => return { e with status := ← ofJson value }
  | _ => return e

instance : Record Experiment where
  toJson e := .object (member "apiVersion" e.apiVersion ++ member "kind" e.kind ++
    member "metadata" e.metadata ++ member "spec" e.spec ++ member "status" e.status)
  ofJson := read take {} ["apiVersion", "kind", "metadata", "spec", "status"]
    ["apiVersion", "kind"]

def named (name : String) : Experiment :=
  { metadata := { name } }

def name (e : Experiment) : String :=
  e.metadata.name

/-- Trials that may run at the same time, one if nothing is said. -/
def replicas (e : Experiment) : Int32 :=
  e.spec.replicas.getD 1

def setReplicas (e : Experiment) (replicas : Int32) : Experiment :=
  { e with spec := { e.spec with replicas := some replicas } }

def parameter? (e : Experiment) (name : String) : Option Parameter :=
  e.spec.parameters.find? fun p => p.name == name

def applyCondition (e : Experiment) (aspect : ExperimentAspect) (status : ConditionStatus)
    (reason message : String) (time : Option Timestamp) : Experiment :=
  let conditions := Condition.apply aspect status reason message time e.status.conditions
  { e with status := { e.status with conditions } }

def isFailed (e : Experiment) : Bool :=
  e.status.conditions.any fun c => c.type == .failed && c.status == .holds

/-- The reference to the experiment itself. -/
def reference (e : Experiment) : ObjectReference :=
  { apiVersion := e.apiVersion, kind := e.kind, namespaceName := e.metadata.namespaceName,
    name := e.metadata.name }

/-- A new trial from the template: labelled with the experiment, and completed with a generated
name, the namespace and a reference to the experiment where the template leaves them open. -/
def newTrial (e : Experiment) : Trial :=
  let template := e.spec.trialTemplate
  let metadata := template.metadata.setLabel Vocabulary.experimentLabel e.metadata.name
  let generateName :=
    if metadata.generateName.isEmpty then e.metadata.name ++ "-" else metadata.generateName
  let namespaceName :=
    if metadata.namespaceName.isEmpty then e.metadata.namespaceName else metadata.namespaceName
  { metadata := { metadata with generateName, namespaceName }
    spec := { template.spec with
      experiment := template.spec.experiment.or (some e.reference) } }

end Experiment

end WorkloadTuning
