import WorkloadTuning.Experiment.Constraint
import WorkloadTuning.Labels
import WorkloadTuning.Service.Number
import WorkloadTuning.Timestamp

/-! The records that are exchanged with the optimization service. -/

namespace WorkloadTuning.Service

open Record

inductive ParameterType where
  | integer
  | categorical
deriving DecidableEq, Repr, Inhabited

structure Bounds where
  min : Number := .int 0
  max : Number := .int 0
deriving DecidableEq, Repr, Inhabited

structure Parameter where
  type : ParameterType := .integer
  name : String := ""
  bounds : Option Bounds := none
  values : List String := []
deriving DecidableEq, Repr, Inhabited

structure WeightedParameter where
  name : String := ""
  weight : Binary64 := .zero
deriving DecidableEq, Repr, Inhabited

structure SumConstraint where
  isUpperBound : Bool := false
  bound : Binary64 := .zero
  parameters : List WeightedParameter := []
deriving DecidableEq, Repr, Inhabited

inductive ConstraintForm where
  | order (constraint : OrderConstraint)
  | sum (constraint : SumConstraint)
deriving DecidableEq, Repr, Inhabited

structure Constraint where
  name : String := ""
  form : ConstraintForm
deriving DecidableEq, Repr, Inhabited

structure Metric where
  name : String := ""
  minimize : Bool := false
  optimize : Option Bool := none
deriving DecidableEq, Repr, Inhabited

/-- Locations that the service reports beside an experiment; they are no part of its document. -/
structure Locations where
  selfUrl : String := ""
  nextTrialUrl : String := ""
  trialsUrl : String := ""
  lastModified : Option Timestamp := none
deriving DecidableEq, Repr, Inhabited

/-- An experiment as the service knows it. -/
structure Definition where
  locations : Locations := {}
  labels : Labels := Dict.empty
  optimization : List Optimization := []
  parameters : List Parameter := []
  constraints : List Constraint := []
  metrics : List Metric := []
deriving DecidableEq, Repr, Inhabited

structure Assignment where
  parameterName : String := ""
  value : NumberOrString := .string ""
deriving DecidableEq, Repr, Inhabited

/-- Parameter values suggested for a trial. The location to report to is no part of the document. -/
structure Suggestion where
  selfUrl : String := ""
  labels : Labels := Dict.empty
  assignments : List Assignment := []
deriving DecidableEq, Repr, Inhabited

structure MetricValue where
  metricName : String := ""
  value : Binary64 := .zero
  error : Binary64 := .zero
deriving DecidableEq, Repr, Inhabited

/-- What is reported of a trial: its values, or the reason and the message of its failure. -/
structure Report where
  startTime : Option Timestamp := none
  completionTime : Option Timestamp := none
  failed : Bool := false
  failureReason : String := ""
  failureMessage : String := ""
  values : List MetricValue := []
deriving DecidableEq, Repr, Inhabited

namespace ParameterType

def toText : ParameterType → String
  | integer => "int"
  | categorical => "categorical"

instance : Record ParameterType where
  toJson type := .string type.toText
  ofJson := readName ([integer, categorical].map fun type => (type.toText, type))

end ParameterType

namespace Bounds

def take (b : Bounds) (key : String) (value : Json) : Decoded Bounds :=
  match key with
  | "min" => return { b with min := ← ofJson value }
  | "max" => return { b with max := ← ofJson value }
  | _ => return b

instance : Record Bounds where
  toJson b := .object (member "min" b.min ++ member "max" b.max)
  ofJson := read take {} ["min", "max"] ["min", "max"]

end Bounds

namespace Parameter

def take (p : Parameter) (key : String) (value : Json) : Decoded Parameter :=
  match key with
  | "type" => return { p with type := ← ofJson value }
  | "name" => return { p with name := ← ofJson value }
  | "bounds" => return { p with bounds := ← ofJson value }
  | "values" => return { p with values := ← ofJson value }
  | _ => return p

instance : Record Parameter where
  toJson p := .object (member "type" p.type ++ member "name" p.name ++
    optionMember "bounds" p.bounds ++ listMember "values" p.values)
  ofJson := read take {} ["type", "name", "bounds", "values"] ["type", "name"]

end Parameter

namespace WeightedParameter

def take (p : WeightedParameter) (key : String) (value : Json) : Decoded WeightedParameter :=
  match key with
  | "name" => return { p with name := ← ofJson value }
  | "weight" => return { p with weight := ← ofJson value }
  | _ => return p

instance : Record WeightedParameter where
  toJson p := .object (member "name" p.name ++ member "weight" p.weight)
  ofJson := read take {} ["name", "weight"] ["name", "weight"]

end WeightedParameter

namespace SumConstraint

def take (c : SumConstraint) (key : String) (value : Json) : Decoded SumConstraint :=
  match key with
  | "isUpperBound" => return { c with isUpperBound := ← ofJson value }
  | "bound" => return { c with bound := ← ofJson value }
  | "parameters" => return { c with parameters := ← ofJson value }
  | _ => return c

def members (c : SumConstraint) : Members :=
  member "isUpperBound" c.isUpperBound ++ member "bound" c.bound ++
    member "parameters" c.parameters

end SumConstraint

namespace Constraint

/-- Which form of constraint a document announces, by name or by number. -/
def isOrder? : Json → Option Bool
  | .string "order" | .number (.int 0) => some true
  | .string "sum" | .number (.int 1) => some false
  | _ => none

/-- The members of a form stand beside the name and the form's own name. -/
def formMembers : ConstraintForm → Members
  | .order c => member "constraintType" "order" ++ c.members
  | .sum c => member "constraintType" "sum" ++ c.members

def readForm (members : Members) : Decoded ConstraintForm := do
  let isOrder ← orMalformed ((members.get? "constraintType").bind isOrder?)
  let others := members.filter fun (key, _) => key != "name" && key != "constraintType"
  if isOrder then
    .order <$> readMembers OrderConstraint.take {} OrderConstraint.fields others
  else .sum <$> readMembers SumConstraint.take {} ["bound"] others

instance : Record Constraint where
  toJson c := .object (textMember "name" c.name ++ formMembers c.form)
  ofJson json := do
    let members ← orMalformed json.asObject?
    let name ←
      match members.get? "name" with
      | some name => ofJson name
      | none => pure ""
    return { name, form := ← readForm members }

end Constraint

namespace Metric

def take (m : Metric) (key : String) (value : Json) : Decoded Metric :=
  match key with
  | "name" => return { m with name := ← ofJson value }
  | "minimize" => return { m with minimize := ← ofJson value }
  | "optimize" => return { m with optimize := ← ofJson value }
  | _ => return m

instance : Record Metric where
  toJson m := .object (member "name" m.name ++ member "minimize" m.minimize ++
    optionMember "optimize" m.optimize)
  ofJson := read take {} ["name", "minimize", "optimize"] ["name"]

end Metric

namespace Definition

def take (d : Definition) (key : String) (value : Json) : Decoded Definition :=
  match key with
  | "labels" => return { d with labels := ← ofJson value }
  | "optimization" => return { d with optimization := ← ofJson value }
  | "parameters" => return { d with parameters := ← ofJson value }
  | "constraints" => return { d with constraints := ← ofJson value }
  | "metrics" => return { d with metrics := ← ofJson value }
  | _ => return d

def fields : List String :=
  ["labels", "optimization", "parameters", "constraints", "metrics"]

instance : Record Definition where
  toJson d := .object (dictMember "labels" d.labels ++ listMember "optimization" d.optimization ++
    member "parameters" d.parameters ++ listMember "constraints" d.constraints ++
    member "metrics" d.metrics)
  ofJson := read take {} fields []

end Definition

namespace Assignment

def take (a : Assignment) (key : String) (value : Json) : Decoded Assignment :=
  match key with
  | "parameterName" => return { a with parameterName := ← ofJson value }
  | "value" => return { a with value := ← ofJson value }
  | _ => return a

instance : Record Assignment where
  toJson a := .object (member "parameterName" a.parameterName ++ member "value" a.value)
  ofJson := read take {} ["parameterName", "value"] ["parameterName", "value"]

end Assignment

namespace Suggestion

def take (s : Suggestion) (key : String) (value : Json) : Decoded Suggestion :=
  match key with
  | "labels" => return { s with labels := ← ofJson value }
  | "assignments" => return { s with assignments := ← ofJson value }
  | _ => return s

instance : Record Suggestion where
  toJson s := .object (dictMember "labels" s.labels ++ member "assignments" s.assignments)
  ofJson := read take {} ["labels", "assignments"] []

end Suggestion

namespace MetricValue

def take (v : MetricValue) (key : String) (value : Json) : Decoded MetricValue :=
  match key with
  | "metricName" => return { v with metricName := ← ofJson value }
  | "value" => return { v with value := ← ofJson value }
  | "error" => return { v with error := ← ofJson value }
  | _ => return v

instance : Record MetricValue where
  toJson v := .object (member "metricName" v.metricName ++ member "value" v.value ++
    memberUnless v.error.isZero "error" v.error)
  ofJson := read take {} ["metricName", "value", "error"] ["metricName", "value"]

end MetricValue

namespace Report

def take (r : Report) (key : String) (value : Json) : Decoded Report :=
  match key with
  | "startTime" => return { r with startTime := ← ofJson value }
  | "completionTime" => return { r with completionTime := ← ofJson value }
  | "failed" => return { r with failed := ← ofJson value }
  | "failureReason" => return { r with failureReason := ← ofJson value }
  | "failureMessage" => return { r with failureMessage := ← ofJson value }
  | "values" => return { r with values := ← ofJson value }
  | _ => return r

def fields : List String :=
  ["startTime", "completionTime", "failed", "failureReason", "failureMessage", "values"]

instance : Record Report where
  toJson r := .object (optionMember "startTime" r.startTime ++
    optionMember "completionTime" r.completionTime ++ memberUnless (!r.failed) "failed" r.failed ++
    textMember "failureReason" r.failureReason ++ textMember "failureMessage" r.failureMessage ++
    listMember "values" r.values)
  ofJson := read take {} fields []

end Report

end WorkloadTuning.Service
