import WorkloadTuning.Application.Latency
import WorkloadTuning.Experiment.Metric
import WorkloadTuning.Quantity

/-! Objectives: what an application is optimized for. Well known names stand for a measure. -/

namespace WorkloadTuning

open Record

/-- Measured by the resources that the application requests, weighted. -/
structure RequestsObjective where
  weights : Option (Dict Quantity) := none
deriving DecidableEq, Repr, Inhabited

structure LatencyObjective where
  latencyType : Latency := .mean
deriving DecidableEq, Repr, Inhabited

structure Objective where
  name : String := ""
  requests : Option RequestsObjective := none
  latency : Option LatencyObjective := none
deriving DecidableEq, Repr, Inhabited

namespace RequestsObjective

def take (o : RequestsObjective) (key : String) (value : Json) : Decoded RequestsObjective :=
  match key with
  | "weights" => return { o with weights := ← ofJson value }
  | _ => return o

instance : Record RequestsObjective where
  toJson o := .object (optionMember "weights" o.weights)
  ofJson := read take {} ["weights"] []

end RequestsObjective

namespace LatencyObjective

def take (o : LatencyObjective) (key : String) (value : Json) : Decoded LatencyObjective :=
  match key with
  | "latencyType" => return { o with latencyType := ← ofJson value }
  | _ => return o

instance : Record LatencyObjective where
  toJson o := .object (member "latencyType" o.latencyType)
  ofJson := read take {} ["latencyType"] ["latencyType"]

end LatencyObjective

namespace Objective

def take (o : Objective) (key : String) (value : Json) : Decoded Objective :=
  match key with
  | "name" => return { o with name := ← ofJson value }
  | "requests" => return { o with requests := ← ofJson value }
  | "latency" => return { o with latency := ← ofJson value }
  | _ => return o

instance : Record Objective where
  toJson o := .object (textMember "name" o.name ++ optionMember "requests" o.requests ++
    optionMember "latency" o.latency)
  ofJson := read take {} ["name", "requests", "latency"] []

/-- Whole units of a resource. -/
def units (n : Nat) : Quantity :=
  { text := toString n, milli := n * 1000 }

/-- The weights that a well known name stands for. -/
def knownWeights? (name : String) : Option (List (String × Quantity)) :=
  match Text.lower name with
  | "cost" => some [("cpu", units 17), ("memory", units 3)]
  | "cost-gcp" | "gcp-cost" => some [("cpu", units 17), ("memory", units 2)]
  | "cost-aws" | "aws-cost" => some [("cpu", units 18), ("memory", units 5)]
  | "cpu-requests" | "cpu" => some [("cpu", units 1)]
  | "memory-requests" | "memory" => some [("memory", units 1)]
  | _ => none

/-- Fill in the weights that are not given. An objective that is measured in another way stays as
it is. -/
def withWeights (o : Objective) (defaults : List (String × Quantity)) : Objective :=
  if o.requests.isNone && o.latency.isSome then o
  else
    let given := (o.requests.bind RequestsObjective.weights).getD Dict.empty
    let weights := defaults.foldl (fun d (key, weight) => d.insertIfNew key weight) given
    { o with requests := some { weights := some weights } }

def withLatency (o : Objective) (latency : Latency) : Objective :=
  if o.requests.isNone && o.latency.isNone then { o with latency := some ⟨latency⟩ } else o

/-- A name for an objective that has none, after its measure. -/
def withName (o : Objective) : Objective :=
  if !o.name.isEmpty then o
  else if o.requests.isSome then { o with name := "requests" }
  else
    match o.latency with
    | some l => { o with name := "latency-" ++ l.latencyType.toText }
    | none => o

/-- The latency that a name with or without the word `latency` stands for. -/
def latencyOfName? (name : String) : Option Latency :=
  Latency.parseLoose? (String.ofList (Text.without "latency".toList name.toList))

/-- Fill in what the name implies, and a name if there is none. -/
def applyDefaults (o : Objective) : Objective :=
  match knownWeights? o.name with
  | some weights => o.withWeights weights
  | none =>
    let o :=
      match latencyOfName? o.name with
      | some latency => o.withLatency latency
      | none => o
    let o :=
      if o.requests.any fun r => r.weights.isNone then
        o.withWeights [("cpu", units 1), ("memory", units 1)]
      else o
    o.withName

/-- The metric that measures the objective. -/
def metric? (o : Objective) : Option Metric :=
  match o.requests, o.latency with
  | some requests, _ =>
    let weights := (requests.weights.getD Dict.empty).entries.map fun (key, weight) =>
      key ++ "=" ++ weight.text
    some { name := o.name, minimize := true, type := .kubernetes
           query := "\x7b\x7b resourceRequests .Target \"" ++ Text.joined "," weights ++
             "\" \x7d\x7d" }
  | none, some latency =>
    some { name := o.name, minimize := true, type := .prometheus
           query := "scalar(latency_milliseconds\x7btype=\"" ++ latency.latencyType.toText ++
             "\",job=\"trialRun\"\x7d)" }
  | none, none => none

end Objective

end WorkloadTuning
