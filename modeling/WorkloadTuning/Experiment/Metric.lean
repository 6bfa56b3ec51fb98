import WorkloadTuning.Json.Record

/-! Metrics: the outcomes that are measured at the end of every trial. -/

namespace WorkloadTuning

inductive MetricType where
  | kubernetes
  | prometheus
  | datadog
  | jsonpath
deriving DecidableEq, Repr, Inhabited

namespace MetricType

def toText : MetricType → String
  | kubernetes => "kubernetes"
  | prometheus => "prometheus"
  | datadog => "datadog"
  | jsonpath => "jsonpath"

instance : Record MetricType where
  toJson type := .string type.toText
  ofJson := Record.readName
    ([kubernetes, prometheus, datadog, jsonpath].map fun type => (type.toText, type))

end MetricType

structure Metric where
  name : String := ""
  minimize : Bool := false
  optimize : Option Bool := none
  type : MetricType := .kubernetes
  query : String := ""
deriving DecidableEq, Repr, Inhabited

namespace Metric

def take (m : Metric) (key : String) (value : Json) : Decoded Metric :=
  match key with
  | "name" => return { m with name := ← Record.ofJson value }
  | "minimize" => return { m with minimize := ← Record.ofJson value }
  | "optimize" => return { m with optimize := ← Record.ofJson value }
  | "type" => return { m with type := ← Record.ofJson value }
  | "query" => return { m with query := ← Record.ofJson value }
  | _ => return m

open Record in
instance : Record Metric where
  toJson m := .object (member "name" m.name ++ member "minimize" m.minimize ++
    optionMember "optimize" m.optimize ++ member "type" m.type ++ textMember "query" m.query)
  ofJson := read take {} ["name", "minimize", "optimize", "type", "query"] ["name"]

end Metric

end WorkloadTuning
