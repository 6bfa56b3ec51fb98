import WorkloadTuning.Json.Record
import WorkloadTuning.Text.Blank
import WorkloadTuning.Text.Case

/-! The latencies that a load test reports. -/

namespace WorkloadTuning

inductive Latency where
  | mean
  | minimum
  | maximum
  | p50
  | p95
  | p99
deriving DecidableEq, Repr

namespace Latency

def toText : Latency → String
  | mean => "mean"
  | minimum => "minimum"
  | maximum => "maximum"
  | p50 => "p50"
  | p95 => "p95"
  | p99 => "p99"

instance : Record Latency where
  toJson latency := .string latency.toText
  ofJson := Record.readName
    ([mean, minimum, maximum, p50, p95, p99].map fun latency => (latency.toText, latency))

def isDash (c : Char) : Bool :=
  c == '-' || c == '_'

/-- The name in lower case, without blanks around it and without dashes. -/
def normalized (name : String) : String :=
  let isEdge := fun c => isDash c || Text.isBlank c
  let core := Text.dropEndWhile isEdge (name.toList.dropWhile isEdge)
  String.ofList ((Text.lower (String.ofList core)).toList.filter fun c => !isDash c)

/-- The latency that a loosely written name means, such as `percentile_95`, `-avg` or `Max`. -/
def parseLoose? (name : String) : Option Latency :=
  match normalized name with
  | "mean" | "average" | "avg" => some mean
  | "minimum" | "min" => some minimum
  | "maximum" | "max" => some maximum
  | "p50" | "percentile50" | "median" => some p50
  | "p95" | "percentile95" => some p95
  | "p99" | "percentile99" => some p99
  | _ => none

end Latency

end WorkloadTuning
