import WorkloadTuning.Json.Record

/-! Values that are an integer of 32 bits or a text. -/

namespace WorkloadTuning

inductive IntOrString where
  | int (value : Int32)
  | string (value : String)
deriving DecidableEq, Repr, Inhabited

namespace IntOrString

def toText : IntOrString → String
  | int i => toString i.toInt
  | string s => s

def asInt? : IntOrString → Option Int32
  | int i => some i
  | string _ => none

def asString? : IntOrString → Option String
  | int _ => none
  | string s => some s

instance : Record IntOrString where
  toJson
    | int i => Record.toJson i
    | string s => .string s
  ofJson
    | .string s => .ok (.string s)
    | json => IntOrString.int <$> Record.ofJson json

end IntOrString

end WorkloadTuning
