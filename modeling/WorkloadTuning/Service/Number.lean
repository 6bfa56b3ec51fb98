import WorkloadTuning.Decimal.Reader
import WorkloadTuning.IntOrString
import WorkloadTuning.Json.Record
import WorkloadTuning.Json.Text

/-! Values that are a number or a text. -/

namespace WorkloadTuning

instance : Record Number where
  toJson := .number
  ofJson
    | .number n => .ok n
    | _ => .error .malformed

instance : Record Binary64 where
  toJson := .ofBinary64
  ofJson
    | .number (.int i) => .ok (.ofInt i)
    | .number (.float x) => .ok x
    | _ => .error .malformed

inductive NumberOrString where
  | number (value : Number)
  | string (value : String)
deriving DecidableEq, Repr, Inhabited

/-- The integer part of a number, kept within 64 bits. -/
def Number.toInt64 : Number → Int
  | int i => clampInt64 i
  | float x => x.truncate (-9223372036854775808) 9223372036854775807

namespace NumberOrString

def ofInt (i : Int) : NumberOrString := number (.int i)

def ofIntOrString : IntOrString → NumberOrString
  | .int i => ofInt i.toInt
  | .string s => string s

/-- The value with its integer kept within 32 bits. -/
def toIntOrString : NumberOrString → IntOrString
  | number n => .int (clampInt32 n.toInt64)
  | string s => .string s

def isString : NumberOrString → Bool
  | number _ => false
  | string _ => true

/-- The value as an integer of 64 bits; a text without a number counts as zero. -/
def toInt64 : NumberOrString → Int
  | number n => n.toInt64
  | string s =>
    match (Text.readInt? s.toList).filter fitsInt64 with
    | some i => i
    | none => ((Binary64.read? s).map fun x => (Number.float x).toInt64).getD 0

def toText : NumberOrString → String
  | number n => n.toText
  | string s => s

instance : Record NumberOrString where
  toJson
    | number n => .number n
    | string s => .string s
  ofJson
    | .number n => .ok (number n)
    | .string s => .ok (string s)
    | _ => .error .malformed

end NumberOrString

end WorkloadTuning
