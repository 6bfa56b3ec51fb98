import WorkloadTuning.Json.Record
import WorkloadTuning.Json.Text
import WorkloadTuning.Text.Blank
import WorkloadTuning.Text.Cut
import WorkloadTuning.Text.Integer

/-! Resource quantities such as `500m`, `1.5`, `512Mi` or `1e3`. A quantity keeps its text and its
value in thousandths, rounded up; the arithmetic runs within 128 bits, and a step that leaves them
is an error of its own. -/

namespace WorkloadTuning

structure Quantity where
  text : String
  milli : Int
deriving DecidableEq, Repr, Inhabited

inductive QuantityError where
  | empty (text : String)
  | notANumber (text : String)
  | tooLarge (text : String)
  | unknownSuffix (text suffix : String)
  | outOfRange
deriving DecidableEq, Repr

def QuantityError.message : QuantityError → String
  | empty text => s!"quantity '{text}' is empty or has no digits"
  | notANumber text => s!"quantity '{text}' is not a number"
  | tooLarge text => s!"quantity '{text}' is too large"
  | unknownSuffix text suffix => s!"quantity '{text}' has an unknown suffix '{suffix}'"
  | outOfRange => "arithmetic out of range"

namespace Quantity

def mebi : Int := 1048576

/-- The value less its unit in a decimal exponent suffix such as `e3` or `E-2`. -/
def exponentRatio? (exponent : List Char) : Option (Int × Int) := do
  let e ← Text.readInt? exponent
  if 18 < e.natAbs then none
  return if 0 ≤ e then (1000 * tenTo e.natAbs, 1) else (1000, tenTo e.natAbs)

/-- The thousandths in one unit of the suffix, as numerator and denominator. -/
def suffixRatio? (suffix : String) : Option (Int × Int) :=
  match suffix with
  | "n" => some (1, 1000000)
  | "u" => some (1, 1000)
  | "m" => some (1, 1)
  | "" => some (1000, 1)
  | "k" => some (1000000, 1)
  | "M" => some (1000000000, 1)
  | "G" => some (1000000000000, 1)
  | "T" => some (1000000000000000, 1)
  | "P" => some (1000000000000000000, 1)
  | "E" => some (1000000000000000000000, 1)
  | "Ki" => some (1000 * 1024, 1)
  | "Mi" => some (1000 * 1048576, 1)
  | "Gi" => some (1000 * 1073741824, 1)
  | "Ti" => some (1000 * 1099511627776, 1)
  | "Pi" => some (1000 * 1125899906842624, 1)
  | "Ei" => some (1000 * 1152921504606846976, 1)
  | _ =>
    match suffix.toList with
    | 'e' :: exponent | 'E' :: exponent => exponentRatio? exponent
    | _ => none

/-- The integer, if it has a place in 128 bits. -/
def within128? (i : Int) : Option Int :=
  if fitsInt128 i then some i else none

/-- The quotient rounded up, for a positive divisor. The divisor is added before the division, and
that sum must stay within 128 bits. -/
def ceilDiv? (a b : Int) : Option Int :=
  if 0 ≤ a then (within128? (a + b)).map fun sum => (sum - 1) / b
  else some (a.tdiv b)

/-- A quantity's text in parts: its sign, the digits before and after the point, and its suffix. -/
structure Parts where
  negative : Bool
  whole : List Char
  fraction : List Char
  suffix : List Char
deriving DecidableEq, Repr

def isNumberChar (c : Char) : Bool :=
  Text.isDigit c || c == '.'

def Parts.ofText (trimmed : List Char) : Parts :=
  let (negative, unsigned) :=
    match trimmed with
    | '-' :: rest => (true, rest)
    | '+' :: rest => (false, rest)
    | rest => (false, rest)
  let number := unsigned.takeWhile isNumberChar
  let (whole, fraction) := (Text.cut? ['.'] number).getD (number, [])
  { negative, whole, fraction, suffix := unsigned.dropWhile isNumberChar }

/-- The number of digits behind the point, as it is kept in 32 bits. -/
def Parts.places (parts : Parts) : Nat :=
  parts.fraction.length % 4294967296

/-- Thousandths of `digits / 10 ^ places` units, for a unit of `num / den` thousandths. -/
def scaledMilli (text : String) (digits places : Nat) (num den : Int) : Except QuantityError Int :=
  match within128? (digits * num), within128? (tenTo places * den) with
  | some numerator, some denominator =>
    match ceilDiv? numerator denominator with
    | some milli => .ok milli
    | none => .error .outOfRange
  | _, _ => .error (.tooLarge text)

def parse (text : String) : Except QuantityError Quantity := do
  let trimmed := Text.trim text.toList
  let parts := Parts.ofText trimmed
  if parts.whole.isEmpty && parts.fraction.isEmpty then throw (.empty text)
  if parts.fraction.contains '.' then throw (.notANumber text)
  let digits := Text.digitsValue (parts.whole ++ parts.fraction)
  let places := parts.places
  if (within128? digits).isNone || (within128? (tenTo places)).isNone then throw (.tooLarge text)
  let suffix := String.ofList parts.suffix
  let some (num, den) := suffixRatio? suffix | throw (.unknownSuffix text suffix)
  let milli ← scaledMilli text digits places num den
  return { text := String.ofList trimmed, milli := if parts.negative then -milli else milli }

/-- The quantity of that many thousandths, for example `1500m`. -/
def ofMilli (milli : Int) : Quantity :=
  { text := toString milli ++ "m", milli }

/-- Thousandths, kept within 64 bits. -/
def milliValue (q : Quantity) : Int :=
  clampInt64 q.milli

/-- Whole units, rounded up and kept within 64 bits. -/
def value? (q : Quantity) : Option Int :=
  (ceilDiv? q.milli 1000).map clampInt64

/-- Units of `2 ^ 20`, rounded up and kept within 64 bits. -/
def mebiValue? (q : Quantity) : Option Int :=
  (ceilDiv? q.milli (1000 * mebi)).map clampInt64

/-- The number of units of the suffix, if that is a whole number of 64 bits. -/
def exactValue? (q : Quantity) (suffix : String) : Option Int := do
  let (num, den) ← suffixRatio? suffix
  let scaled ← within128? (q.milli * den)
  if scaled % num ≠ 0 then none
  let units := scaled / num
  if fitsInt64 units then return units else none

def isZero (q : Quantity) : Bool :=
  q.milli == 0

/-- Quantities are compared by value, whatever their texts. -/
def same (a b : Quantity) : Bool :=
  a.milli == b.milli

def decodeError : QuantityError → DecodeError
  | .outOfRange => .outOfRange
  | _ => .malformed

/-- A quantity may be written as a text or as a number. -/
def ofJson : Json → Decoded Quantity
  | .string s => (parse s).mapError decodeError
  | .number n => (parse n.toText).mapError decodeError
  | _ => .error .malformed

instance : Record Quantity where
  toJson q := .string q.text
  ofJson := ofJson

end Quantity

end WorkloadTuning
