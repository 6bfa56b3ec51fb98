import WorkloadTuning.Decimal.Reader
import WorkloadTuning.Json.Record

/-! Durations such as `1h30m` or `1.5s`. The units are summed in double precision, and the sum is
rounded to whole nanoseconds; durations end before `2 ^ 64` seconds. -/

namespace WorkloadTuning

structure Duration where
  nanoseconds : Nat
deriving DecidableEq, Repr, Inhabited

inductive DurationError where
  | invalid (text : String)
  | outOfRange
deriving DecidableEq, Repr

def DurationError.message : DurationError → String
  | invalid text => s!"invalid duration '{text}'"
  | outOfRange => "arithmetic out of range"

namespace Duration

def zero : Duration := ⟨0⟩

def nanosecondsPerSecond : Nat := 1000000000

def ofSeconds (seconds : Nat) : Duration :=
  ⟨seconds * nanosecondsPerSecond⟩

/-- The first number of nanoseconds that is too many. -/
def limit : Nat := 18446744073709551616 * nanosecondsPerSecond

def ofNanoseconds? (n : Nat) : Option Duration :=
  if n < limit then some ⟨n⟩ else none

def add? (a b : Duration) : Option Duration :=
  ofNanoseconds? (a.nanoseconds + b.nanoseconds)

def isZero (d : Duration) : Bool :=
  d.nanoseconds == 0

/-- A number of seconds as a duration, rounded to the nearest nanosecond, a tie to the even one. -/
def ofBinary64? : Binary64 → Option Duration
  | .finite negative m e =>
    let (num, den) := Binary64.ratio m e
    if negative && m != 0 then none else ofNanoseconds? (roundHalfEven (num * nanosecondsPerSecond) den)
  | _ => none

/-- Seconds in one unit. -/
def unitSeconds? (unit : List Char) : Option Binary64 :=
  match String.ofList unit with
  | "ns" => some (.ofDecimal false 1 (-9))
  | "us" | "µs" => some (.ofDecimal false 1 (-6))
  | "ms" => some (.ofDecimal false 1 (-3))
  | "s" => some (.ofNat 1)
  | "m" => some (.ofNat 60)
  | "h" => some (.ofNat 3600)
  | _ => none

def isNumberChar (c : Char) : Bool :=
  Text.isDigit c || c == '.'

/-- Add up numbers with units from the front of the text. -/
def sumFrom (total : Binary64) (s : List Char) : Option Binary64 :=
  match s with
  | [] => some total
  | c :: rest =>
    if isNumberChar c then
      let number := c :: rest.takeWhile isNumberChar
      let tail := rest.dropWhile isNumberChar
      let unit := tail.takeWhile fun c => !isNumberChar c
      match Binary64.ofDigits? false number, unitSeconds? unit with
      | some n, some scale => sumFrom (total.add (n.mul scale)) (tail.drop unit.length)
      | _, _ => none
    else none
termination_by s.length
decreasing_by
  have : (rest.dropWhile isNumberChar).length ≤ rest.length := (List.dropWhile_suffix _).length_le
  simp only [List.length_cons, List.length_drop]
  omega

def parse (text : String) : Except DurationError Duration :=
  if text = "0" then .ok zero
  else if text.isEmpty then .error (.invalid text)
  else
    match sumFrom Binary64.zero text.toList with
    | none => .error (.invalid text)
    | some seconds =>
      match ofBinary64? seconds with
      | some d => .ok d
      | none => .error .outOfRange

def seconds (d : Duration) : Nat :=
  d.nanoseconds / nanosecondsPerSecond

/-- Three digits less the zeros at their end. -/
def millisText (millis : Nat) : String :=
  let digits := (Nat.toDigits 10 (1000 + millis)).drop 1
  String.ofList (digits.reverse.dropWhile (· == '0')).reverse

/-- Hours and minutes where there are any, and seconds to the millisecond. -/
def toText (d : Duration) : String :=
  let secs := d.seconds
  let millis := d.nanoseconds % nanosecondsPerSecond / 1000000
  let (h, m, s) := (secs / 3600, secs % 3600 / 60, secs % 60)
  let fraction := if 0 < millis then "." ++ millisText millis else ""
  let rest := toString s ++ fraction ++ "s"
  if 0 < h then toString h ++ "h" ++ toString m ++ "m" ++ rest
  else if 0 < m then toString m ++ "m" ++ rest
  else rest

/-- The seconds in double precision: whole seconds and the fraction, rounded each and added. -/
def toBinary64 (d : Duration) : Binary64 :=
  (Binary64.ofNat d.seconds).add
    ((Binary64.ofNat (d.nanoseconds % nanosecondsPerSecond)).div
      (Binary64.ofNat nanosecondsPerSecond))

/-- Whole seconds nearest to the duration in double precision, a tie to the even one. -/
def roundedSeconds (d : Duration) : Nat :=
  match d.toBinary64 with
  | .finite _ m e =>
    let (num, den) := Binary64.ratio m e
    roundHalfEven num den
  | _ => 0

def decodeError : DurationError → DecodeError
  | .invalid _ => .malformed
  | .outOfRange => .outOfRange

instance : Record Duration where
  toJson d := .string d.toText
  ofJson json := do (parse (← Record.orMalformed json.asString?)).mapError decodeError

end Duration

end WorkloadTuning
