import WorkloadTuning.Json.Record
import WorkloadTuning.Text.Blank
import WorkloadTuning.Text.Integer

/-! Points in time, read with an offset from universal time and written in it. -/

namespace WorkloadTuning

/-- Calendar date and time of day in universal time. The second is 60 in a leap second. -/
structure Timestamp where
  year : Int
  month : Nat
  day : Nat
  hour : Nat
  minute : Nat
  second : Nat
  nanosecond : Nat
deriving DecidableEq, Repr, Inhabited

namespace Timestamp

def isLeapYear (year : Int) : Bool :=
  year % 4 == 0 && (year % 100 != 0 || year % 400 == 0)

def daysInMonth (year : Int) (month : Nat) : Nat :=
  if month = 2 then if isLeapYear year then 29 else 28
  else if month ∈ [4, 6, 9, 11] then 30
  else 31

/-- Days since the first of March of year zero, in the calendar extended to all years. -/
def dayNumber (year : Int) (month day : Nat) : Int :=
  let y := if month ≤ 2 then year - 1 else year
  let m := (month + 9) % 12
  365 * y + y / 4 - y / 100 + y / 400 + (153 * m + 2) / 5 + day - 1

/-- The date of a day number: year, month and day. -/
def dateOf (number : Int) : Int × Nat × Nat :=
  let era := number / 146097
  let ofEra := (number % 146097).toNat
  let yearOfEra := (ofEra - ofEra / 1460 + ofEra / 36524 - ofEra / 146096) / 365
  let ofYear := ofEra - (365 * yearOfEra + yearOfEra / 4 - yearOfEra / 100)
  let m := (5 * ofYear + 2) / 153
  let month := if m < 10 then m + 3 else m - 9
  let year := yearOfEra + era * 400 + if month ≤ 2 then 1 else 0
  (year, month, ofYear - (153 * m + 2) / 5 + 1)

def minYear : Int := -262143

def maxYear : Int := 262142

/-- Move by minutes, over the ends of days as needed. -/
def addMinutes (t : Timestamp) (minutes : Int) : Timestamp :=
  let total := t.hour * 60 + t.minute + minutes
  let (year, month, day) := dateOf (dayNumber t.year t.month t.day + total / 1440)
  let ofDay := (total % 1440).toNat
  { t with year, month, day, hour := ofDay / 60, minute := ofDay % 60 }

def isValid (t : Timestamp) : Bool :=
  minYear ≤ t.year && t.year ≤ maxYear && 1 ≤ t.month && t.month ≤ 12 && 1 ≤ t.day &&
    t.day ≤ daysInMonth t.year t.month && t.hour < 24 && t.minute < 60 && t.second ≤ 60

/-! ### Reading -/

/-- From one to that many digits, after blanks. -/
def readField? (most : Nat) (s : List Char) : Option (Nat × List Char) :=
  let s := Text.trimStart s
  let digits := (s.takeWhile Text.isDigit).take most
  if digits.isEmpty then none else some (Text.digitsValue digits, s.drop digits.length)

/-- A year has up to four digits, or any number of them after a sign. -/
def readYear? (s : List Char) : Option (Int × List Char) :=
  match Text.trimStart s with
  | '-' :: rest => signed (-1) rest
  | '+' :: rest => signed 1 rest
  | s => (readField? 4 s).map fun (year, rest) => ((year : Int), rest)
where
  signed (sign : Int) (s : List Char) : Option (Int × List Char) :=
    let digits := s.takeWhile Text.isDigit
    if digits.isEmpty then none
    else some (sign * Text.digitsValue digits, s.drop digits.length)

def expect? (c : Char) (s : List Char) : Option (List Char) :=
  match Text.trimStart s with
  | d :: rest => if c = d then some rest else none
  | [] => none

/-- A fraction of a second; digits after the ninth are dropped. -/
def readFraction? : List Char → Option (Nat × List Char)
  | '.' :: rest =>
    let all := rest.takeWhile Text.isDigit
    let digits := all.take 9
    if digits.isEmpty then none
    else some (Text.digitsValue digits * tenTo (9 - digits.length), rest.drop all.length)
  | rest => some (0, rest)

def isColonOrBlank (c : Char) : Bool :=
  c == ':' || Text.isBlank c

/-- Hours and minutes of an offset, in minutes. -/
def readOffset? (sign : Int) : List Char → Option (Int × List Char)
  | a :: b :: rest =>
    match Text.readNat? [a, b], rest.dropWhile isColonOrBlank with
    | some hours, c :: d :: rest =>
      match Text.readNat? [c, d] with
      | some minutes =>
        if minutes < 60 && hours < 24 then some (sign * (hours * 60 + minutes), rest) else none
      | none => none
    | _, _ => none
  | _ => none

/-- The zone that ends a timestamp, in minutes ahead of universal time. -/
def readZone? (s : List Char) : Option (Int × List Char) :=
  let word := String.ofList ((s.take 3).map Char.toUpper)
  if word = "UTC" then some (0, s.drop 3)
  else
    match s with
    | 'Z' :: rest | 'z' :: rest => some (0, rest)
    | '+' :: rest => readOffset? 1 rest
    | '-' :: rest | '−' :: rest => readOffset? (-1) rest
    | _ => none

/-- The date that starts a timestamp: year, month and day. -/
def readDate? (s : List Char) : Option ((Int × Nat × Nat) × List Char) := do
  let (year, s) ← readYear? s
  let (month, s) ← readField? 2 (← expect? '-' s)
  let (day, s) ← readField? 2 (← expect? '-' s)
  return ((year, month, day), s)

/-- What stands between date and time. -/
def readMark? : List Char → Option (List Char)
  | c :: rest => if c = 'T' ∨ c = 't' ∨ c = ' ' then some rest else none
  | [] => none

/-- The time of day: hour, minute, second and nanosecond. -/
def readTime? (s : List Char) : Option ((Nat × Nat × Nat × Nat) × List Char) := do
  let (hour, s) ← readField? 2 s
  let (minute, s) ← readField? 2 (← expect? ':' s)
  let (second, s) ← readField? 2 (← expect? ':' s)
  let (nanosecond, s) ← readFraction? s
  return ((hour, minute, second, nanosecond), s)

/-- The time where clocks are ahead of universal time by that many minutes. -/
def withOffset? (t : Timestamp) (minutes : Int) : Option Timestamp :=
  if t.isValid then (some (t.addMinutes (-minutes))).filter isValid else none

/-- Date, `T` or a blank, time of day and zone. -/
def parse? (text : String) : Option Timestamp := do
  let ((year, month, day), s) ← readDate? text.toList
  let ((hour, minute, second, nanosecond), s) ← readTime? (← readMark? s)
  let (offset, s) ← readZone? (Text.trimStart s)
  if (Text.trimStart s).isEmpty then
    withOffset? { year, month, day, hour, minute, second, nanosecond } offset
  else none

/-! ### Writing -/

def yearText (year : Int) : String :=
  if 0 ≤ year ∧ year ≤ 9999 then Text.padded 4 year.toNat
  else (if year < 0 then "-" else "+") ++ Text.padded 4 year.natAbs

/-- As few of 0, 3, 6 or 9 digits as are exact. -/
def fractionText (nanosecond : Nat) : String :=
  if nanosecond = 0 then ""
  else if nanosecond % 1000000 = 0 then "." ++ Text.padded 3 (nanosecond / 1000000)
  else if nanosecond % 1000 = 0 then "." ++ Text.padded 6 (nanosecond / 1000)
  else "." ++ Text.padded 9 nanosecond

def toText (t : Timestamp) : String :=
  yearText t.year ++ "-" ++ Text.padded 2 t.month ++ "-" ++ Text.padded 2 t.day ++ "T" ++
    Text.padded 2 t.hour ++ ":" ++ Text.padded 2 t.minute ++ ":" ++ Text.padded 2 t.second ++
    fractionText t.nanosecond ++ "Z"

instance : Record Timestamp where
  toJson t := .string t.toText
  ofJson json := do Record.orMalformed (parse? (← Record.orMalformed json.asString?))

end Timestamp

end WorkloadTuning
