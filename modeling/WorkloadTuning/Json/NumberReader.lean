import WorkloadTuning.Json.Basic
import WorkloadTuning.Text.Integer

/-! Reading JSON numbers. Whole numbers of 64 bits stay exact. The significand of any other number
is what its leading digits give within 64 bits; it is scaled by a power of ten in double precision,
so the last digit of a long number may be off by one. -/

namespace WorkloadTuning.Json

open Text (isDigit digitValue digitsValue)

/-- Append digits to the significand while it fits 64 bits; what is left over comes second. -/
def absorb (significand : Nat) : List Char → Nat × List Char
  | [] => (significand, [])
  | c :: rest =>
    let next := significand * 10 + digitValue c
    if next < 18446744073709551616 then absorb next rest else (significand, c :: rest)

def powerOfTen (k : Nat) : Binary64 :=
  Binary64.ofNat (tenTo k)

/-- Multiply by `10 ^ exponent`, dividing in steps of at most `10 ^ 308`; none if the result is too
large. After two steps nothing is left of a 64-bit significand, so three are enough. -/
def scaleByTen (x : Binary64) (exponent : Int) : Nat → Option Binary64
  | 0 => none
  | steps + 1 =>
    if exponent.natAbs ≤ 308 then
      if 0 ≤ exponent then
        let y := x.mul (powerOfTen exponent.toNat)
        if y.isFinite then some y else none
      else some (x.div (powerOfTen exponent.natAbs))
    else if x.isZero then some x
    else if 0 < exponent then none
    else scaleByTen (x.div (powerOfTen 308)) (exponent + 308) steps

def floatOf (negative : Bool) (significand : Nat) (exponent : Int) : Option Number := do
  let x ← scaleByTen (Binary64.ofNat significand) exponent 4
  return .float (if negative then x.neg else x)

/-- A number without point and exponent. -/
def wholeNumber (negative : Bool) (significand : Nat) : Number :=
  if negative then
    if significand = 0 ∨ 9223372036854775808 < significand then .float (Binary64.ofNat significand).neg
    else .int (-significand)
  else .int significand

/-- The exponent after `e` or `E`: an optional sign and at least one digit. -/
def readExponent (cs : List Char) : Option (Int × List Char) :=
  let (negative, cs) :=
    match cs with
    | '-' :: rest => (true, rest)
    | '+' :: rest => (false, rest)
    | _ => (false, cs)
  let digits := cs.takeWhile isDigit
  if digits.isEmpty then none
  else
    let value := digitsValue digits
    some (if negative then -value else value, cs.dropWhile isDigit)

/-- The number after its sign. -/
def readUnsigned (negative : Bool) (cs : List Char) : Option (Number × List Char) := do
  let whole := cs.takeWhile isDigit
  let rest := cs.dropWhile isDigit
  if whole.isEmpty then none
  if whole.head? = some '0' ∧ 1 < whole.length then none
  let (significand, dropped) := absorb 0 whole
  let finish (significand : Nat) (exponent : Int) (rest : List Char) :
      Option (Number × List Char) := do
    match rest with
    | 'e' :: rest | 'E' :: rest =>
      let (given, rest) ← readExponent rest
      return (← floatOf negative significand (exponent + given), rest)
    | rest => return (← floatOf negative significand exponent, rest)
  match rest with
  | '.' :: rest =>
    let fraction := rest.takeWhile isDigit
    if fraction.isEmpty then none
    let (significand, left) := absorb significand fraction
    finish significand (dropped.length - (fraction.length - left.length : Nat))
      (rest.dropWhile isDigit)
  | 'e' :: _ | 'E' :: _ => finish significand dropped.length rest
  | rest =>
    if dropped.isEmpty then return (wholeNumber negative significand, rest)
    else finish significand dropped.length rest

def readNumber (cs : List Char) : Option (Number × List Char) :=
  match cs with
  | '-' :: rest => readUnsigned true rest
  | _ => readUnsigned false cs

end WorkloadTuning.Json
