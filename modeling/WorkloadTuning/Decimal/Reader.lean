import WorkloadTuning.Decimal.Binary64
import WorkloadTuning.Text.Integer

/-! Reading numbers of double precision from text, rounded to the nearest. -/

namespace WorkloadTuning.Binary64

open Text (isDigit digitsValue readInt?)

/-- The words for what has no digits, in any letter case. -/
def ofWord? (negative : Bool) (s : List Char) : Option Binary64 :=
  match String.ofList (s.map Char.toLower) with
  | "inf" | "infinity" => some (infinite negative)
  | "nan" => some nan
  | _ => none

/-- The exponent that ends a number, with its mark; nothing at all is zero. -/
def readExponent? : List Char → Option Int
  | [] => some 0
  | 'e' :: rest | 'E' :: rest => readInt? rest
  | _ => none

/-- Digits with at most one point, at least one digit, and an optional exponent. -/
def ofDigits? (negative : Bool) (s : List Char) : Option Binary64 := do
  let whole := s.takeWhile isDigit
  let rest := s.dropWhile isDigit
  let (fraction, rest) :=
    match rest with
    | '.' :: rest => (rest.takeWhile isDigit, rest.dropWhile isDigit)
    | rest => ([], rest)
  let digits := whole ++ fraction
  if digits.isEmpty then none
  let exponent ← readExponent? rest
  return ofDecimal negative (digitsValue digits) (exponent - fraction.length)

def readUnsigned? (negative : Bool) (s : List Char) : Option Binary64 :=
  (ofWord? negative s).or (ofDigits? negative s)

/-- The number that the whole text writes, with an optional sign. -/
def read? (text : String) : Option Binary64 :=
  match text.toList with
  | '-' :: rest => readUnsigned? true rest
  | '+' :: rest => readUnsigned? false rest
  | s => readUnsigned? false s

end WorkloadTuning.Binary64
