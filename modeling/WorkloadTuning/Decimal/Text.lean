import WorkloadTuning.Decimal.Shortest

/-! The text of a number of double precision. -/

namespace WorkloadTuning.Binary64

def zeros (n : Nat) : String :=
  String.ofList (List.replicate n '0')

/-- Digits with a point after the first `whole` of them. -/
def pointed (digits : List Char) (whole : Nat) : String :=
  String.ofList (digits.take whole) ++ "." ++ String.ofList (digits.drop whole)

/-- Positional from `0.00001` up to below `10 ^ 16`, always with a point; beyond these with one
digit before the point, if there are others, and a signed exponent. -/
def layout (digits : Nat) (place : Int) : String :=
  let text := Nat.toDigits 10 digits
  let point := text.length + place
  if 0 ≤ place ∧ point ≤ 16 then String.ofList text ++ zeros place.toNat ++ ".0"
  else if 0 < point ∧ point ≤ 16 then pointed text point.toNat
  else if -5 < point ∧ point ≤ 0 then "0." ++ zeros (-point).toNat ++ String.ofList text
  else
    let exponent := point - 1
    let sign := if 0 ≤ exponent then "+" else ""
    let body := if text.length = 1 then String.ofList text else pointed text 1
    body ++ "e" ++ sign ++ toString exponent

/-- The shortest text that reads back as the number. -/
def toText : Binary64 → String
  | nan => "NaN"
  | infinite negative => if negative then "-inf" else "inf"
  | finite negative m e =>
    let sign := if negative then "-" else ""
    if m = 0 then sign ++ "0.0"
    else
      let (digits, place) := shortest m e
      sign ++ layout digits place

end WorkloadTuning.Binary64
