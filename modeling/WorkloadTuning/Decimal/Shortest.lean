import WorkloadTuning.Decimal.Binary64

/-! The shortest decimal text that reads back as the same number of double precision: the first
decimal grid that meets the reals rounding to the number, and of its points there the nearest one. -/

namespace WorkloadTuning.Binary64

/-- The reals between the two bounds round to one number; the bounds do as well when `closed`. All
three are numerators over `den`. -/
structure Interval where
  lower : Nat
  value : Nat
  upper : Nat
  den : Nat
  closed : Bool

/-- The interval of `mantissa · 2 ^ exponent`. Below a power of two the numbers lie twice as dense. -/
def interval (mantissa : Nat) (exponent : Int) : Interval :=
  let below := if mantissa = twoTo 52 ∧ minExponent < exponent then 1 else 2
  let scale := twoTo (exponent - 2).toNat
  { lower := (4 * mantissa - below) * scale
    value := 4 * mantissa * scale
    upper := (4 * mantissa + 2) * scale
    den := twoTo (2 - exponent).toNat
    closed := mantissa % 2 = 0 }

/-- The fraction `num / den` is one of the reals of the interval. -/
def Interval.contains (i : Interval) (num den : Nat) : Bool :=
  let lower := i.lower * den
  let upper := i.upper * den
  let point := num * i.den
  if i.closed then lower ≤ point && point ≤ upper else lower < point && point < upper

/-- The point nearest to the value among the multiples of `10 ^ place` in the interval. -/
def Interval.nearest? (i : Interval) (place : Int) : Option Nat :=
  let step := tenTo place.toNat
  let den := tenTo (-place).toNat
  let down := i.value * den / (i.den * step)
  let up := down + 1
  let fits := fun n : Nat => i.contains (n * step) den
  let gapDown := i.value * den - down * (i.den * step)
  let gapUp := up * (i.den * step) - i.value * den
  match fits down, fits up with
  | true, true =>
    some (if gapDown < gapUp then down else if gapUp < gapDown then up else down + down % 2)
  | true, false => some down
  | false, true => some up
  | false, false => none

/-- The least `k` with `num / den < 10 ^ k`, at least one. -/
def decimalPlaces (num den : Nat) : Int :=
  if den ≤ num then digitCount (num / den)
  else 1 - (digitCount (den / num) : Int)

def stripZeros : Nat → Nat → Int → Nat × Int
  | 0, digits, place => (digits, place)
  | fuel + 1, digits, place =>
    if digits % 10 = 0 ∧ digits ≠ 0 then stripZeros fuel (digits / 10) (place + 1)
    else (digits, place)

/-- Try ever finer grids, `count` more of them. -/
def Interval.search (i : Interval) : Nat → Int → Nat × Int
  | 0, place => ((i.nearest? place).getD 0, place)
  | count + 1, place =>
    match i.nearest? place with
    | some digits => (digits, place)
    | none => i.search count (place - 1)

/-- Digits and exponent of ten of the shortest decimal that reads back as the positive number. -/
def shortest (mantissa : Nat) (exponent : Int) : Nat × Int :=
  let i := interval mantissa exponent
  let (digits, place) := i.search 20 (decimalPlaces i.value i.den)
  stripZeros 20 digits place

end WorkloadTuning.Binary64
