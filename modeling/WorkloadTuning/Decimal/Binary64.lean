/-! The numbers of double precision: exact rationals rounded to 53 binary digits, ties to even.
Arithmetic is the exact result rounded once. -/

namespace WorkloadTuning

def twoTo (n : Nat) : Nat :=
  Nat.pow 2 n

def tenTo (n : Nat) : Nat :=
  Nat.pow 10 n

/-- A finite number is `±mantissa · 2 ^ exponent`. What `Binary64.ofRatio` builds has a mantissa
below `2 ^ 53`, and one of at least `2 ^ 52` unless the exponent is the least, `-1074`. -/
inductive Binary64 where
  | nan
  | infinite (negative : Bool)
  | finite (negative : Bool) (mantissa : Nat) (exponent : Int)
deriving DecidableEq, Repr, Inhabited

/-- The quotient rounded to the nearest natural number, a tie to the even one. -/
def roundHalfEven (num den : Nat) : Nat :=
  let quotient := num / den
  let twice := 2 * (num % den)
  if twice < den then quotient
  else if den < twice then quotient + 1
  else quotient + quotient % 2

namespace Binary64

def minExponent : Int := -1074

def maxExponent : Int := 971

def zero : Binary64 := finite false 0 minExponent

/-- `num / den` divided by `2 ^ exponent`, again as a fraction. -/
def shifted (num den : Nat) (exponent : Int) : Nat × Nat :=
  (num * twoTo (-exponent).toNat, den * twoTo exponent.toNat)

/-- The largest `k` with `2 ^ k ≤ num / den`; both are to be positive. -/
def floorLog2 (num den : Nat) : Int :=
  let guess := (Nat.log2 num : Int) - Nat.log2 den
  let (n, d) := shifted num den guess
  if n < d then guess - 1 else guess

/-- The number nearest to the fraction; beyond the largest one it is infinite. -/
def ofRatio (negative : Bool) (num den : Nat) : Binary64 :=
  if num = 0 then finite negative 0 minExponent
  else
    let exponent := max (floorLog2 num den - 52) minExponent
    let (n, d) := shifted num den exponent
    let mantissa := roundHalfEven n d
    let (mantissa, exponent) :=
      if mantissa = twoTo 53 then (twoTo 52, exponent + 1) else (mantissa, exponent)
    if maxExponent < exponent then infinite negative else finite negative mantissa exponent

/-- `±mantissa · 2 ^ exponent`, rounded. -/
def ofDyadic (negative : Bool) (mantissa : Nat) (exponent : Int) : Binary64 :=
  ofRatio negative (mantissa * twoTo exponent.toNat) (twoTo (-exponent).toNat)

def ofNat (n : Nat) : Binary64 :=
  ofRatio false n 1

def ofInt (i : Int) : Binary64 :=
  ofRatio (i < 0) i.natAbs 1

def digitCount (n : Nat) : Nat :=
  (Nat.toDigits 10 n).length

/-- `±digits · 10 ^ exponent`, rounded. Values far outside the range are settled by their number of
digits alone, so that the exponent may be any number. -/
def ofDecimal (negative : Bool) (digits : Nat) (exponent : Int) : Binary64 :=
  let magnitude := digitCount digits + exponent
  if digits = 0 then finite negative 0 minExponent
  else if 310 < magnitude then infinite negative
  else if magnitude < -330 then finite negative 0 minExponent
  else ofRatio negative (digits * tenTo exponent.toNat) (tenTo (-exponent).toNat)

def neg : Binary64 → Binary64
  | nan => nan
  | infinite negative => infinite !negative
  | finite negative m e => finite (!negative) m e

def isNegative : Binary64 → Bool
  | nan => false
  | infinite negative => negative
  | finite negative _ _ => negative

def isFinite : Binary64 → Bool
  | finite .. => true
  | _ => false

def isZero : Binary64 → Bool
  | finite _ m _ => m == 0
  | _ => false

/-- Numeric equality: the two zeros are equal, and `nan` equals nothing. -/
def same : Binary64 → Binary64 → Bool
  | nan, _ => false
  | _, nan => false
  | x, y => x.isZero && y.isZero || x == y

def signed (negative : Bool) (n : Nat) : Int :=
  if negative then -n else n

def add : Binary64 → Binary64 → Binary64
  | nan, _ => nan
  | _, nan => nan
  | infinite s, infinite t => if s = t then infinite s else nan
  | infinite s, _ => infinite s
  | _, infinite t => infinite t
  | finite s m e, finite t n f =>
    let exponent := min e f
    let sum := signed s (m * twoTo (e - exponent).toNat) + signed t (n * twoTo (f - exponent).toNat)
    if sum = 0 then finite (s && t) 0 minExponent else ofDyadic (sum < 0) sum.natAbs exponent

def mul : Binary64 → Binary64 → Binary64
  | nan, _ => nan
  | _, nan => nan
  | infinite s, y => if y.isZero then nan else infinite (s != y.isNegative)
  | x, infinite t => if x.isZero then nan else infinite (t != x.isNegative)
  | finite s m e, finite t n f => ofDyadic (s != t) (m * n) (e + f)

def div : Binary64 → Binary64 → Binary64
  | nan, _ => nan
  | _, nan => nan
  | infinite _, infinite _ => nan
  | infinite s, y => infinite (s != y.isNegative)
  | finite s _ _, infinite t => finite (s != t) 0 minExponent
  | finite s m e, finite t n f =>
    if n = 0 then if m = 0 then nan else infinite (s != t)
    else ofRatio (s != t) (m * twoTo (e - f).toNat) (n * twoTo (f - e).toNat)

/-- The exact value as a fraction, less its sign. -/
def ratio (mantissa : Nat) (exponent : Int) : Nat × Nat :=
  (mantissa * twoTo exponent.toNat, twoTo (-exponent).toNat)

/-- The integer part, kept within the bounds; infinities go to a bound and `nan` to zero. -/
def truncate (least greatest : Int) : Binary64 → Int
  | nan => 0
  | infinite negative => if negative then least else greatest
  | finite negative m e =>
    let (num, den) := ratio m e
    max least (min greatest (signed negative (num / den)))

example : add (ofDecimal false 1 (-1)) (ofDecimal false 2 (-1)) =
    ofDecimal false 30000000000000004 (-17) := by decide +kernel

end Binary64

end WorkloadTuning
