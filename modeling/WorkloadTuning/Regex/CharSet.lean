import WorkloadTuning.Text.Blank
import WorkloadTuning.Text.Case
import WorkloadTuning.Text.WordTable

/-! Sets of characters, as the classes of regular expressions describe them. -/

namespace WorkloadTuning

namespace Text

def isWordChar (c : Char) : Bool :=
  inRanges wordRanges c

def isDecimalDigit (c : Char) : Bool :=
  inRanges digitRanges c

/-- A representative of the character's case variants. The dotless i has no other variant. -/
def caseFold (c : Char) : Char :=
  if c = 'ı' then c
  else
    let upper :=
      match upperOf c with
      | [u] => u
      | _ => c
    match lowerOf upper with
    | [l] => l
    | _ => upper

end Text

inductive CharSet where
  | any
  | range (first last : Char)
  | word
  | digit
  | blank
  | union (a b : CharSet)
  | complement (a : CharSet)
  /-- A set together with the case variants of its members. -/
  | caseless (a : CharSet)
deriving DecidableEq, Repr

namespace CharSet

def none : CharSet := complement any

def single (c : Char) : CharSet := range c c

def newline : CharSet := single '\n'

def ofRanges (ranges : List (Char × Char)) : CharSet :=
  ranges.foldr (fun (first, last) rest => union (range first last) rest) none

def intersection (a b : CharSet) : CharSet :=
  complement (union (complement a) (complement b))

def difference (a b : CharSet) : CharSet :=
  intersection a (complement b)

def symmetricDifference (a b : CharSet) : CharSet :=
  union (difference a b) (difference b a)

/-- Ignoring case, a single character stands for all of its variants, and a larger set for the
variants found through upper and lower case. -/
def contains : CharSet → Char → Bool
  | any, _ => true
  | range first last, c => first ≤ c && c ≤ last
  | word, c => Text.isWordChar c
  | digit, c => Text.isDecimalDigit c
  | blank, c => Text.isBlank c
  | union a b, c => a.contains c || b.contains c
  | complement a, c => !a.contains c
  | caseless (range first last), c =>
    if first = last then Text.caseFold c == Text.caseFold first
    else
      (c :: Text.caseFold c :: Text.upperOf c).any fun d => first ≤ d && d ≤ last
  | caseless a, c => (c :: Text.caseFold c :: Text.upperOf c).any a.contains

/-- The room, in bytes, that the set is estimated to take. -/
def room : CharSet → Nat
  | any => 400
  | range .. => 8
  | word => 48000
  | digit => 4000
  | blank => 800
  | union a b => a.room + b.room
  | complement a => a.room
  | caseless a => a.room

/-- The sets that have a name between `[:` and `:]`; they hold ASCII characters only. -/
def named? : String → Option CharSet
  | "alnum" => some (ofRanges [('0', '9'), ('A', 'Z'), ('a', 'z')])
  | "alpha" => some (ofRanges [('A', 'Z'), ('a', 'z')])
  | "ascii" => some (range (Char.ofNat 0) (Char.ofNat 127))
  | "blank" => some (union (single ' ') (single '\t'))
  | "cntrl" => some (union (range (Char.ofNat 0) (Char.ofNat 31)) (single (Char.ofNat 127)))
  | "digit" => some (range '0' '9')
  | "graph" => some (range '!' '~')
  | "lower" => some (range 'a' 'z')
  | "print" => some (range ' ' '~')
  | "punct" => some (ofRanges [('!', '/'), (':', '@'), ('[', Char.ofNat 96), ('\x7b', '~')])
  | "space" => some (union (single ' ') (range '\t' '\r'))
  | "upper" => some (range 'A' 'Z')
  | "word" => some (ofRanges [('0', '9'), ('A', 'Z'), ('a', 'z'), ('_', '_')])
  | "xdigit" => some (ofRanges [('0', '9'), ('A', 'F'), ('a', 'f')])
  | _ => Option.none

end CharSet

end WorkloadTuning
