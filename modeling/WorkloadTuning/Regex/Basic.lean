import WorkloadTuning.Regex.CharSet

/-! Regular expressions and the texts in which they match. A position in the text is what follows
it; matching moves sets of positions forward. -/

namespace WorkloadTuning

/-- What can be asked of a position. -/
inductive Anchor where
  | textStart
  | textEnd
  | lineStart
  | lineEnd
  | wordEdge
  | noWordEdge
  | wordStart
  | wordEnd
  | wordStartHalf
  | wordEndHalf
deriving DecidableEq, Repr

inductive Regex where
  | empty
  | char (set : CharSet)
  | anchor (a : Anchor)
  | seq (a b : Regex)
  | alt (a b : Regex)
  | repeated (a : Regex) (least : Nat) (most : Option Nat)
  | named (name : String) (a : Regex)
deriving DecidableEq, Repr

namespace Regex

/-- The character before a position. -/
def before? (text position : List Char) : Option Char :=
  (text.take (text.length - position.length)).getLast?

end Regex

def Anchor.holds (text position : List Char) : Anchor → Bool
  | textStart => position.length == text.length
  | textEnd => position.isEmpty
  | lineStart => (Regex.before? text position).all (· == '\n')
  | lineEnd => position.head?.all (· == '\n')
  | wordEdge => inWord != startsWord
  | noWordEdge => inWord == startsWord
  | wordStart => !inWord && startsWord
  | wordEnd => inWord && !startsWord
  | wordStartHalf => !inWord
  | wordEndHalf => !startsWord
where
  inWord : Bool := (Regex.before? text position).any Text.isWordChar
  startsWord : Bool := position.head?.any Text.isWordChar

namespace Regex

/-- The positions with those of the second list that are new. -/
def merge (positions new : List (List Char)) : List (List Char) :=
  new.foldl (fun acc p => if acc.any fun q => q.length == p.length then acc else acc ++ [p])
    positions

def times (f : List (List Char) → List (List Char)) : Nat → List (List Char) → List (List Char)
  | 0, positions => positions
  | n + 1, positions => times f n (f positions)

/-- Positions reached in at most that many rounds. -/
def upTo (f : List (List Char) → List (List Char)) : Nat → List (List Char) → List (List Char)
  | 0, positions => positions
  | n + 1, positions => upTo f n (merge positions (f positions))

def advanceChar (set : CharSet) : List Char → Option (List Char)
  | [] => none
  | c :: rest => if set.contains c then some rest else none

/-- The positions where a match can end that starts at one of these. No text has more new positions
than characters, which bounds a repetition without limit. -/
def advance (text : List Char) : Regex → List (List Char) → List (List Char)
  | empty, positions => positions
  | char set, positions => positions.filterMap (advanceChar set)
  | anchor a, positions => positions.filter fun p => a.holds text p
  | seq a b, positions => advance text b (advance text a positions)
  | alt a b, positions => merge (advance text a positions) (advance text b positions)
  | repeated a least most, positions =>
    let rounds :=
      match most with
      | some n => min (n - least) (text.length + 1)
      | none => text.length + 1
    upTo (advance text a) rounds (times (advance text a) least positions)
  | named _ a, positions => advance text a positions

def suffixes : List Char → List (List Char)
  | [] => [[]]
  | c :: rest => (c :: rest) :: suffixes rest

/-- The names of the groups, in the order of the text. -/
def names : Regex → List String
  | empty | char _ | anchor _ => []
  | seq a b | alt a b => a.names ++ b.names
  | repeated a _ _ => a.names
  | named name a => name :: a.names

/-- The room, in bytes, that the expression is estimated to take when its repetitions are written
out. -/
def room : Regex → Nat
  | empty | anchor _ => 24
  | char set => 24 + set.room
  | seq a b | alt a b => a.room + b.room
  | repeated a least most => 24 + max (most.getD least) 1 * a.room
  | named _ a => 24 + a.room

/-- The expression matches somewhere in the text. -/
def matchesIn (r : Regex) (text : String) : Bool :=
  !(r.advance text.toList (suffixes text.toList)).isEmpty

end Regex

end WorkloadTuning
