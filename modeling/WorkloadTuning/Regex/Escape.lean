import WorkloadTuning.Regex.Basic
import WorkloadTuning.Text.Integer

/-! The flags that hold while a regular expression is read, and what a backslash introduces. -/

namespace WorkloadTuning.Regex

/-- What the flags `i`, `s`, `m` and `x` switch on. -/
structure Flags where
  caseless : Bool := false
  dotAll : Bool := false
  multiLine : Bool := false
  /-- Blanks and comments between the parts of an expression mean nothing. -/
  spaced : Bool := false
deriving DecidableEq, Repr

namespace Flags

def set (flags : Flags) (on : Bool) : Char → Option Flags
  | 'i' => some { flags with caseless := on }
  | 's' => some { flags with dotAll := on }
  | 'm' => some { flags with multiLine := on }
  | 'x' => some { flags with spaced := on }
  | 'U' | 'u' => some flags
  | _ => none

/-- Drop blanks, and comments up to the end of their line. -/
def dropSpace (inComment : Bool) : List Char → List Char
  | [] => []
  | c :: rest =>
    if c = '\n' then dropSpace false rest
    else if inComment || Text.isBlank c then dropSpace inComment rest
    else if c = '#' then dropSpace true rest
    else c :: rest

def skip (flags : Flags) (cs : List Char) : List Char :=
  if flags.spaced then dropSpace false cs else cs

/-- The set that is meant by one that has been read. -/
def fold (flags : Flags) (set : CharSet) : CharSet :=
  if flags.caseless then .caseless set else set

def dot (flags : Flags) : CharSet :=
  if flags.dotAll then .any else .complement CharSet.newline

def lineStart (flags : Flags) : Anchor :=
  if flags.multiLine then .lineStart else .textStart

def lineEnd (flags : Flags) : Anchor :=
  if flags.multiLine then .lineEnd else .textEnd

/-- Flag letters up to a parenthesis or colon; those after a minus sign are switched off. No letter
comes twice, and one follows the minus sign. -/
def read (flags : Flags) (on : Bool) (seen : List Char) : List Char → Option (Flags × List Char)
  | ')' :: rest => some (flags, ')' :: rest)
  | ':' :: rest => some (flags, ':' :: rest)
  | '-' :: c :: rest =>
    if !on || seen.contains c then none
    else do (← flags.set false c).read false (c :: seen) rest
  | c :: rest =>
    if seen.contains c then none else do (← flags.set on c).read on (c :: seen) rest
  | [] => none

end Flags

/-- What a backslash introduces. -/
inductive Escape where
  | char (c : Char)
  | set (s : CharSet)
  | anchor (a : Anchor)
deriving DecidableEq, Repr

namespace Escape

/-- The character with that number, if there is one. -/
def numbered? (digits : List Char) : Option Char := do
  let n ← Text.readHex? digits
  if n.isValidChar then return Char.ofNat n else none

/-- A character by its hexadecimal number: that many digits, or any in braces. -/
def readNumbered (width : Nat) : List Char → Option (Escape × List Char)
  | '\x7b' :: rest => do
    let c ← numbered? (rest.takeWhile (· != '\x7d'))
    let '\x7d' :: rest := rest.dropWhile (· != '\x7d') | none
    return (.char c, rest)
  | cs => do
    if cs.length < width then none
    return (.char (← numbered? (cs.take width)), cs.drop width)

def namedEdge? : String → Option Anchor
  | "start" => some .wordStart
  | "end" => some .wordEnd
  | "start-half" => some .wordStartHalf
  | "end-half" => some .wordEndHalf
  | _ => none

def isEdgeNameChar (c : Char) : Bool :=
  c.isAlpha || c == '-'

/-- The edge of a word; a name in braces picks one side. Other braces count repetitions. -/
def readEdge : List Char → Option (Escape × List Char)
  | '\x7b' :: rest =>
    match rest.takeWhile isEdgeNameChar, rest.dropWhile isEdgeNameChar with
    | [], _ => some (.anchor .wordEdge, '\x7b' :: rest)
    | name, '\x7d' :: rest => (namedEdge? (String.ofList name)).map fun a => (.anchor a, rest)
    | _, _ => none
  | rest => some (.anchor .wordEdge, rest)

/-- What follows a backslash. -/
def read : List Char → Option (Escape × List Char)
  | [] => none
  | c :: rest =>
    match c with
    | 'd' => some (.set .digit, rest)
    | 'D' => some (.set (.complement .digit), rest)
    | 's' => some (.set .blank, rest)
    | 'S' => some (.set (.complement .blank), rest)
    | 'w' => some (.set .word, rest)
    | 'W' => some (.set (.complement .word), rest)
    | 'A' => some (.anchor .textStart, rest)
    | 'z' => some (.anchor .textEnd, rest)
    | '<' => some (.anchor .wordStart, rest)
    | '>' => some (.anchor .wordEnd, rest)
    | 'B' => some (.anchor .noWordEdge, rest)
    | 'b' => readEdge rest
    | 'a' => some (.char (Char.ofNat 7), rest)
    | 'f' => some (.char (Char.ofNat 12), rest)
    | 'n' => some (.char '\n', rest)
    | 'r' => some (.char '\r', rest)
    | 't' => some (.char '\t', rest)
    | 'v' => some (.char (Char.ofNat 11), rest)
    | 'x' => readNumbered 2 rest
    | 'u' => readNumbered 4 rest
    | 'U' => readNumbered 8 rest
    | _ => if c.toNat < 128 && !c.isAlphanum then some (.char c, rest) else none

end Escape

end WorkloadTuning.Regex
