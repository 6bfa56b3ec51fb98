import WorkloadTuning.Regex.Bracket

/-! Reading regular expressions. Those that take too much room when their repetitions are written
out are refused. -/

namespace WorkloadTuning.Regex

/-- A count, with blanks around it. -/
def readNumber (cs : List Char) : Option (Nat × List Char) := do
  let cs := cs.dropWhile Text.isBlank
  let n ← Text.readNat? (cs.takeWhile Text.isDigit)
  if n < 4294967296 then return (n, (cs.dropWhile Text.isDigit).dropWhile Text.isBlank) else none

/-- The bounds of a counted repetition after its opening brace. -/
def readCount (cs : List Char) : Option ((Nat × Option Nat) × List Char) := do
  let (least, rest) ← readNumber cs
  match rest with
  | '\x7d' :: rest => return ((least, some least), rest)
  | ',' :: '\x7d' :: rest => return ((least, none), rest)
  | ',' :: rest =>
    let (most, rest) ← readNumber rest
    let '\x7d' :: rest := rest | none
    if least ≤ most then return ((least, some most), rest) else none
  | _ => none

def skipLazy : List Char → List Char
  | '?' :: rest => rest
  | cs => cs

/-- The repetition operators that follow an expression. -/
def readRepetitions (flags : Flags) : Nat → Regex → List Char → Option (Regex × List Char)
  | 0, _, _ => none
  | fuel + 1, r, cs =>
    match flags.skip cs with
    | '*' :: rest => readRepetitions flags fuel (.repeated r 0 none) (skipLazy rest)
    | '+' :: rest => readRepetitions flags fuel (.repeated r 1 none) (skipLazy rest)
    | '?' :: rest => readRepetitions flags fuel (.repeated r 0 (some 1)) (skipLazy rest)
    | '\x7b' :: rest => do
      let ((least, most), rest) ← readCount rest
      readRepetitions flags fuel (.repeated r least most) (skipLazy (flags.skip rest))
    | rest => some (r, rest)

/-- A group's name starts with a letter or an underscore. -/
def isNameStart (c : Char) : Bool :=
  c == '_' || Text.isWordChar c && !Text.isDecimalDigit c

def isNameChar (c : Char) : Bool :=
  Text.isWordChar c || c == '.' || c == '[' || c == ']'

/-- A group's name up to its closing angle bracket. -/
def readName (cs : List Char) : Option (String × List Char) := do
  let '>' :: rest := cs.dropWhile isNameChar | none
  let name := cs.takeWhile isNameChar
  if name.head?.any isNameStart then return (String.ofList name, rest) else none

/-- What a parenthesis opens: a group, which may have a name and flags of its own, or nothing but
flags for what comes next. -/
inductive Opening where
  | group (inner : Flags) (name : Option String)
  | flags (inner : Flags)
deriving DecidableEq, Repr

/-- The rest of an opening, after its parenthesis. -/
def readOpening (flags : Flags) (cs : List Char) : Option (Opening × List Char) :=
  match flags.skip cs with
  | '?' :: 'P' :: '<' :: rest | '?' :: '<' :: rest =>
    (readName rest).map fun (name, rest) => (.group flags (some name), rest)
  | '?' :: ')' :: _ => none
  | '?' :: rest => do
    match ← flags.read true [] rest with
    | (inner, ')' :: rest) => some (.flags inner, rest)
    | (inner, ':' :: rest) => some (.group inner none, rest)
    | _ => none
  | rest => some (.group flags none, rest)

mutual

/-- Alternatives up to the end of the group or text. -/
def readAlternatives : Nat → Flags → List Char → Option (Regex × List Char)
  | 0, _, _ => none
  | fuel + 1, flags, cs => do
    let (first, flags, rest) ← readSequence fuel flags cs
    match rest with
    | '|' :: rest =>
      let (others, rest) ← readAlternatives fuel flags rest
      return (.alt first others, rest)
    | _ => return (first, rest)

/-- One alternative. Flags set on the way hold to the end of the group. -/
def readSequence : Nat → Flags → List Char → Option (Regex × Flags × List Char)
  | 0, _, _ => none
  | fuel + 1, flags, cs =>
    match flags.skip cs with
    | [] => some (.empty, flags, [])
    | c :: rest =>
      match c with
      | '|' | ')' => some (.empty, flags, c :: rest)
      | '*' | '+' | '?' | '\x7b' => none
      | '(' => do
        match ← readOpening flags rest with
        | (.flags inner, rest) => readSequence fuel inner rest
        | (.group inner name, rest) => readGroup fuel flags inner name rest
      | '[' => do
        let (set, rest) ← Bracket.read? flags rest
        readAfter fuel flags (.char set) rest
      | '.' => readAfter fuel flags (.char flags.dot) rest
      | '^' => readAfter fuel flags (.anchor flags.lineStart) rest
      | '$' => readAfter fuel flags (.anchor flags.lineEnd) rest
      | '\\' => do
        match ← Escape.read rest with
        | (.char c, rest) => readAfter fuel flags (.char (flags.fold (.single c))) rest
        | (.set s, rest) => readAfter fuel flags (.char (flags.fold s)) rest
        | (.anchor a, rest) => readAfter fuel flags (.anchor a) rest
      | _ => readAfter fuel flags (.char (flags.fold (.single c))) rest

/-- A group after its opening, and the rest of the alternative that it stands in. -/
def readGroup : Nat → Flags → Flags → Option String → List Char →
    Option (Regex × Flags × List Char)
  | 0, _, _, _, _ => none
  | fuel + 1, flags, inner, name, cs => do
    let (r, rest) ← readAlternatives fuel inner cs
    let ')' :: rest := rest | none
    readAfter fuel flags ((name.map fun name => .named name r).getD r) rest

/-- Repetitions of the expression just read, and the rest of the alternative. -/
def readAfter : Nat → Flags → Regex → List Char → Option (Regex × Flags × List Char)
  | 0, _, _, _ => none
  | fuel + 1, flags, r, cs => do
    let (r, rest) ← readRepetitions flags (cs.length + 1) r cs
    let (others, flags, rest) ← readSequence fuel flags rest
    return (.seq r others, flags, rest)

end

/-- The room that an expression may take. -/
def roomLimit : Nat := 10485760

/-- The expression that the whole text writes. Its groups have different names. -/
def parse? (pattern : String) : Option Regex := do
  let cs := pattern.toList
  let (r, rest) ← readAlternatives (4 * cs.length + 4) {} cs
  if rest.isEmpty && decide r.names.Nodup && r.room ≤ roomLimit then return r else none

end WorkloadTuning.Regex
