import WorkloadTuning.Regex.Escape

/-! Bracketed classes. Items stand one after another; `&&`, `--` and `~~` between them join all that
comes before with all that comes after, up to the next of them. -/

namespace WorkloadTuning.Regex.Bracket

/-- A single character, or a set of its own. -/
def readAtom (flags : Flags) : List Char → Option ((Char ⊕ CharSet) × List Char)
  | [] => none
  | '\\' :: rest =>
    match Escape.read rest with
    | some (.char c, rest) => some (.inl c, rest)
    | some (.set s, rest) => some (.inr (flags.fold s), rest)
    | _ => none
  | c :: rest => some (.inl c, rest)

def atomSet (flags : Flags) : Char ⊕ CharSet → CharSet
  | .inl c => flags.fold (.single c)
  | .inr s => s

/-- What follows a minus sign: the end of a range. A minus sign before the closing bracket or
another minus sign makes no range. -/
def readRange (flags : Flags) (first : Char ⊕ CharSet) (cs : List Char) :
    Option (CharSet × List Char) :=
  match flags.skip cs with
  | [] => none
  | ']' :: _ | '-' :: _ => some (atomSet flags first, '-' :: cs)
  | rest => do
    let (last, rest) ← readAtom flags rest
    match first, last with
    | .inl c, .inl d => if c ≤ d then some (flags.fold (.range c d), rest) else none
    | _, _ => none

/-- An atom, or the range between two single characters. -/
def readItem (flags : Flags) (cs : List Char) : Option (CharSet × List Char) := do
  let (first, rest) ← readAtom flags cs
  match flags.skip rest with
  | '-' :: rest => readRange flags first rest
  | rest => some (atomSet flags first, rest)

/-- The name of a set and the colon and bracket behind it. -/
def readSetName (flags : Flags) (negated : Bool) (cs : List Char) :
    Option (CharSet × List Char) := do
  let ':' :: ']' :: rest := cs.dropWhile (· != ':') | none
  let set := flags.fold (← CharSet.named? (String.ofList (cs.takeWhile (· != ':'))))
  return (if negated then .complement set else set, rest)

/-- A set by its name, after the opening bracket before its first colon. -/
def readNamed (flags : Flags) : List Char → Option (CharSet × List Char)
  | ':' :: '^' :: rest => readSetName flags true rest
  | ':' :: rest => readSetName flags false rest
  | _ => none

/-- An operator between the items of a class. -/
def operator? : List Char → Option ((CharSet → CharSet → CharSet) × List Char)
  | '&' :: '&' :: rest => some (CharSet.intersection, rest)
  | '-' :: '-' :: rest => some (CharSet.difference, rest)
  | '~' :: '~' :: rest => some (CharSet.symmetricDifference, rest)
  | _ => none

/-- Whether the class is what its items leave out. -/
def readNegation (flags : Flags) (cs : List Char) : Bool × List Char :=
  match flags.skip cs with
  | '^' :: rest => (true, flags.skip rest)
  | cs => (false, cs)

/-- Minus signs at the start of the items stand for themselves, and so does a closing bracket that
comes first. -/
def readLeading : List Char → CharSet × List Char
  | '-' :: rest => (.single '-', rest.dropWhile (· == '-'))
  | ']' :: rest => (.single ']', rest)
  | cs => (.none, cs)

mutual

/-- The items up to the closing bracket. What has been read since the last operator is `set`, and
`before` joins it with what stands in front of that. -/
def readItems (flags : Flags) (before : CharSet → CharSet) (set : CharSet) :
    Nat → List Char → Option (CharSet × List Char)
  | 0, _ => none
  | fuel + 1, cs =>
    let cs := flags.skip cs
    match operator? cs with
    | some (operator, rest) => readItems flags (operator (before set)) .none fuel rest
    | none =>
      match cs with
      | ']' :: rest => some (before set, rest)
      | '[' :: rest => do
        let (inner, rest) ← (readNamed flags rest).or (read flags fuel rest)
        readItems flags before (.union set inner) fuel rest
      | cs => do
        let (item, rest) ← readItem flags cs
        readItems flags before (.union set item) fuel rest

/-- A class after its opening bracket. -/
def read (flags : Flags) : Nat → List Char → Option (CharSet × List Char)
  | 0, _ => none
  | fuel + 1, cs => do
    let (negated, cs) := readNegation flags cs
    let (set, cs) := readLeading cs
    let (set, rest) ← readItems flags id set fuel cs
    return (if negated then .complement set else set, rest)

end

/-- A class after its opening bracket, at the start of the text. -/
def read? (flags : Flags) (cs : List Char) : Option (CharSet × List Char) :=
  read flags (2 * cs.length + 2) cs

end WorkloadTuning.Regex.Bracket
