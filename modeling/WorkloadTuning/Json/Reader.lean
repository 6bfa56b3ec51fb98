import WorkloadTuning.Json.NumberReader

/-! Reading documents from text. A key that repeats keeps its first place and its last value. -/

namespace WorkloadTuning.Json

def isSpace (c : Char) : Bool :=
  c == ' ' || c == '\t' || c == '\n' || c == '\r'

def skipSpaces (cs : List Char) : List Char :=
  cs.dropWhile isSpace

def isHighSurrogate (u : Nat) : Bool :=
  0xd800 ≤ u && u < 0xdc00

def isLowSurrogate (u : Nat) : Bool :=
  0xdc00 ≤ u && u < 0xe000

/-- The rest of a text after its opening quote, and what follows the closing one. -/
def readQuoted : List Char → Option (List Char × List Char)
  | [] => none
  | '"' :: rest => some ([], rest)
  | '\\' :: 'u' :: a :: b :: c :: d :: rest => do
    let high ← Text.readHex? [a, b, c, d]
    if isLowSurrogate high then none
    else if isHighSurrogate high then
      match rest with
      | '\\' :: 'u' :: e :: f :: g :: h :: rest =>
        let low ← Text.readHex? [e, f, g, h]
        if !isLowSurrogate low then none
        let (text, after) ← readQuoted rest
        return (Char.ofNat (0x10000 + (high - 0xd800) * 0x400 + (low - 0xdc00)) :: text, after)
      | _ => none
    else
      let (text, after) ← readQuoted rest
      return (Char.ofNat high :: text, after)
  | '\\' :: c :: rest => do
    let plain ←
      match c with
      | '"' => some '"'
      | '\\' => some '\\'
      | '/' => some '/'
      | 'b' => some (Char.ofNat 8)
      | 'f' => some (Char.ofNat 12)
      | 'n' => some '\n'
      | 'r' => some '\r'
      | 't' => some '\t'
      | _ => none
    let (text, after) ← readQuoted rest
    return (plain :: text, after)
  | c :: rest => do
    if c == '\\' || c.toNat < 32 then none
    let (text, after) ← readQuoted rest
    return (c :: text, after)

mutual

/-- One value; the number bounds the depth of calls and is spent one by one. -/
def readValue : Nat → List Char → Option (Json × List Char)
  | 0, _ => none
  | fuel + 1, cs =>
    match skipSpaces cs with
    | 'n' :: 'u' :: 'l' :: 'l' :: rest => some (null, rest)
    | 't' :: 'r' :: 'u' :: 'e' :: rest => some (bool true, rest)
    | 'f' :: 'a' :: 'l' :: 's' :: 'e' :: rest => some (bool false, rest)
    | '"' :: rest => (readQuoted rest).map fun (text, after) => (string (String.ofList text), after)
    | '[' :: rest =>
      match skipSpaces rest with
      | ']' :: rest => some (array [], rest)
      | rest => (readItems fuel rest).map fun (items, after) => (array items, after)
    | '\x7b' :: rest =>
      match skipSpaces rest with
      | '\x7d' :: rest => some (object [], rest)
      | rest => (readMembers fuel [] rest).map fun (members, after) => (object members, after)
    | rest => (readNumber rest).map fun (n, after) => (number n, after)

/-- The items of a list up to its end. -/
def readItems : Nat → List Char → Option (List Json × List Char)
  | 0, _ => none
  | fuel + 1, cs => do
    let (item, rest) ← readValue fuel cs
    match skipSpaces rest with
    | ']' :: rest => return ([item], rest)
    | ',' :: rest =>
      let (items, after) ← readItems fuel rest
      return (item :: items, after)
    | _ => none

/-- The members of an object up to its end, added to those read before. -/
def readMembers : Nat → Members → List Char → Option (Members × List Char)
  | 0, _, _ => none
  | fuel + 1, earlier, cs => do
    let '"' :: rest := skipSpaces cs | none
    let (key, rest) ← readQuoted rest
    let ':' :: rest := skipSpaces rest | none
    let (value, rest) ← readValue fuel rest
    let members := Members.set (String.ofList key) value earlier
    match skipSpaces rest with
    | '\x7d' :: rest => return (members, rest)
    | ',' :: rest => readMembers fuel members rest
    | _ => none

end

/-- The document that the whole text is. -/
def parse? (text : String) : Option Json := do
  let cs := text.toList
  let (json, rest) ← readValue (cs.length + 1) cs
  if (skipSpaces rest).isEmpty then return json else none

end WorkloadTuning.Json
