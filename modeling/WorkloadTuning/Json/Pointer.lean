import WorkloadTuning.Json.Basic
import WorkloadTuning.Text.Cut
import WorkloadTuning.Text.Integer

/-! JSON pointers: a location in one document, a member name or list index per step. -/

namespace WorkloadTuning

structure Pointer where
  tokens : List String
deriving DecidableEq, Repr, Inhabited

namespace Pointer

/-- Inside a token `~` is written `~0` and `/` is written `~1`. -/
def escape (token : List Char) : List Char :=
  token.flatMap fun c =>
    if c = '~' then ['~', '0'] else if c = '/' then ['~', '1'] else [c]

/-- The token that is written this way; a `~` must start one of the two escapes. -/
def unescape? : List Char → Option (List Char)
  | [] => some []
  | '~' :: '0' :: rest => (unescape? rest).map ('~' :: ·)
  | '~' :: '1' :: rest => (unescape? rest).map ('/' :: ·)
  | c :: rest => if c = '~' then none else (unescape? rest).map (c :: ·)

def toText (p : Pointer) : String :=
  String.ofList (p.tokens.flatMap fun token => '/' :: escape token.toList)

/-- A pointer is empty or starts with `/`. -/
def parse? (text : String) : Option Pointer :=
  match text.toList with
  | [] => some ⟨[]⟩
  | '/' :: rest =>
    ((Text.pieces '/' rest).mapM fun piece => (unescape? piece).map String.ofList).map Pointer.mk
  | _ => none

/-- A list index: decimal digits without leading zeros, within 64 bits. -/
def index? (token : String) : Option Nat :=
  match token.toList with
  | [] => none
  | ['0'] => some 0
  | '0' :: _ => none
  | digits => (Text.readNat? digits).filter (· < 18446744073709551616)

end Pointer

namespace Json

/-- One step down. -/
def child? (json : Json) (token : String) : Option Json :=
  match json with
  | object ms => Members.get? ms token
  | array items => (Pointer.index? token).bind (items[·]?)
  | _ => none

/-- The value at the location. -/
def resolve? (json : Json) : List String → Option Json
  | [] => some json
  | token :: rest => (json.child? token).bind (resolve? · rest)

/-- Replace the child that a step leads to. -/
def setChild (json : Json) (token : String) (value : Json) : Json :=
  match json with
  | object ms => object (Members.set token value ms)
  | array items =>
    match Pointer.index? token with
    | some i => array (items.set i value)
    | none => json
  | _ => json

/-- Change the value at an existing location. -/
def modifyAt? (f : Json → Option Json) : List String → Json → Option Json
  | [], json => f json
  | token :: rest, json => do
    let child ← json.child? token
    return json.setChild token (← modifyAt? f rest child)

end Json

end WorkloadTuning
