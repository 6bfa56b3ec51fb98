import WorkloadTuning.Json.Pointer
import WorkloadTuning.Json.Record

/-! Field paths: locations in resource trees. They are written like JSON pointers, with two kinds of
step more: `[key=value]` is the list element with that text under the key, and `*` stands for every
named element of a list. -/

namespace WorkloadTuning

inductive Segment where
  | field (name : String)
  | element (key value : String)
  | wildcard
deriving DecidableEq, Repr, Inhabited

structure FieldPath where
  segments : List Segment
deriving DecidableEq, Repr, Inhabited

/-- What a step needs to find below it. -/
inductive Shape where
  | map
  | list
deriving DecidableEq, Repr

inductive PathError where
  | missingRoot (text : String)
  | malformedElement (text segment : String)
  | unexpectedValue (walked : FieldPath) (segment : Segment) (expected : Shape)
  | unaddressable (walked : FieldPath) (key : String)
  | notConcrete (path : FieldPath)
  | notAnObject (walked : FieldPath)
deriving DecidableEq, Repr

def Shape.word : Shape → String
  | map => "map"
  | list => "list"

def Segment.toText : Segment → String
  | field name => String.ofList (Pointer.escape name.toList)
  | element key value => "[" ++ key ++ "=" ++ value ++ "]"
  | wildcard => "*"

namespace FieldPath

def root : FieldPath := ⟨[]⟩

def toText (path : FieldPath) : String :=
  String.join (path.segments.map fun segment => "/" ++ segment.toText)

/-- The field name that is written this way. A `~` that starts no escape stands for itself. -/
def unescape : List Char → List Char
  | [] => []
  | '~' :: '0' :: rest => '~' :: unescape rest
  | '~' :: '1' :: rest => '/' :: unescape rest
  | c :: rest => c :: unescape rest

/-- Key and value of an element match, given what follows its opening bracket. -/
def elementOf? (inner : List Char) : Option Segment := do
  let (last, body) ← inner.getLast?.map fun c => (c, inner.dropLast)
  if last ≠ ']' then none
  let (key, value) ← Text.cut? ['='] body
  if key.isEmpty then none
  return .element (String.ofList key) (String.ofList value)

/-- The step that a piece between slashes writes. -/
def segmentOf? (piece : List Char) : Option Segment :=
  match piece with
  | ['*'] => some .wildcard
  | '[' :: inner => elementOf? inner
  | _ => some (.field (String.ofList (unescape piece)))

def segmentsOf (text : String) : List (List Char) → Except PathError (List Segment)
  | [] => .ok []
  | piece :: rest =>
    match segmentOf? piece with
    | none => .error (.malformedElement text (String.ofList piece))
    | some segment => (segmentsOf text rest).map (segment :: ·)

/-- The empty text is the root; any other path starts with a slash. -/
def parse (text : String) : Except PathError FieldPath :=
  match text.toList with
  | [] => .ok root
  | '/' :: rest => (segmentsOf text (Text.pieces '/' rest)).map FieldPath.mk
  | _ => .error (.missingRoot text)

/-- No step stands for several locations. -/
def isConcrete (path : FieldPath) : Bool :=
  !path.segments.contains .wildcard

def push (path : FieldPath) (segment : Segment) : FieldPath :=
  ⟨path.segments ++ [segment]⟩

def append (path other : FieldPath) : FieldPath :=
  ⟨path.segments ++ other.segments⟩

instance : Append FieldPath := ⟨append⟩

def elementValue? : Segment → Option String
  | .element _ value => some value
  | _ => none

def fieldName? : Segment → Option String
  | .field name => some name
  | _ => none

/-- A short word that tells the path from others in one resource: the value of the last element
match, or else the last field name. -/
def discriminator? (path : FieldPath) : Option String :=
  let backward := path.segments.reverse
  (backward.findSome? elementValue?).or (backward.findSome? fieldName?)

instance : Record FieldPath where
  toJson path := .string path.toText
  ofJson json := do
    Record.orMalformed (parse (← Record.orMalformed json.asString?)).toOption

end FieldPath

def PathError.message : PathError → String
  | missingRoot text => s!"field path '{text}' must start with '/'"
  | malformedElement text segment =>
    s!"field path '{text}' has a malformed element match '{segment}'"
  | unexpectedValue walked segment expected =>
    s!"cannot traverse '{segment.toText}' of '{walked.toText}': value is not a {expected.word}"
  | unaddressable walked key =>
    s!"element at '{walked.toText}' has no '{key}' and cannot be addressed by a patch"
  | notConcrete path =>
    s!"field path '{path.toText}' contains a wildcard and cannot be used for patching"
  | notAnObject walked => s!"cannot set a field of '{walked.toText}' inside a list element match"

end WorkloadTuning
