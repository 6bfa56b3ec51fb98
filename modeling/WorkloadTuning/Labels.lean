import WorkloadTuning.Dict
import WorkloadTuning.Text.Blank
import WorkloadTuning.Text.Cut

/-! Labels and label selectors. A selector is a list of requirements joined by commas: equality
(`a=b`, `a==b`, `a!=b`), presence (`a`, `!a`) and sets (`a in (x,y)`, `a notin (x,y)`). -/

namespace WorkloadTuning

abbrev Labels := Dict String

inductive Requirement where
  | equals (key value : String)
  | notEquals (key value : String)
  | present (key : String)
  | absent (key : String)
  | oneOf (key : String) (values : List String)
  | noneOf (key : String) (values : List String)
deriving DecidableEq, Repr

/-- All requirements must hold; the empty selector matches everything. -/
structure LabelSelector where
  requirements : List Requirement
deriving DecidableEq, Repr, Inhabited

inductive LabelFault where
  | emptyRequirement
  | malformedValues
  | malformedKey
deriving DecidableEq, Repr

structure LabelSelectorError where
  text : String
  fault : LabelFault
deriving DecidableEq, Repr

def LabelFault.reason : LabelFault → String
  | emptyRequirement => "empty requirement"
  | malformedValues => "malformed value set"
  | malformedKey => "malformed label key"

def LabelSelectorError.message (e : LabelSelectorError) : String :=
  s!"invalid label selector '{e.text}': {e.fault.reason}"

namespace Requirement

def key : Requirement → String
  | equals key _ | notEquals key _ | present key | absent key | oneOf key _ | noneOf key _ => key

def holds (labels : Labels) : Requirement → Bool
  | equals key value => labels.get? key == some value
  | notEquals key value => labels.get? key != some value
  | present key => labels.contains key
  | absent key => !labels.contains key
  | oneOf key values => (labels.get? key).any values.contains
  | noneOf key values => (labels.get? key).all fun value => !values.contains value

def toText : Requirement → String
  | equals key value => key ++ "=" ++ value
  | notEquals key value => key ++ "!=" ++ value
  | present key => key
  | absent key => "!" ++ key
  | oneOf key values => key ++ " in (" ++ Text.joined "," values ++ ")"
  | noneOf key values => key ++ " notin (" ++ Text.joined "," values ++ ")"

def trimmed (s : List Char) : String :=
  String.ofList (Text.trim s)

/-- The values of a parenthesized list; empty ones are passed over. -/
def valuesOf? (s : List Char) : Option (List String) := do
  let '(' :: rest := Text.trim s | none
  if rest.getLast? ≠ some ')' then none
  let values := (Text.pieces ',' rest.dropLast).map trimmed
  return values.filter fun value => !value.isEmpty

/-- Read one requirement, less the check of its key. The operators are tried in this order, each at
its first occurrence. -/
def ofPart (part : List Char) : Except LabelFault Requirement :=
  match Text.cut? " notin ".toList part with
  | some (key, rest) =>
    match valuesOf? rest with
    | some values => .ok (.noneOf (trimmed key) values)
    | none => .error .malformedValues
  | none =>
    match Text.cut? " in ".toList part with
    | some (key, rest) =>
      match valuesOf? rest with
      | some values => .ok (.oneOf (trimmed key) values)
      | none => .error .malformedValues
    | none =>
      match Text.cut? "!=".toList part with
      | some (key, value) => .ok (.notEquals (trimmed key) (trimmed value))
      | none =>
        match Text.cut? "==".toList part with
        | some (key, value) => .ok (.equals (trimmed key) (trimmed value))
        | none =>
          match Text.cut? "=".toList part with
          | some (key, value) => .ok (.equals (trimmed key) (trimmed value))
          | none =>
            match part with
            | '!' :: key => .ok (.absent (trimmed key))
            | _ => .ok (.present (String.ofList part))

def isKey (key : String) : Bool :=
  !key.isEmpty && !key.toList.any Text.isBlank

def parse (piece : List Char) : Except LabelFault Requirement := do
  let part := Text.trim piece
  if part.isEmpty then throw .emptyRequirement
  let requirement ← ofPart part
  if isKey requirement.key then return requirement else throw .malformedKey

end Requirement

namespace LabelSelector

/-- Cut at the commas outside of parentheses. -/
def partsFrom (depth : Nat) : List Char → List (List Char)
  | [] => [[]]
  | c :: rest =>
    if c = ',' ∧ depth = 0 then [] :: partsFrom 0 rest
    else
      let depth := if c = '(' then depth + 1 else if c = ')' then depth - 1 else depth
      match partsFrom depth rest with
      | [] => [[c]]
      | part :: parts => (c :: part) :: parts

def parse (text : String) : Except LabelSelectorError LabelSelector :=
  if (Text.trim text.toList).isEmpty then .ok ⟨[]⟩
  else
    match (partsFrom 0 text.toList).mapM Requirement.parse with
    | .ok requirements => .ok ⟨requirements⟩
    | .error fault => .error ⟨text, fault⟩

/-- The selector that asks for every label of the map. -/
def ofLabels (labels : Labels) : LabelSelector :=
  ⟨labels.entries.map fun (key, value) => .equals key value⟩

def isEmpty (selector : LabelSelector) : Bool :=
  selector.requirements.isEmpty

def selects (selector : LabelSelector) (labels : Labels) : Bool :=
  selector.requirements.all fun r => r.holds labels

def toText (selector : LabelSelector) : String :=
  Text.joined "," (selector.requirements.map Requirement.toText)

end LabelSelector

end WorkloadTuning
