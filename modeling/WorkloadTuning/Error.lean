import WorkloadTuning.FieldPath.Basic
import WorkloadTuning.Json.Patch
import WorkloadTuning.Labels
import WorkloadTuning.Patch.Basic
import WorkloadTuning.Quantity
import WorkloadTuning.Resource.Reference
import WorkloadTuning.Template

/-! Everything that can go wrong: the cause, its category, and its wording. -/

namespace WorkloadTuning

inductive ErrorKind where
  | configuration
  | dataShape
  | incompatible
  | serialization
  | remote
  | internal
deriving DecidableEq, Repr

def ErrorKind.toText : ErrorKind → String
  | configuration => "invalid configuration"
  | dataShape => "unexpected data shape"
  | incompatible => "incompatible definitions"
  | serialization => "serialization failed"
  | remote => "remote service error"
  | internal => "internal error"

/-- What the optimization service tells about a refusal. -/
inductive ServiceErrorKind where
  | experimentStopped
  | experimentNotFound
  | trialUnavailable
  | unexpected
deriving DecidableEq, Repr

structure ServiceError where
  kind : ServiceErrorKind
  message : String
deriving DecidableEq, Repr

/-- What is compared between an experiment and its definition at the service. -/
inductive DefinitionPart where
  | parameters
  | metrics
deriving DecidableEq, Repr

def DefinitionPart.word : DefinitionPart → String
  | parameters => "parameters"
  | metrics => "metrics"

inductive Error where
  | quantity (e : QuantityError)
  | path (e : PathError)
  | template (e : TemplateError)
  | labels (e : LabelSelectorError)
  | pattern (text : String)
  | anonymousResource (tree : Json)
  | replicaCount (path : FieldPath) (target : ObjectReference) (found : Json)
  | quantityExpected (found : Json)
  | variableNameRequired
  | variableValue (name : String) (path : FieldPath) (target : ObjectReference) (found : Json)
  | unassigned (trial parameter : String)
  | notAnObject (kind : PatchKind) (target : ObjectReference)
  | missingTarget (target : ObjectReference)
  | notOperations (target : ObjectReference)
  | operationFailed (target : ObjectReference) (failure : Json.PatchFailure)
  | baselineOutOfRange (parameter : String)
  | baselineIncomplete
  | definitionsDiffer (part : DefinitionPart) (experiment : String) (here found : List String)
  | noReportLocation (trial : String)
  | service (e : ServiceError)
  | record
  | outOfRange
  | stated (kind : ErrorKind) (message : Option String)
deriving DecidableEq, Repr

namespace Error

/-- Arithmetic that leaves its range belongs to no category of its own; it counts as internal. -/
def kind : Error → ErrorKind
  | quantity .outOfRange | outOfRange => .internal
  | quantity _ => .dataShape
  | path _ => .configuration
  | template (.missing _) => .dataShape
  | template _ => .configuration
  | labels _ => .configuration
  | pattern _ => .configuration
  | anonymousResource _ => .dataShape
  | replicaCount .. => .dataShape
  | quantityExpected _ => .dataShape
  | variableNameRequired => .configuration
  | variableValue .. => .dataShape
  | unassigned .. => .dataShape
  | notAnObject .. => .configuration
  | missingTarget _ => .configuration
  | notOperations _ => .dataShape
  | operationFailed .. => .dataShape
  | baselineOutOfRange _ => .dataShape
  | baselineIncomplete => .dataShape
  | definitionsDiffer .. => .incompatible
  | noReportLocation _ => .dataShape
  | service _ => .remote
  | record => .serialization
  | stated kind _ => kind

def isOutOfRange : Error → Bool
  | quantity .outOfRange | outOfRange => true
  | _ => false

/-- The refusal of the service behind the error. -/
def serviceError? : Error → Option ServiceError
  | service e => some e
  | _ => none

/-- A character inside quotes, with escapes for what would not show. -/
def quotedChar (c : Char) : List Char :=
  match c with
  | '"' => ['\\', '"']
  | '\\' => ['\\', '\\']
  | '\n' => ['\\', 'n']
  | '\r' => ['\\', 'r']
  | '\t' => ['\\', 't']
  | c =>
    if c.toNat = 0 then ['\\', '0']
    else if c.toNat < 32 || c.toNat == 127 then
      "\\u\x7b".toList ++ Nat.toDigits 16 c.toNat ++ ['\x7d']
    else [c]

def quoted (s : String) : String :=
  "\"" ++ String.ofList (s.toList.flatMap quotedChar) ++ "\""

/-- A set of names in braces. -/
def nameSet (names : List String) : String :=
  "\x7b" ++ Text.joined ", " (names.map quoted) ++ "\x7d"

def message : Error → String
  | quantity e => e.message
  | path e => e.message
  | template e => e.message
  | labels e => e.message
  | pattern text => s!"invalid pattern '{text}'"
  | anonymousResource tree => s!"resource is missing a kind or a name: {tree.toText}"
  | replicaCount location target found =>
    s!"expected a replica count at {location.toText} of {target.toText}, found {found.toText}"
  | quantityExpected found => s!"expected a quantity, found {found.toText}"
  | variableNameRequired => "environment variable selector requires a variable name"
  | variableValue name location target found =>
    s!"expected a string value for variable {name} at {location.toText} of {target.toText}" ++
      s!", found {found.toText}"
  | unassigned trial parameter =>
    s!"trial '{trial}' has no assignment for parameter '{parameter}'"
  | notAnObject kind target =>
    s!"{kind.title} patch for {target.toText} cannot be converted to an object"
  | missingTarget target => s!"no resource matches patch target {target.toText}"
  | notOperations target => s!"json patch for {target.toText} must be a list of operations"
  | operationFailed target failure =>
    s!"failed to apply json patch to {target.toText}: {failure.message}"
  | baselineOutOfRange parameter => s!"baseline out of range for parameter '{parameter}'"
  | baselineIncomplete => "baseline must be specified on all or none of the parameters"
  | definitionsDiffer part experiment here found =>
    s!"experiment '{experiment}' has {part.word} {nameSet here} but the service expects " ++
      nameSet found
  | noReportLocation trial => s!"trial '{trial}' has no location to report to"
  | service e => e.message
  | record => ErrorKind.serialization.toText
  | outOfRange => "arithmetic out of range"
  | stated kind text => text.getD kind.toText

end Error

/-- The outcome of an operation of this library. -/
abbrev Outcome := Except Error

end WorkloadTuning
