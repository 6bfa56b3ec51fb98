import WorkloadTuning.Json.Pointer

/-! JSON patches: lists of operations at pointers, applied all or not at all. -/

namespace WorkloadTuning

namespace Json

inductive Operation where
  | add (path : Pointer) (value : Json)
  | remove (path : Pointer)
  | replace (path : Pointer) (value : Json)
  | move (source path : Pointer)
  | copy (source path : Pointer)
  | test (path : Pointer) (value : Json)
deriving DecidableEq, Repr

/-- Why an operation cannot be carried out. -/
inductive OperationError where
  | testFailed
  | sourceInvalid
  | pathInvalid
  | moveInsideItself
deriving DecidableEq, Repr

def OperationError.message : OperationError → String
  | testFailed => "value did not match"
  | sourceInvalid => "\"from\" path is invalid"
  | pathInvalid => "path is invalid"
  | moveInsideItself => "cannot move the value inside itself"

namespace Operation

/-- The location an operation is about. -/
def path : Operation → Pointer
  | add path _ | remove path | replace path _ | move _ path | copy _ path | test path _ => path

/-- Put a value under the last step: as a member, before a list element, or at the end for `-`. -/
def insertChild (token : String) (value : Json) : Json → Option Json
  | object ms => some (object (Members.set token value ms))
  | array items =>
    if token = "-" then some (array (items ++ [value]))
    else do
      let i ← Pointer.index? token
      if i ≤ items.length then return array (items.insertIdx i value) else none
  | _ => none

/-- Take out what the last step leads to. -/
def removeChild (token : String) : Json → Option Json
  | object ms => if (Members.get? ms token).isSome then some (object (Members.erase token ms)) else none
  | array items => do
    let i ← Pointer.index? token
    if i < items.length then return array (items.eraseIdx i) else none
  | _ => none

/-- Go to the parent of the location; the root has none. -/
def atParent? (f : String → Json → Option Json) (tokens : List String) (json : Json) :
    Option Json := do
  let last ← tokens.getLast?
  modifyAt? (f last) tokens.dropLast json

def addAt? (tokens : List String) (value json : Json) : Option Json :=
  if tokens.isEmpty then some value
  else atParent? (fun token parent => insertChild token value parent) tokens json

def removeAt? (tokens : List String) (json : Json) : Option Json :=
  atParent? removeChild tokens json

def orError (e : OperationError) : Option Json → Except OperationError Json
  | some json => .ok json
  | none => .error e

def apply (json : Json) : Operation → Except OperationError Json
  | add path value => orError .pathInvalid (addAt? path.tokens value json)
  | remove path => orError .pathInvalid (removeAt? path.tokens json)
  | replace path value => orError .pathInvalid (modifyAt? (fun _ => some value) path.tokens json)
  | move source path => do
    if source.tokens.isPrefixOf path.tokens && source.tokens.length != path.tokens.length then
      throw .moveInsideItself
    let value ← orError .sourceInvalid (json.resolve? source.tokens)
    let rest ← orError .sourceInvalid (removeAt? source.tokens json)
    orError .pathInvalid (addAt? path.tokens value rest)
  | copy source path => do
    let value ← orError .sourceInvalid (json.resolve? source.tokens)
    orError .pathInvalid (addAt? path.tokens value json)
  | test path value => do
    let found ← orError .pathInvalid (json.resolve? path.tokens)
    if found.same value then return json else throw .testFailed

/-- The parts of an operation, which stand in an object by name or in a list in this order. -/
def fieldsOf : String → Option (List String)
  | "add" | "replace" | "test" => some ["path", "value"]
  | "remove" => some ["path"]
  | "move" | "copy" => some ["from", "path"]
  | _ => none

def ofParts? (kind : String) (part : String → Option Json) : Option Operation := do
  let pointer (key : String) : Option Pointer := do
    Pointer.parse? (← (← part key).asString?)
  match kind with
  | "add" => return add (← pointer "path") (← part "value")
  | "remove" => return remove (← pointer "path")
  | "replace" => return replace (← pointer "path") (← part "value")
  | "move" => return move (← pointer "from") (← pointer "path")
  | "copy" => return copy (← pointer "from") (← pointer "path")
  | "test" => return test (← pointer "path") (← part "value")
  | _ => none

/-- Read one operation: an object with its kind under `op`, or a list that starts with the kind. -/
def ofJson? : Json → Option Operation
  | object ms => do ofParts? (← (← Members.get? ms "op").asString?) (Members.get? ms)
  | array (string kind :: items) => do
    let fields ← fieldsOf kind
    if items.length = fields.length then ofParts? kind (fun key => (fields.zip items).lookup key) else none
  | _ => none

end Operation

/-- The place and the cause of a patch's first failure. -/
structure PatchFailure where
  index : Nat
  path : Pointer
  cause : OperationError
deriving DecidableEq, Repr

def PatchFailure.message (e : PatchFailure) : String :=
  s!"operation '/{e.index}' failed at path '{e.path.toText}': {e.cause.message}"

def operationsOf? (json : Json) : Option (List Operation) := do
  (← json.asArray?).mapM Operation.ofJson?

def applyFrom (index : Nat) (json : Json) : List Operation → Except PatchFailure Json
  | [] => .ok json
  | op :: rest =>
    match op.apply json with
    | .ok next => applyFrom (index + 1) next rest
    | .error cause => .error ⟨index, op.path, cause⟩

/-- All operations in order, or the first failure. -/
def applyOperations (json : Json) (ops : List Operation) : Except PatchFailure Json :=
  applyFrom 0 json ops

end Json

end WorkloadTuning
