import WorkloadTuning.Generation.Field
import WorkloadTuning.Selection.Criteria

/-! Selectors: what kind of field to look for, in which resources, and at which path. -/

namespace WorkloadTuning

open Record

structure ReplicaSelector where
  criteria : Criteria := {}
  path : String := ""
  /-- Tune the count also where it is not set. -/
  create : Bool := false
deriving DecidableEq, Repr, Inhabited

structure ContainerSelector where
  criteria : Criteria := {}
  /-- Path of the list of containers. -/
  path : String := ""
  /-- Tune containers also where they declare no resources. -/
  create : Bool := false
deriving DecidableEq, Repr, Inhabited

structure VariableSelector where
  criteria : Criteria := {}
  /-- Path of the list of containers. -/
  path : String := ""
  name : String := ""
  /-- The values to choose from. -/
  values : List String := []
  /-- Tune the variable also where it is not declared. -/
  create : Bool := false
deriving DecidableEq, Repr, Inhabited

inductive Selector where
  | replicas (selector : ReplicaSelector)
  | containers (selector : ContainerSelector)
  | envVar (selector : VariableSelector)
deriving DecidableEq, Repr

namespace Selector

def defaultGroup : String := "apps|extensions"

def defaultKind : String := "Deployment|StatefulSet"

def defaultReplicasPath : String := "/spec/replicas"

def defaultContainersPath : String := "/spec/template/spec/containers"

def pathOr (path default : String) : String :=
  if path.isEmpty then default else path

end Selector

namespace ReplicaSelector

def take (s : ReplicaSelector) (key : String) (value : Json) : Decoded ReplicaSelector :=
  match key with
  | "path" => return { s with path := ← ofJson value }
  | "create" => return { s with create := ← ofJson value }
  | _ => return { s with criteria := ← s.criteria.take key value }

instance : Record ReplicaSelector where
  toJson s := .object (s.criteria.members ++ textMember "path" s.path ++ member "create" s.create)
  ofJson := readOpen take {} []

def applyDefaults (s : ReplicaSelector) : ReplicaSelector :=
  { s with
    criteria := s.criteria.withDefaultKind Selector.defaultGroup Selector.defaultKind
    path := Selector.pathOr s.path Selector.defaultReplicasPath }

/-- The field at one location, if it is tuned. -/
def fieldAt (s : ReplicaSelector) (target : ObjectReference) (path : FieldPath)
    (value : Option Json) : Outcome (Option ReplicaField) :=
  match value.filter fun v => !v.isNull with
  | none => .ok (if s.create then some ⟨target, path, none⟩ else none)
  | some found =>
    match found.asInt? with
    | some i =>
      if fitsInt32 i then .ok (some ⟨target, path, some (Int32.ofInt i)⟩)
      else .error (.replicaCount path target found)
    | none => .error (.replicaCount path target found)

def fields (s : ReplicaSelector) (r : Resource) : Outcome (List ReplicaField) := do
  let path ← (FieldPath.parse s.path).mapError .path
  let found ← (path.expand r.tree).mapError .path
  let fields ← found.mapM fun (path, value) => s.fieldAt r.target path value
  return fields.filterMap id

end ReplicaSelector

namespace ContainerSelector

def take (s : ContainerSelector) (key : String) (value : Json) : Decoded ContainerSelector :=
  match key with
  | "path" => return { s with path := ← ofJson value }
  | "create" => return { s with create := ← ofJson value }
  | _ => return { s with criteria := ← s.criteria.take key value }

instance : Record ContainerSelector where
  toJson s := .object (s.criteria.members ++ textMember "path" s.path ++ member "create" s.create)
  ofJson := readOpen take {} []

def applyDefaults (s : ContainerSelector) : ContainerSelector :=
  { s with
    criteria := s.criteria.withDefaultKind Selector.defaultGroup Selector.defaultKind
    path := Selector.pathOr s.path Selector.defaultContainersPath }

def readQuantity : Json → Outcome Quantity
  | .string s => (Quantity.parse s).mapError .quantity
  | .number n => (Quantity.parse n.toText).mapError .quantity
  | other => .error (.quantityExpected other)

/-- What the container declares of a resource: its limit, or else its request. -/
def declared? (container : Json) (name : String) : Option Json :=
  (container.follow? ["resources", "limits", name]).or
    (container.follow? ["resources", "requests", name])

def readDeclared (container : Json) (name : String) : Outcome (Option Quantity) :=
  match declared? container name with
  | none => .ok none
  | some json => (readQuantity json).map some

/-- Memory in whole units: in mebibytes or in megabytes where these are exact, and else in
mebibytes, rounded up. -/
def memoryIn (q : Quantity) : Outcome (Int × MemoryUnit) :=
  match q.exactValue? MemoryUnit.mebibytes.suffix, q.exactValue? MemoryUnit.megabytes.suffix with
  | some value, _ => .ok (value, .mebibytes)
  | none, some value => .ok (value, .megabytes)
  | none, none =>
    match q.mebiValue? with
    | some value => .ok (value, .mebibytes)
    | none => .error .outOfRange

/-- The field of one container, if it is tuned. -/
def fieldAt (s : ContainerSelector) (target : ObjectReference) (path : FieldPath)
    (container : Json) : Outcome (Option ContainerField) := do
  let cpu := (← readDeclared container "cpu").map Quantity.milliValue
  let memory ← (← readDeclared container "memory").mapM memoryIn
  let synthesized := cpu.isNone && memory.isNone
  if synthesized && !s.create then return none
  return some { target, path, cpu, memory := memory.map Prod.fst
                unit := (memory.map Prod.snd).getD .mebibytes, synthesized }

def fields (s : ContainerSelector) (r : Resource) : Outcome (List ContainerField) := do
  let path ← (FieldPath.parse s.path).mapError .path
  let found ← ((path.push .wildcard).expand r.tree).mapError .path
  let fields ← found.mapM fun (path, container) =>
    s.fieldAt r.target path (container.getD .null)
  return fields.filterMap id

end ContainerSelector

namespace VariableSelector

def take (s : VariableSelector) (key : String) (value : Json) : Decoded VariableSelector :=
  match key with
  | "path" => return { s with path := ← ofJson value }
  | "name" => return { s with name := ← ofJson value }
  | "values" => return { s with values := ← ofJson value }
  | "create" => return { s with create := ← ofJson value }
  | _ => return { s with criteria := ← s.criteria.take key value }

instance : Record VariableSelector where
  toJson s := .object (s.criteria.members ++ textMember "path" s.path ++ member "name" s.name ++
    member "values" s.values ++ member "create" s.create)
  ofJson := readOpen take {} ["name"]

def applyDefaults (s : VariableSelector) : VariableSelector :=
  { s with
    criteria := s.criteria.withDefaultKind Selector.defaultGroup Selector.defaultKind
    path := Selector.pathOr s.path Selector.defaultContainersPath }

/-- The variable's entry in the container's environment. -/
def entry? (s : VariableSelector) (container : Json) : Option Json := do
  let env ← (← container.get? "env").asArray?
  FieldPath.findElement? Json.mergeKey s.name env

/-- The field of one container, if the variable is tuned there. A variable whose value comes from
elsewhere is not. -/
def fieldAt (s : VariableSelector) (target : ObjectReference) (path : FieldPath)
    (container : Json) : Outcome (Option VariableField) :=
  let field (value : Option String) : VariableField :=
    { target, path, name := s.name, value, values := s.values }
  match s.entry? container with
  | none => .ok (if s.create then some (field none) else none)
  | some entry =>
    match entry.get? "value" with
    | some (.string value) => .ok (some (field (some value)))
    | some .null => .ok (some (field (some "")))
    | none => .ok (if (entry.get? "valueFrom").isSome then none else some (field (some "")))
    | some other => .error (.variableValue s.name path target other)

def fields (s : VariableSelector) (r : Resource) : Outcome (List VariableField) := do
  if s.name.isEmpty then throw .variableNameRequired
  if s.values.isEmpty then return []
  let path ← (FieldPath.parse s.path).mapError .path
  let found ← ((path.push .wildcard).expand r.tree).mapError .path
  let fields ← found.mapM fun (path, container) =>
    s.fieldAt r.target path (container.getD .null)
  return fields.filterMap id

end VariableSelector

namespace Selector

/-- Fill in the criteria and the path where nothing is configured. -/
def applyDefaults : Selector → Selector
  | replicas s => replicas s.applyDefaults
  | containers s => containers s.applyDefaults
  | envVar s => envVar s.applyDefaults

def criteria : Selector → Criteria
  | replicas s => s.criteria
  | containers s => s.criteria
  | envVar s => s.criteria

/-- The tunable fields of a resource, whether or not it meets the criteria. -/
def fields (r : Resource) : Selector → Outcome (List TunableField)
  | replicas s => (s.fields r).map fun l => l.map .replicas
  | containers s => (s.fields r).map fun l => l.map .container
  | envVar s => (s.fields r).map fun l => l.map .envVar

end Selector

end WorkloadTuning
