import WorkloadTuning.Error
import WorkloadTuning.Experiment.Parameter
import WorkloadTuning.FieldPath.Tree
import WorkloadTuning.Generation.Namer
import WorkloadTuning.Template

/-! Tunable fields: places in resources that become parameters, with the patch that sets them. -/

namespace WorkloadTuning

/-- Inclusive bounds of a numeric parameter. -/
structure Bounds where
  min : Int
  max : Int
deriving DecidableEq, Repr

/-- Widen the bounds as far as the value needs. -/
def Bounds.including (b : Bounds) (value : Int) : Bounds :=
  ⟨Min.min b.min value, Max.max b.max value⟩

/-- The unit that memory is tuned in. -/
inductive MemoryUnit where
  | mebibytes
  | megabytes
deriving DecidableEq, Repr

def MemoryUnit.suffix : MemoryUnit → String
  | mebibytes => "Mi"
  | megabytes => "M"

/-- A replica count; it has no value when the patch creates it. -/
structure ReplicaField where
  target : ObjectReference
  path : FieldPath
  value : Option Int32
deriving DecidableEq, Repr

/-- The cpu in thousandths and the memory of the container at the path. -/
structure ContainerField where
  target : ObjectReference
  path : FieldPath
  cpu : Option Int
  memory : Option Int
  unit : MemoryUnit
  /-- The container declares no resources yet. -/
  synthesized : Bool
deriving DecidableEq, Repr

/-- An environment variable of the container at the path; it has no value when the patch creates
it. -/
structure VariableField where
  target : ObjectReference
  path : FieldPath
  name : String
  value : Option String
  values : List String
deriving DecidableEq, Repr

inductive TunableField where
  | replicas (field : ReplicaField)
  | container (field : ContainerField)
  | envVar (field : VariableField)
deriving DecidableEq, Repr

namespace ReplicaField

def suffix : String := "replicas"

/-- The count to start from, one when there is none. A count of zero or less is not tuned. -/
def baseline? (f : ReplicaField) : Option Int32 :=
  let value := f.value.getD 1
  if 0 < value then some value else none

def suffixes (f : ReplicaField) : List String :=
  if f.baseline?.isSome then [suffix] else []

def parameters (f : ReplicaField) (namer : Namer) : List Parameter :=
  match f.baseline? with
  | none => []
  | some baseline =>
    [.integer (namer.name f.target f.path suffix) 1 (Max.max baseline 5) baseline]

def patch (f : ReplicaField) (namer : Namer) : Except PathError Json :=
  match f.baseline? with
  | none => .ok (.object [])
  | some _ =>
    f.path.fragment (.string (Template.placeholder (namer.name f.target f.path suffix)))

end ReplicaField

/-- One resource of a container as it is tuned. -/
structure ResourceBaseline where
  suffix : String
  unit : String
  bounds : Bounds
  value : Int
deriving DecidableEq, Repr

namespace ContainerField

def cpuBounds : Bounds := ⟨100, 4000⟩

/-- In the unit that the memory is tuned in. -/
def memoryBounds : Bounds := ⟨128, 4096⟩

/-- Positive values are tuned, and least ones for a container that declares nothing. -/
def baselineOf? (synthesized : Bool) (suffix unit : String) (bounds : Bounds) :
    Option Int → Option ResourceBaseline
  | some value => if 0 < value then some ⟨suffix, unit, bounds, value⟩ else none
  | none => if synthesized then some ⟨suffix, unit, bounds, bounds.min⟩ else none

def baselines (f : ContainerField) : List ResourceBaseline :=
  (baselineOf? f.synthesized "cpu" "m" cpuBounds f.cpu).toList ++
    (baselineOf? f.synthesized "memory" f.unit.suffix memoryBounds f.memory).toList

def suffixes (f : ContainerField) : List String :=
  f.baselines.map ResourceBaseline.suffix

def parameters (f : ContainerField) (namer : Namer) : List Parameter :=
  f.baselines.map fun b =>
    let bounds := b.bounds.including b.value
    .integer (namer.name f.target f.path b.suffix) (clampInt32 bounds.min) (clampInt32 bounds.max)
      (clampInt32 b.value)

/-- Limits and requests are set alike. -/
def patch (f : ContainerField) (namer : Namer) : Except PathError Json :=
  if f.baselines.isEmpty then .ok (.object [])
  else
    let values := f.baselines.map fun b =>
      (b.suffix, Json.string (Template.placeholder (namer.name f.target f.path b.suffix) ++ b.unit))
    (f.path.push (.field "resources")).fragment
      (.object [("limits", .object values), ("requests", .object values)])

end ContainerField

namespace VariableField

def suffix (f : VariableField) : String :=
  Text.lower f.name

/-- The path of the variable's value, after which its parameter is named. -/
def valuePath (f : VariableField) : FieldPath :=
  ((f.path.push (.field "env")).push (.element Json.mergeKey f.name)).push (.field "value")

def suffixes (f : VariableField) : List String :=
  if f.values.isEmpty then [] else [f.suffix]

/-- The current value is added to the values if it is not among them. -/
def parameters (f : VariableField) (namer : Namer) : List Parameter :=
  match f.values with
  | [] => []
  | first :: _ =>
    let name := namer.name f.target f.valuePath f.suffix
    match f.value with
    | none => [.categorical name f.values first]
    | some value =>
      let values := if f.values.contains value then f.values else f.values ++ [value]
      [.categorical name values value]

def patch (f : VariableField) (namer : Namer) : Except PathError Json :=
  if f.values.isEmpty then .ok (.object [])
  else
    f.valuePath.fragment
      (.string (Template.placeholder (namer.name f.target f.valuePath f.suffix)))

end VariableField

namespace TunableField

def target : TunableField → ObjectReference
  | replicas f => f.target
  | container f => f.target
  | envVar f => f.target

/-- The path that the field's parameters are named after. -/
def path : TunableField → FieldPath
  | replicas f => f.path
  | container f => f.path
  | envVar f => f.valuePath

/-- The suffixes of the field's parameters; without any it is not tunable. -/
def suffixes : TunableField → List String
  | replicas f => f.suffixes
  | container f => f.suffixes
  | envVar f => f.suffixes

def nameKeys (f : TunableField) : List NameKey :=
  f.suffixes.map fun suffix => ⟨f.target, f.path, suffix⟩

def parameters (namer : Namer) : TunableField → List Parameter
  | replicas f => f.parameters namer
  | container f => f.parameters namer
  | envVar f => f.parameters namer

/-- The structural patch that sets the field to the placeholders of its parameters. -/
def patch (namer : Namer) : TunableField → Outcome Json
  | replicas f => (f.patch namer).mapError .path
  | container f => (f.patch namer).mapError .path
  | envVar f => (f.patch namer).mapError .path

end TunableField

end WorkloadTuning
