import WorkloadTuning.Application.Basic
import WorkloadTuning.Experiment.Basic
import WorkloadTuning.Selection.Selector

/-! Generation: selectors are run over all resources, the fields found are named, and each resource
with fields gets one patch template. -/

namespace WorkloadTuning

/-- One structural patch per target, in the order in which the targets were found. -/
structure Generated where
  parameters : List Parameter
  patches : List PatchTemplate
  metrics : List Metric
deriving DecidableEq, Repr

/-- The definition of an experiment of that name. -/
def Generated.experiment (g : Generated) (name : String) : Experiment :=
  { Experiment.named name with
    spec := { parameters := g.parameters, patches := g.patches, metrics := g.metrics } }

structure Generator where
  selectors : List Selector := []
  metrics : List Metric := []
deriving DecidableEq, Repr, Inhabited

namespace Generator

/-- Register a selector, with defaults for what it leaves open. -/
def addSelector (g : Generator) (s : Selector) : Generator :=
  { g with selectors := g.selectors ++ [s.applyDefaults] }

def addMetric (g : Generator) (m : Metric) : Generator :=
  { g with metrics := g.metrics ++ [m] }

/-- Criteria for the labels of a hint. -/
def criteriaOf (hint : Option ParameterHint) : Criteria :=
  match hint with
  | some h => { labelSelector := (LabelSelector.ofLabels h.labels).toText }
  | none => {}

/-- Container resources are always tuned, replicas when the application hints at them, and every
objective with a known measure becomes a metric. -/
def forApplication (app : Application) : Generator :=
  let app := app.applyDefaults
  let hints := app.parameters.getD {}
  let g : Generator := {}
  let g := g.addSelector (.containers { criteria := criteriaOf hints.containerResources })
  let g :=
    match hints.replicas with
    | some hint => g.addSelector (.replicas { criteria := criteriaOf (some hint) })
    | none => g
  { g with metrics := app.objectives.filterMap Objective.metric? }

section Engine
variable [RegexEngine]

/-- The selectors with their criteria read. -/
def matchers (g : Generator) : Outcome (List (Matcher × Selector)) :=
  g.selectors.mapM fun s => s.criteria.matcher.map (·, s)

def tunableFields (r : Resource) (s : Selector) : Outcome (List TunableField) :=
  (s.fields r).map fun fields => fields.filter fun f => !f.suffixes.isEmpty

/-- The tunable fields that the selectors find in one resource. -/
def fieldsOf (matchers : List (Matcher × Selector)) (r : Resource) :
    Outcome (List TunableField) := do
  let chosen := matchers.filter fun m => m.1.selects r
  return (← chosen.mapM fun m => tunableFields r m.2).flatten

/-- All tunable fields, resource by resource. -/
def fields (g : Generator) (set : ResourceSet) : Outcome (List TunableField) := do
  let matchers ← g.matchers
  return (← set.resources.mapM (fieldsOf matchers)).flatten

end Engine

/-- The parameters of the fields; of several with one name, the first. -/
def parametersOf (namer : Namer) (fields : List TunableField) : List Parameter :=
  (fields.flatMap (TunableField.parameters namer)).foldl
    (fun found p => if found.any fun q => q.name == p.name then found else found ++ [p]) []

/-- Merge a fragment into the patch of its target. -/
def addFragment (target : ObjectReference) (fragment : Json) :
    List (ObjectReference × Json) → List (ObjectReference × Json)
  | [] => [(target, fragment)]
  | (t, patch) :: rest =>
    if t = target then (t, patch.merge fragment) :: rest
    else (t, patch) :: addFragment target fragment rest

/-- One patch per target. -/
def patchesOf (namer : Namer) (fields : List TunableField) :
    Outcome (List (ObjectReference × Json)) :=
  fields.foldlM (fun patches f => do
    return addFragment f.target (← f.patch namer) patches) []

def generate [RegexEngine] (g : Generator) (set : ResourceSet) : Outcome Generated := do
  let fields ← g.fields set
  let namer := Namer.ofKeys (fields.flatMap TunableField.nameKeys)
  let patches ← patchesOf namer fields
  return { parameters := parametersOf namer fields
           patches := patches.map fun (target, patch) => { patch, target := some target }
           metrics := g.metrics }

end Generator

end WorkloadTuning
