import WorkloadTuning.Error
import WorkloadTuning.Experiment.Basic
import WorkloadTuning.Service.Basic

/-! An experiment at the service: whether it still is the one that the service knows, what is sent to
register it, and how it follows what the service tells about it. -/

namespace WorkloadTuning

namespace Experiment

/-! ### Agreement -/

/-- The parameters that the service is told about, which are those with a choice of values. -/
def freeParameters (e : Experiment) : List Parameter :=
  e.spec.parameters.filter fun p => !p.isDegenerate

/-- Compare two sets of names. -/
def compareNames (e : Experiment) (part : DefinitionPart) (here found : List String) :
    Outcome Unit :=
  let here := sortedNames here
  let found := sortedNames found
  if here = found then .ok () else .error (.definitionsDiffer part e.name here found)

/-- Compare the experiment with its definition at the service. -/
def checkDefinition (e : Experiment) (definition : Service.Definition) : Outcome Unit := do
  e.compareNames .parameters (e.freeParameters.map Parameter.name)
    (definition.parameters.map Service.Parameter.name)
  e.compareNames .metrics (e.spec.metrics.map Metric.name)
    (definition.metrics.map Service.Metric.name)

end Experiment

/-! ### Submission -/

structure Submission where
  name : String
  definition : Service.Definition
  /-- Only given when every free parameter has a baseline. -/
  baseline : Option Service.Suggestion := none
deriving DecidableEq, Repr

/-- A number of thousandths in whole units. -/
def Quantity.toBinary64 (q : Quantity) : Binary64 :=
  (Binary64.ofInt q.milliValue).div (Binary64.ofNat 1000)

namespace Parameter

def toService (p : Parameter) : Service.Parameter :=
  if p.isCategorical then { type := .categorical, name := p.name, values := p.values }
  else
    { type := .integer, name := p.name
      bounds := some { min := .int p.min.toInt, max := .int p.max.toInt } }

/-- The value can be a baseline: a text among the values, or an integer within the bounds. -/
def admits (p : Parameter) : IntOrString → Bool
  | .string s => p.values.contains s
  | .int i => p.min ≤ i && i ≤ p.max

/-- The assignment of the parameter's baseline, if it has one. -/
def baselineAssignment (p : Parameter) : Outcome (Option Service.Assignment) :=
  match p.baseline with
  | none => .ok none
  | some value =>
    if p.admits value then .ok (some { parameterName := p.name, value := .ofIntOrString value })
    else .error (.baselineOutOfRange p.name)

end Parameter

namespace SumConstraint

def toService (c : SumConstraint) : Service.SumConstraint :=
  let weighted := c.parameters.filter fun p => !p.weight.isZero
  { isUpperBound := c.isUpperBound
    bound := c.bound.toBinary64
    parameters := weighted.map fun p => { name := p.name, weight := p.weight.toBinary64 } }

end SumConstraint

/-- A constraint without a form says nothing. -/
def Constraint.toService? (c : Constraint) : Option Service.Constraint :=
  match c.order, c.sum with
  | some order, _ => some { name := c.name, form := .order order }
  | none, some sum => some { name := c.name, form := .sum sum.toService }
  | none, none => none

def Metric.toService (m : Metric) : Service.Metric :=
  { name := m.name, minimize := m.minimize, optimize := m.optimize }

/-- The key of a label without the domain of this system. -/
def serviceLabelKey (key : String) : String :=
  match Text.dropStart? Vocabulary.domain.toList key.toList with
  | some rest => String.ofList rest
  | none => key

namespace Experiment

/-- Where the service keeps the experiment, as far as that is known. -/
def locations (e : Experiment) : Service.Locations :=
  { selfUrl := (e.metadata.annotation? Vocabulary.experimentUrl).getD ""
    nextTrialUrl := (e.metadata.annotation? Vocabulary.nextTrialUrl).getD ""
    lastModified := e.metadata.creationTimestamp }

def toDefinition (e : Experiment) : Service.Definition :=
  { locations := e.locations
    labels := Dict.ofList
      (e.metadata.labels.entries.map fun (key, value) => (serviceLabelKey key, value))
    optimization := e.spec.optimization
    parameters := e.freeParameters.map Parameter.toService
    constraints := e.spec.constraints.filterMap Constraint.toService?
    metrics := e.spec.metrics.map Metric.toService }

/-- The baseline trial has a value for all free parameters; it is an error if only some have one. -/
def baselineSuggestion (e : Experiment) : Outcome (Option Service.Suggestion) := do
  let assignments := (← e.freeParameters.mapM Parameter.baselineAssignment).filterMap id
  if assignments.isEmpty then return none
  if assignments.length ≠ e.freeParameters.length then throw .baselineIncomplete
  return some { labels := Dict.ofList [("baseline", "true")], assignments }

def submission (e : Experiment) : Outcome Submission := do
  return { name := e.name, definition := e.toDefinition, baseline := ← e.baselineSuggestion }

/-! ### Adoption -/

/-- Note down where the service keeps the experiment and how it optimizes. The finalizer keeps the
experiment from being removed before the service knows. -/
def adopt (e : Experiment) (definition : Service.Definition) : Experiment :=
  let metadata := (e.metadata.annotate Vocabulary.experimentUrl definition.locations.selfUrl).annotate
    Vocabulary.nextTrialUrl definition.locations.nextTrialUrl
  { e with
    metadata := metadata.addFinalizer Vocabulary.finalizer
    spec := { e.spec with optimization := definition.optimization } }

/-- No more trials: none run, and there is no location to ask for the next. -/
def stop (e : Experiment) : Experiment :=
  let e := e.setReplicas 0
  { e with metadata := e.metadata.removeAnnotation Vocabulary.nextTrialUrl }

/-- The stopped experiment, if the error says that the service has stopped it. -/
def stopped? (e : Experiment) (err : Error) : Option Experiment :=
  if err.serviceError?.any fun s => s.kind = .experimentStopped then some e.stop else none

/-- Pause the experiment and record the error as its failure. -/
def fail (e : Experiment) (reason : String) (err : Error) (now : Timestamp) : Experiment :=
  (e.setReplicas 0).applyCondition .failed .holds reason err.message (some now)

end Experiment

end WorkloadTuning
