import WorkloadTuning.Error
import WorkloadTuning.Experiment.Basic
import WorkloadTuning.Template

/-! Rendering the patch templates of an experiment for a trial. -/

namespace WorkloadTuning

/-- Render a template with the given values. -/
def PatchTemplate.render (t : PatchTemplate) (bindings : Bindings) (trial : Trial) :
    Outcome PatchOperation := do
  let data ← (Template.render bindings t.patch).mapError .template
  return { target := t.target.getD trial.jobReference, kind := t.kind, data }

namespace Trial

/-- The values that the trial assigns; of several for one name, the last. -/
def assigned (t : Trial) : Bindings :=
  Dict.ofList (t.spec.assignments.map fun a => (a.name, a.value))

/-- Bind the parameters that are not bound yet: those with one possible value to it. -/
def bindRest (t : Trial) (bindings : Bindings) : List Parameter → Outcome Bindings
  | [] => .ok bindings
  | p :: rest =>
    if bindings.contains p.name then t.bindRest bindings rest
    else if p.isDegenerate then t.bindRest (bindings.insert p.name (.int p.min)) rest
    else .error (.unassigned t.name p.name)

/-- The values bound to the parameters of the experiment for the trial. -/
def bindings (t : Trial) (e : Experiment) : Outcome Bindings :=
  t.bindRest t.assigned e.spec.parameters

/-- The patch operations of the experiment for the trial. -/
def renderPatches (t : Trial) (e : Experiment) : Outcome (List PatchOperation) := do
  let bindings ← t.bindings e
  e.spec.patches.mapM fun template => template.render bindings t

end Trial

end WorkloadTuning
