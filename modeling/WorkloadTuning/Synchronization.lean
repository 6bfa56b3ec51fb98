import WorkloadTuning.Service.Exchange
import WorkloadTuning.Service.Experiment
import WorkloadTuning.Service.Trial

/-! Keeping experiments and trials in step with the optimization service: registering an experiment,
getting its next trial, and reporting trials that are done. A step that fails may have changed the
records already; it then gives them back as they are. -/

namespace WorkloadTuning

open Service (Client Definition Exchange)

variable {σ : Type}

namespace Synchronization

/-- The end of a step: its outcome, the records it has worked on and the exchange so far. -/
structure Progress (σ ρ α : Type) where
  outcome : Outcome α
  records : ρ
  exchange : Exchange σ

/-- Get the definition of the experiment from the service, and check that it still matches. -/
def fetchDefinition (client : Client σ) (e : Experiment) (x : Exchange σ) :
    Outcome Definition × Exchange σ :=
  match x.send client (.getExperiment e.name) with
  | (.error err, x) => (.error err, x)
  | (.ok definition, x) => ((e.checkDefinition definition).map fun _ => definition, x)

/-- The reason of the failure of an experiment that no longer matches its definition. -/
def mismatch : String := "Incompatible"

/-- Register the experiment and suggest its baseline as the first trial. An experiment that does not
match the definition that the service keeps is marked as failed. -/
def register (client : Client σ) (now : Timestamp) (e : Experiment) (x : Exchange σ) :
    Progress σ Experiment Unit :=
  match e.submission with
  | .error err => ⟨.error err, e, x⟩
  | .ok submission =>
    match x.send client (.createExperiment submission.name submission.definition) with
    | (.error err, x) => ⟨.error err, e, x⟩
    | (.ok created, x) =>
      match e.checkDefinition created with
      | .error err => ⟨.error err, e.fail mismatch err now, x⟩
      | .ok () =>
        let e := e.adopt created
        match submission.baseline with
        | none => ⟨.ok (), e, x⟩
        | some baseline =>
          let (answer, x) := x.send client (.createTrial created baseline)
          ⟨answer.map fun _ => (), e, x⟩

/-- Where to ask for the next trial; an experiment without such a location takes none. -/
def nextTrialUrl? (e : Experiment) : Option String :=
  (e.metadata.annotation? Vocabulary.nextTrialUrl).filter fun url => !url.isEmpty

/-- The service has no trial to offer right now. -/
def isUnavailable (err : Error) : Bool :=
  err.serviceError?.any fun s => s.kind = .trialUnavailable

/-- Get a new trial, if the service has one to offer. The experiment is paused when the service has
stopped it, and marked as failed when it no longer matches its definition. -/
def nextTrial (client : Client σ) (now : Timestamp) (e : Experiment) (x : Exchange σ) :
    Progress σ Experiment (Option Trial) :=
  match nextTrialUrl? e with
  | none => ⟨.ok none, e, x⟩
  | some url =>
    match fetchDefinition client e x with
    | (.error err, x) =>
      ⟨.error err, if err.kind = .incompatible then e.fail mismatch err now else e, x⟩
    | (.ok _, x) =>
      match x.send client (.nextTrial url) with
      | (.ok suggestion, x) => ⟨.ok (some (e.newTrial.accept suggestion)), e, x⟩
      | (.error err, x) =>
        match e.stopped? err with
        | some stopped => ⟨.ok none, stopped, x⟩
        | none => ⟨if isUnavailable err then .ok none else .error err, e, x⟩

end Synchronization

namespace Trial

/-- Where the trial is reported to. -/
def reportUrl (t : Trial) : String :=
  (t.metadata.annotation? Vocabulary.reportTrialUrl).getD ""

/-- The trial has a location to report to. -/
def isSynchronized (t : Trial) : Bool :=
  !t.reportUrl.isEmpty

/-- The trial is kept until it has been reported. -/
def isPending (t : Trial) : Bool :=
  t.metadata.hasFinalizer Vocabulary.finalizer

/-- The request that reports the trial, to its own location. -/
def reportRequest (t : Trial) : Service.Request :=
  .reportTrial t.reportUrl t.report

/-- The trial without the finalizer, and as it was otherwise. -/
def released (t : Trial) : Trial :=
  { t with metadata := t.metadata.removeFinalizer Vocabulary.finalizer }

end Trial

namespace Synchronization

/-- Send the report of one trial; the answer tells whether the service knows the trial at all. -/
def report (client : Client σ) (t : Trial) (x : Exchange σ) : Progress σ Trial Bool :=
  if !t.isSynchronized then
    if t.isPending then ⟨.error (.noReportLocation t.name), t, x⟩ else ⟨.ok false, t, x⟩
  else
    match x.send client t.reportRequest with
    | (.error err, x) => ⟨.error err, t, x⟩
    | (.ok _, x) => ⟨.ok true, t.released, x⟩

/-- Report a trial of the experiment. -/
def reportTrial (client : Client σ) (e : Experiment) (t : Trial) (x : Exchange σ) :
    Progress σ Trial Bool :=
  match fetchDefinition client e x with
  | (.error err, x) => ⟨.error err, t, x⟩
  | (.ok _, x) => report client t x

/-- Report trials in order up to the first failure, and count those that the service knows. The
reports of a batch do not wait for each other, but where every request is answered at once this is
the order in which they run; `Synchronization.Flight` has them under way at the same time. -/
def reportAll (client : Client σ) : List Trial → Exchange σ → Progress σ (List Trial) Nat
  | [], x => ⟨.ok 0, [], x⟩
  | t :: rest, x =>
    match report client t x with
    | ⟨.error err, t, x⟩ => ⟨.error err, t :: rest, x⟩
    | ⟨.ok sent, t, x⟩ =>
      let ⟨outcome, rest, x⟩ := reportAll client rest x
      ⟨outcome.map fun n => n + sent.toNat, t :: rest, x⟩

/-- Report several trials of the experiment. -/
def reportTrials (client : Client σ) (e : Experiment) (trials : List Trial) (x : Exchange σ) :
    Progress σ (List Trial) Nat :=
  match fetchDefinition client e x with
  | (.error err, x) => ⟨.error err, trials, x⟩
  | (.ok _, x) => reportAll client trials x

end Synchronization

end WorkloadTuning
