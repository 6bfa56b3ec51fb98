import WorkloadTuning.Proofs.Outcome
import WorkloadTuning.Synchronization

/-! Reports of trials, one by one and in batches: which requests are sent, how the service answers
them, and what becomes of the trials. -/

namespace WorkloadTuning

open Service (Client Exchange Request)

variable {σ : Type}

namespace Trial

variable {t : Trial}

theorem isSynchronized_iff : t.isSynchronized ↔
    ∃ url, t.metadata.annotation? Vocabulary.reportTrialUrl = some url ∧ url ≠ "" := by
  rw [isSynchronized, Bool.not_eq_true', ← Bool.not_eq_true, String.isEmpty_iff, reportUrl]
  cases t.metadata.annotation? Vocabulary.reportTrialUrl with
  | none => simp
  | some url => simp

theorem reportRequest_of_annotation {url : String}
    (h : t.metadata.annotation? Vocabulary.reportTrialUrl = some url) :
    t.reportRequest = .reportTrial url t.report := by
  rw [reportRequest, reportUrl, h, Option.getD_some]

/-- Releasing a trial takes that one finalizer out. -/
theorem mem_finalizers_released {finalizer : String} :
    finalizer ∈ t.released.metadata.finalizers ↔
      finalizer ∈ t.metadata.finalizers ∧ finalizer ≠ Vocabulary.finalizer := by
  simp [released, Metadata.removeFinalizer]

/-- But for its finalizers, a released trial is what it was. -/
theorem restored_released : { t.released with
    metadata := { t.released.metadata with finalizers := t.metadata.finalizers } } = t := rfl

theorem isPending_released (t : Trial) : t.released.isPending = false := by
  simp [released, isPending, Metadata.hasFinalizer, Metadata.removeFinalizer]

theorem reportRequest_released (t : Trial) : t.released.reportRequest = t.reportRequest := rfl

/-- A trial is reported alike whether it is released or not. -/
theorem reportRequest_of_eq_ite {u : Trial} {p : Prop} [Decidable p]
    (h : u = if p then t.released else t) : u.reportRequest = t.reportRequest := by
  rw [h, apply_ite reportRequest, reportRequest_released, ite_self]

theorem released_released (t : Trial) : t.released.released = t.released := by
  simp [released, Metadata.removeFinalizer]

/-- The trial once it has gone through. -/
def settled (t : Trial) : Trial :=
  if t.isSynchronized then t.released else t

end Trial

/-- The service answers the requests with success, one after another, and is then in the later
state. -/
inductive Service.Client.Accepts (client : Client σ) : List Request → σ → σ → Prop
  | nil (state : σ) : client.Accepts [] state state
  | cons {request : Request} {rest : List Request} {state next last : σ} {answer : request.Answer} :
    client.answer request state = (.ok answer, next) → client.Accepts rest next last →
      client.Accepts (request :: rest) state last

theorem Service.Exchange.send_of_answer {client : Client σ} {x : Exchange σ} {request : Request}
    {answer : Outcome request.Answer} {state : σ}
    (h : client.answer request x.state = (answer, state)) :
    x.send client request = (answer, ⟨state, x.sent ++ [request]⟩) := by
  simp only [Exchange.send, h]

namespace Synchronization

variable {client : Client σ}

/-! ### One report -/

/-- How the report of one trial ends. -/
inductive ReportEnds (client : Client σ) (t : Trial) (x : Exchange σ) :
    Progress σ Trial Bool → Prop
  | skipped : t.isSynchronized = false → t.isPending = false →
    ReportEnds client t x ⟨.ok false, t, x⟩
  | unaddressed : t.isSynchronized = false → t.isPending = true →
    ReportEnds client t x ⟨.error (.noReportLocation t.name), t, x⟩
  | accepted {state : σ} : t.isSynchronized = true →
    client.answer t.reportRequest x.state = (.ok (), state) →
    ReportEnds client t x ⟨.ok true, t.released, ⟨state, x.sent ++ [t.reportRequest]⟩⟩
  | refused {err : Error} {state : σ} : t.isSynchronized = true →
    client.answer t.reportRequest x.state = (.error err, state) →
    ReportEnds client t x ⟨.error err, t, ⟨state, x.sent ++ [t.reportRequest]⟩⟩

theorem report_ends (client : Client σ) (t : Trial) (x : Exchange σ) :
    ReportEnds client t x (report client t x) := by
  unfold report
  split
  · next hunknown =>
    replace hunknown : t.isSynchronized = false := by simpa using hunknown
    split
    · next hpending => exact .unaddressed hunknown hpending
    · next hpending => exact .skipped hunknown (Bool.not_eq_true _ |>.mp hpending)
  · next hknown =>
    replace hknown : t.isSynchronized = true := by simpa using hknown
    cases hanswer : client.answer t.reportRequest x.state with
    | mk outcome state =>
      rw [Exchange.send_of_answer hanswer]
      cases outcome with
      | error err => exact .refused hknown hanswer
      | ok answer => exact .accepted hknown hanswer

/-! ### A batch of reports -/

/-- All of the trials go through: those with a location are sent in order and accepted, and then no
trial is pending. -/
structure Delivers (client : Client σ) (trials : List Trial) (x : Exchange σ)
    (outcome : List Trial) (y : Exchange σ) : Prop where
  records : outcome = trials.map Trial.settled
  free : ∀ t ∈ outcome, t.isPending = false
  sent : y.sent = x.sent ++ (trials.filter Trial.isSynchronized).map Trial.reportRequest
  accepted : client.Accepts ((trials.filter Trial.isSynchronized).map Trial.reportRequest)
    x.state y.state

/-- How the reports of a batch end: all go through, or those before one that cannot be sent or is
refused. -/
inductive BatchEnds (client : Client σ) (trials : List Trial) (x : Exchange σ) :
    Progress σ (List Trial) Nat → Prop
  | delivered {records : List Trial} {y : Exchange σ} : Delivers client trials x records y →
    BatchEnds client trials x ⟨.ok (trials.countP Trial.isSynchronized), records, y⟩
  | stopped {before after records : List Trial} {t : Trial} {y z : Exchange σ} {err : Error} :
    trials = before ++ t :: after → Delivers client before x records y →
      ReportEnds client t y ⟨.error err, t, z⟩ →
      BatchEnds client trials x ⟨.error err, records ++ t :: after, z⟩

section Batch
variable {t next : Trial} {trials records : List Trial} {x y z : Exchange σ} {sent : Bool}

theorem Delivers.nil (client : Client σ) (x : Exchange σ) : Delivers client [] x [] x where
  records := rfl
  free := by simp
  sent := by simp
  accepted := .nil _

/-- A trial that goes through, before others that do. -/
theorem Delivers.cons (hfirst : ReportEnds client t x ⟨.ok sent, next, y⟩)
    (h : Delivers client trials y records z) :
    Delivers client (t :: trials) x (next :: records) z := by
  cases hfirst with
  | skipped hknown hfree =>
    exact {
      records := by simp [h.records, Trial.settled, hknown]
      free := by simpa [hfree] using h.free
      sent := by simp [h.sent, hknown]
      accepted := by simpa [hknown] using h.accepted }
  | accepted hknown hanswer =>
    exact {
      records := by simp [h.records, Trial.settled, hknown]
      free := by simpa [Trial.isPending_released] using h.free
      sent := by simp [h.sent, hknown]
      accepted := by
        rw [List.filter_cons_of_pos hknown]
        exact .cons hanswer h.accepted }

theorem ReportEnds.sent_eq (h : ReportEnds client t x ⟨.ok sent, next, y⟩) :
    sent = t.isSynchronized := by
  cases h with
  | skipped hknown => exact hknown.symm
  | accepted hknown => exact hknown.symm

theorem BatchEnds.cons {p : Progress σ (List Trial) Nat}
    (hfirst : ReportEnds client t x ⟨.ok sent, next, y⟩) (h : BatchEnds client trials y p) :
    BatchEnds client (t :: trials) x
      ⟨p.outcome.map fun n => n + sent.toNat, next :: p.records, p.exchange⟩ := by
  cases h with
  | delivered hrest =>
    have hcount : (t :: trials).countP Trial.isSynchronized =
        trials.countP Trial.isSynchronized + sent.toNat := by
      rw [List.countP_cons, hfirst.sent_eq]
      cases t.isSynchronized <;> rfl
    have hall := BatchEnds.delivered (Delivers.cons hfirst hrest)
    rwa [hcount] at hall
  | @stopped before after _ u _ _ _ heq hrest hstop =>
    have hsplit : t :: trials = (t :: before) ++ u :: after := by rw [heq]; rfl
    exact .stopped hsplit (Delivers.cons hfirst hrest) hstop

end Batch

theorem reportAll_of_error {t next : Trial} {rest : List Trial} {x y : Exchange σ} {err : Error}
    (h : report client t x = ⟨.error err, next, y⟩) :
    reportAll client (t :: rest) x = ⟨.error err, next :: rest, y⟩ := by
  simp only [reportAll, h]

theorem reportAll_of_ok {t next : Trial} {rest : List Trial} {x y : Exchange σ} {sent : Bool}
    (h : report client t x = ⟨.ok sent, next, y⟩) :
    reportAll client (t :: rest) x =
      let p := reportAll client rest y
      ⟨p.outcome.map fun n => n + sent.toNat, next :: p.records, p.exchange⟩ := by
  simp only [reportAll, h]

theorem reportAll_singleton (client : Client σ) (t : Trial) (x : Exchange σ) :
    let p := report client t x
    reportAll client [t] x = ⟨p.outcome.map Bool.toNat, [p.records], p.exchange⟩ := by
  rcases hreport : report client t x with ⟨outcome, next, y⟩
  cases outcome with
  | error err => exact reportAll_of_error hreport
  | ok sent =>
    rw [reportAll_of_ok hreport]
    simp [reportAll, Except.map]

theorem fetchDefinition_sent (client : Client σ) (e : Experiment) (x : Exchange σ) :
    (fetchDefinition client e x).2.sent = x.sent ++ [.getExperiment e.name] := by
  rw [fetchDefinition]
  rcases hanswer : client.answer (.getExperiment e.name) x.state with ⟨outcome, state⟩
  rw [Exchange.send_of_answer hanswer]
  cases outcome <;> rfl

/-- Reporting one trial is reporting a batch of one. -/
theorem reportTrials_singleton (client : Client σ) (e : Experiment) (t : Trial) (x : Exchange σ) :
    let p := reportTrial client e t x
    reportTrials client e [t] x = ⟨p.outcome.map Bool.toNat, [p.records], p.exchange⟩ := by
  simp only [reportTrial, reportTrials]
  rcases fetchDefinition client e x with ⟨fetched, y⟩
  cases fetched with
  | error err => rfl
  | ok definition => exact reportAll_singleton client t y

/-- A service that knows one experiment and takes or refuses reports by turns, as scheduled. -/
def scheduled : Client (List Bool) where
  answer
    | .createExperiment _ definition, turns => (.ok definition, turns)
    | .getExperiment _, turns => (.ok {}, turns)
    | .createTrial _ suggestion, turns => (.ok suggestion, turns)
    | .nextTrial _, turns => (.error (.service ⟨.trialUnavailable, ""⟩), turns)
    | .reportTrial .., false :: turns => (.error (.service ⟨.unexpected, ""⟩), turns)
    | .reportTrial .., turns => (.ok (), turns.tail)

/-- A trial to be reported, one for each number. -/
def finished (i : Nat) : Trial :=
  { metadata := ({ name := toString i : Metadata }.annotate Vocabulary.reportTrialUrl
      ("/trials/" ++ toString i)).addFinalizer Vocabulary.finalizer }

end Synchronization

end WorkloadTuning
