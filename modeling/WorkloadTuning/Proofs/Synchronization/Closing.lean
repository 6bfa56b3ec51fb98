import WorkloadTuning.Proofs.Synchronization.Course

/-! The end of an experiment. When the service has stopped it, its location for the next trial is
taken away, and without that no trial is asked for until the service accepts it anew. When it no
longer matches its definition it is marked as failed and paused for good, but nothing that the next
call looks at has changed: trials are asked for as soon as the definition matches again. -/

namespace WorkloadTuning

open Service (Client Definition Exchange Request)

variable {σ : Type}

namespace Experiment

variable {e : Experiment}

theorem applied_any {conditions : List (Condition ExperimentAspect)} (reason message : String)
    (time : Option Timestamp) :
    (Condition.apply .failed .holds reason message time conditions).any
      (fun c => c.type == .failed && c.status == .holds) = true := by
  induction conditions with
  | nil => rfl
  | cons c rest ih =>
    unfold Condition.apply
    split
    · next htype =>
      unfold Condition.update
      split
      · next hstatus => simp [htype, hstatus]
      · simp [htype]
    · simp [ih]

theorem isFailed_fail (e : Experiment) (reason : String) (err : Error) (now : Timestamp) :
    (e.fail reason err now).isFailed = true :=
  applied_any reason err.message (some now)

end Experiment

namespace Synchronization

variable {client : Client σ} {e : Experiment} {x : Exchange σ} {now : Timestamp}

/-! ### Ends -/

/-- The service tells that the experiment is stopped when it is asked for the next trial. -/
def Stops (client : Client σ) (e : Experiment) (x : Exchange σ) : Prop :=
  ∃ url definition y err, nextTrialUrl? e = some url ∧
    fetchDefinition client e x = (.ok definition, y) ∧
    (client.answer (.nextTrial url) y.state).1 = .error err ∧
    ∃ s, err.serviceError? = some s ∧ s.kind = .experimentStopped

/-- The experiment, asked for its next trial, no longer matches its definition. -/
def Mismatches (client : Client σ) (e : Experiment) (x : Exchange σ) : Prop :=
  ∃ url err y, nextTrialUrl? e = some url ∧ fetchDefinition client e x = (.error err, y) ∧
    err.kind = .incompatible

theorem mismatches_of_checkDefinition {url : String} {definition : Definition} {state : σ}
    {err : Error} (hurl : nextTrialUrl? e = some url)
    (hanswer : client.answer (.getExperiment e.name) x.state = (.ok definition, state))
    (hcheck : e.checkDefinition definition = .error err) : Mismatches client e x := by
  have hfetch := fetchDefinition_of_answer hanswer
  rw [hcheck] at hfetch
  exact ⟨url, err, _, hurl, hfetch, Experiment.kind_of_checkDefinition hcheck⟩

/-- The service is asked for a trial. -/
def Asks (client : Client σ) (now : Timestamp) (e : Experiment) (x : Exchange σ) : Prop :=
  ∃ url, (nextTrial client now e x).exchange.sent =
    x.sent ++ [.getExperiment e.name] ++ [.nextTrial url]

/-- A trial is asked for just where there is a location and the definition matches. -/
theorem asks_iff : Asks client now e x ↔
    (∃ url, nextTrialUrl? e = some url) ∧
      ∃ definition, (fetchDefinition client e x).1 = .ok definition := by
  have hsent : ∀ {fetched y}, fetchDefinition client e x = (fetched, y) →
      y.sent = x.sent ++ [.getExperiment e.name] := by
    intro fetched y hfetch
    rw [← fetchDefinition_sent client e x, hfetch]
  have hends := nextTrial_ends client now e x
  unfold Asks
  generalize nextTrial client now e x = p at hends ⊢
  cases hends with
  | closed hurl =>
    refine iff_of_false ?_ fun h => by simp [hurl] at h
    rintro ⟨url, hasked⟩
    simpa using congrArg List.length hasked
  | unfetched hurl hfetch | mismatched hurl hfetch =>
    refine iff_of_false ?_ fun h => by simp [hfetch] at h
    rintro ⟨url, hasked⟩
    simpa using congrArg List.length ((hsent hfetch).symm.trans hasked)
  | offered hurl hfetch | stopped hurl hfetch | unavailable hurl hfetch | refused hurl hfetch =>
    exact iff_of_true ⟨_, by rw [hsent hfetch]⟩ ⟨⟨_, hurl⟩, _, by rw [hfetch]⟩

section Ends
variable {url : String} {definition : Definition} {y : Exchange σ} {err : Error} {state : σ}

theorem nextTrial_of_mismatch (now : Timestamp) (hurl : nextTrialUrl? e = some url)
    (hfetch : fetchDefinition client e x = (.error err, y)) (hkind : err.kind = .incompatible) :
    nextTrial client now e x = ⟨.error err, e.fail mismatch err now, y⟩ := by
  simp only [nextTrial, hurl, hfetch, if_pos hkind]

theorem nextTrial_of_offer (now : Timestamp) (hurl : nextTrialUrl? e = some url)
    (hfetch : fetchDefinition client e x = (.ok definition, y)) {suggestion : Service.Suggestion}
    (hanswer : client.answer (.nextTrial url) y.state = (.ok suggestion, state)) :
    nextTrial client now e x = ⟨.ok (some (e.newTrial.accept suggestion)), e,
      ⟨state, y.sent ++ [.nextTrial url]⟩⟩ := by
  simp only [nextTrial, hurl, hfetch, Exchange.send_of_answer hanswer]

theorem nextTrial_of_stop (now : Timestamp) (hurl : nextTrialUrl? e = some url)
    (hfetch : fetchDefinition client e x = (.ok definition, y))
    (hanswer : client.answer (.nextTrial url) y.state = (.error err, state))
    (hstops : e.stopped? err = some e.stop) :
    nextTrial client now e x = ⟨.ok none, e.stop, ⟨state, y.sent ++ [.nextTrial url]⟩⟩ := by
  simp only [nextTrial, hurl, hfetch, Exchange.send_of_answer hanswer, hstops]

end Ends

theorem Stops.ends (h : Stops client e x) (now : Timestamp) :
    ∃ y, nextTrial client now e x = ⟨.ok none, e.stop, y⟩ := by
  obtain ⟨url, definition, y, err, hurl, hfetch, hanswer, s, hservice, hstopped⟩ := h
  have hstops : e.stopped? err = some e.stop := by
    rw [Experiment.stopped?, hservice, if_pos (by simp [hstopped])]
  exact ⟨_, nextTrial_of_stop now hurl hfetch (Prod.ext hanswer rfl) hstops⟩

theorem Mismatches.ends (h : Mismatches client e x) (now : Timestamp) :
    ∃ err y, err.kind = .incompatible ∧
      nextTrial client now e x = ⟨.error err, e.fail mismatch err now, y⟩ := by
  obtain ⟨url, err, y, hurl, hfetch, hkind⟩ := h
  exact ⟨err, y, hkind, nextTrial_of_mismatch now hurl hfetch hkind⟩

/-! ### After the end -/

/-- No trial is to run, and there is no location to ask for one. -/
structure IsClosed (e : Experiment) : Prop where
  replicas : e.replicas = 0
  location : nextTrialUrl? e = none

/-- The experiment is marked as failed, and no trial is to run. -/
structure IsDown (e : Experiment) : Prop where
  replicas : e.replicas = 0
  failed : e.isFailed = true

theorem isClosed_stop (e : Experiment) : IsClosed e.stop where
  replicas := rfl
  location := by
    show Option.filter _ (Dict.get? (Dict.erase _ _) _) = none
    rw [Dict.get?_erase_self]
    rfl

theorem isDown_fail (e : Experiment) (reason : String) (err : Error) (now : Timestamp) :
    IsDown (e.fail reason err now) where
  replicas := rfl
  failed := e.isFailed_fail reason err now

/-- A closed experiment neither asks for a trial nor gets one. -/
theorem IsClosed.nextTrial (h : IsClosed e) :
    Synchronization.nextTrial client now e x = ⟨.ok none, e, x⟩ := by
  rw [Synchronization.nextTrial, h.location]

/-- The service takes the experiment over: it answers the registration with a definition that
matches. Whether it takes the baseline trial as well plays no part. -/
def TakesOver (client : Client σ) (e : Experiment) (x : Exchange σ) : Prop :=
  ∃ created state, client.answer (.createExperiment e.name e.toDefinition) x.state =
    (.ok created, state) ∧ e.checkDefinition created = .ok ()

/-- No registration in the course of the commands is accepted. -/
def Course.NoneAccepted (client : Client σ) : Course σ → List Command → Prop
  | _, [] => True
  | c, command :: rest =>
    (∀ now, command = .register now → ¬ TakesOver client c.experiment c.exchange) ∧
      NoneAccepted client (c.after client command) rest

theorem IsClosed.after {c : Course σ} (h : IsClosed c.experiment) {command : Command}
    (hnone : ∀ now, command = .register now → ¬ TakesOver client c.experiment c.exchange) :
    IsClosed (c.after client command).experiment := by
  cases command with
  | register now =>
    have hends := register_ends client now c.experiment c.exchange
    show IsClosed (register client now c.experiment c.exchange).records
    generalize register client now c.experiment c.exchange = p at hends
    cases hends with
    | unsubmitted => exact h
    | refused => exact h
    | mismatched => exact ⟨rfl, h.location⟩
    | adopted hanswer hcheck => exact absurd ⟨_, _, hanswer, hcheck⟩ (hnone now rfl)
    | suggested hanswer hcheck => exact absurd ⟨_, _, hanswer, hcheck⟩ (hnone now rfl)
  | next now =>
    show IsClosed (Synchronization.nextTrial client now c.experiment c.exchange).records
    rw [h.nextTrial]
    exact h
  | report t => exact h
  | reportSeveral trials => exact h

theorem IsClosed.run (commands : List Command) {c : Course σ} (h : IsClosed c.experiment)
    (hnone : c.NoneAccepted client commands) : IsClosed (c.run client commands).experiment := by
  induction commands generalizing c with
  | nil => exact h
  | cons command rest ih => exact ih (h.after hnone.1) hnone.2

/-- A registration restores the location only. -/
theorem IsDown.adopt (h : IsDown e) (definition : Definition) : IsDown (e.adopt definition) where
  replicas := h.replicas
  failed := h.failed

theorem IsDown.after {c : Course σ} (h : IsDown c.experiment) (command : Command) :
    IsDown (c.after client command).experiment := by
  cases command with
  | register now =>
    have hends := register_ends client now c.experiment c.exchange
    show IsDown (register client now c.experiment c.exchange).records
    generalize register client now c.experiment c.exchange = p at hends
    cases hends with
    | unsubmitted => exact h
    | refused => exact h
    | mismatched => exact isDown_fail ..
    | adopted => exact h.adopt _
    | suggested => exact h.adopt _
  | next now =>
    have hends := nextTrial_ends client now c.experiment c.exchange
    show IsDown (Synchronization.nextTrial client now c.experiment c.exchange).records
    generalize Synchronization.nextTrial client now c.experiment c.exchange = p at hends
    cases hends with
    | mismatched => exact isDown_fail ..
    | stopped => exact ⟨rfl, h.failed⟩
    | _ => exact h
  | report t => exact h
  | reportSeveral trials => exact h

theorem IsDown.run (client : Client σ) (commands : List Command) {c : Course σ}
    (h : IsDown c.experiment) : IsDown (c.run client commands).experiment := by
  induction commands generalizing c with
  | nil => exact h
  | cons command rest ih => exact ih (h.after command)

/-- When the service has stopped the experiment, none of the later calls asks for a trial or gets
one, up to a registration that the service accepts. When the experiment has failed, it stays failed
and paused, but any later call asks for a trial where there is a location and the definition that it
gets then matches. -/
theorem nextTrial_closes (client : Client σ) (now : Timestamp) (e : Experiment) (x : Exchange σ)
    (commands : List Command) :
    let p := nextTrial client now e x
    let start : Course σ := ⟨p.records, p.exchange⟩
    let c := start.run client commands
    (Stops client e x → p.outcome = .ok none ∧ IsClosed p.records ∧
      (start.NoneAccepted client commands → IsClosed c.experiment ∧ ∀ later,
        nextTrial client later c.experiment c.exchange = ⟨.ok none, c.experiment, c.exchange⟩)) ∧
    (Mismatches client e x → (∃ err, p.outcome = .error err ∧ err.kind = .incompatible) ∧
      IsDown p.records ∧ nextTrialUrl? p.records = nextTrialUrl? e ∧ IsDown c.experiment ∧
      ∀ later, Asks client later c.experiment c.exchange ↔
        (∃ url, nextTrialUrl? c.experiment = some url) ∧
          ∃ definition, (fetchDefinition client c.experiment c.exchange).1 = .ok definition) := by
  intro p start c
  constructor
  · intro hstops
    obtain ⟨y, hp⟩ := hstops.ends now
    have hclosed : IsClosed p.records := by
      show IsClosed (nextTrial client now e x).records
      rw [hp]
      exact isClosed_stop e
    refine ⟨congrArg Progress.outcome hp, hclosed, fun hnone => ?_⟩
    have hlater : IsClosed c.experiment := IsClosed.run (c := start) commands hclosed hnone
    exact ⟨hlater, fun _ => hlater.nextTrial⟩
  · intro hmismatches
    obtain ⟨err, y, hkind, hp⟩ := hmismatches.ends now
    have hrecords : p.records = e.fail mismatch err now := congrArg Progress.records hp
    have hdown : IsDown p.records := hrecords ▸ isDown_fail e mismatch err now
    exact ⟨⟨err, congrArg Progress.outcome hp, hkind⟩, hdown, by rw [hrecords]; rfl,
      IsDown.run (c := start) client commands hdown, fun _ => asks_iff⟩

/-- The experiment as it is when the service has accepted it. -/
def accepting : Experiment :=
  replicated.adopt { locations := { nextTrialUrl := "/next/web" } }

theorem accepting_url : nextTrialUrl? accepting = some "/next/web" := by
  decide +kernel

/-- Stopped, the experiment is not asked for a trial any more, though one is reported. -/
theorem stopped_stays_closed :
    let start : Exchange (Dict Definition) := ⟨.ofList [("web", accepting.toDefinition)], []⟩
    let p := nextTrial storing someTime accepting start
    let c := Course.run storing ⟨p.records, p.exchange⟩ [.next someTime, .report {}]
    p.outcome = .ok none ∧
      nextTrial storing someTime c.experiment c.exchange = ⟨.ok none, c.experiment, c.exchange⟩ := by
  intro start p c
  have hanswer : storing.answer (.getExperiment accepting.name) start.state =
      (.ok accepting.toDefinition, start.state) := rfl
  have hfetch := fetchDefinition_of_answer hanswer
  rw [Experiment.checkDefinition_toDefinition] at hfetch
  have hstops : Stops storing accepting start :=
    ⟨_, _, _, _, accepting_url, hfetch, rfl, _, rfl, rfl⟩
  have hcloses := (nextTrial_closes storing someTime accepting start
    [.next someTime, .report {}]).1 hstops
  exact ⟨hcloses.1, (hcloses.2.2 ⟨nofun, nofun, trivial⟩).2 someTime⟩

/-- A service whose definition of the experiment changes from one call to the next, as scripted, and
that offers a trial whenever it is asked. -/
def scripted : Client (List Definition) where
  answer
    | .createExperiment _ definition, script => (.ok definition, script)
    | .getExperiment _, definition :: script => (.ok definition, script)
    | .getExperiment _, [] => (.error (.service ⟨.experimentNotFound, ""⟩), [])
    | .createTrial _ suggestion, script => (.ok suggestion, script)
    | .nextTrial _, script => (.ok { selfUrl := "/trials/1" }, script)
    | .reportTrial .., script => (.ok (), script)

theorem accepting_mismatch : ∃ err, accepting.checkDefinition {} = .error err := by
  have hparameters : accepting.freeParameters.map Parameter.name = ["replicas"] := rfl
  have hdiffer : sortedNames ["replicas"] ≠ sortedNames [] := by
    have hone : ["replicas"].eraseDups = ["replicas"] := rfl
    simp [sortedNames, hone]
  refine ⟨.definitionsDiffer .parameters accepting.name (sortedNames ["replicas"])
    (sortedNames []), ?_⟩
  rw [Experiment.checkDefinition, hparameters]
  show (Experiment.compareNames _ _ ["replicas"] []) >>= _ = _
  rw [Experiment.compareNames, if_neg hdiffer]
  rfl

/-- The experiment fails as its definition has lost the parameters. When the definition has them
again, the next call asks for a trial of the failed experiment and gets it. -/
theorem failed_gets_trial :
    let start : Exchange (List Definition) := ⟨[{}, accepting.toDefinition], []⟩
    let p := nextTrial scripted someTime accepting start
    Mismatches scripted accepting start ∧ IsDown p.records ∧
      Asks scripted someTime p.records p.exchange ∧
      ∃ t, (nextTrial scripted someTime p.records p.exchange).outcome = .ok (some t) := by
  intro start p
  obtain ⟨err, hcheck⟩ := accepting_mismatch
  have hlost : scripted.answer (.getExperiment accepting.name) start.state =
      (.ok {}, [accepting.toDefinition]) := rfl
  have hfetch := fetchDefinition_of_answer hlost
  rw [hcheck] at hfetch
  have hp : p = ⟨.error err, accepting.fail mismatch err someTime,
      ⟨[accepting.toDefinition], [.getExperiment "web"]⟩⟩ :=
    nextTrial_of_mismatch someTime accepting_url hfetch (Experiment.kind_of_checkDefinition hcheck)
  -- The location is still there, and the names are those of the definition again.
  have hurl : nextTrialUrl? (accepting.fail mismatch err someTime) = some "/next/web" :=
    accepting_url
  have hmatches : (accepting.fail mismatch err someTime).checkDefinition accepting.toDefinition =
      .ok () :=
    Experiment.checkDefinition_of_scope rfl
  have hfound : scripted.answer (.getExperiment "web") [accepting.toDefinition] =
      (.ok accepting.toDefinition, []) := rfl
  have hagain := fetchDefinition_of_answer (e := accepting.fail mismatch err someTime)
    (x := ⟨[accepting.toDefinition], [.getExperiment "web"]⟩) hfound
  rw [hmatches] at hagain
  rw [hp]
  refine ⟨mismatches_of_checkDefinition accepting_url hlost hcheck, isDown_fail .., ?_, ?_⟩
  · exact asks_iff.mpr ⟨⟨_, hurl⟩, _, congrArg Prod.fst hagain⟩
  · exact ⟨_, congrArg Progress.outcome (nextTrial_of_offer someTime hurl hagain rfl)⟩

end Synchronization

end WorkloadTuning
