import WorkloadTuning.Proofs.Generation.Acceptance
import WorkloadTuning.Proofs.Synchronization.Batch

/-! Courses of an experiment: any number of calls, in any order, that register it, ask for its next
trial or report trials of it. Parameters and metrics stay as they are through all of them, so that an
experiment never differs from its definition at a service that keeps what it was sent. -/

namespace WorkloadTuning

open Service (Client Definition Exchange Request)

variable {σ : Type}

/-! ### What is compared -/

/-- The parameters and the metrics of an experiment. -/
abbrev Service.Scope := List Service.Parameter × List Service.Metric

def Service.Definition.scope (d : Definition) : Service.Scope :=
  (d.parameters, d.metrics)

namespace Experiment

variable {e : Experiment} {definition : Definition} {err : Error}

theorem checkDefinition_of_scope (h : definition.scope = e.toDefinition.scope) :
    e.checkDefinition definition = .ok () := by
  obtain ⟨hparameters, hmetrics⟩ := Prod.ext_iff.mp h
  have hsame : e.checkDefinition definition = e.checkDefinition e.toDefinition := by
    rw [checkDefinition, checkDefinition, show definition.parameters = _ from hparameters,
      show definition.metrics = _ from hmetrics]
    rfl
  rw [hsame, checkDefinition_toDefinition]

theorem kind_of_compareNames {part : DefinitionPart} {here found : List String}
    (h : e.compareNames part here found = .error err) : err.kind = .incompatible := by
  unfold compareNames at h
  dsimp only at h
  split at h
  · cases h
  · obtain rfl := Except.error.inj h
    rfl

theorem kind_of_checkDefinition (h : e.checkDefinition definition = .error err) :
    err.kind = .incompatible := by
  unfold checkDefinition at h
  cases hparameters : e.compareNames .parameters (e.freeParameters.map Parameter.name)
      (definition.parameters.map Service.Parameter.name) with
  | error other =>
    rw [hparameters] at h
    obtain rfl : other = err := Except.error.inj h
    exact kind_of_compareNames hparameters
  | ok _ =>
    rw [hparameters] at h
    exact kind_of_compareNames h

/-- What cannot be submitted has a wrong baseline. -/
theorem kind_of_submission (h : e.submission = .error err) : err.kind = .dataShape := by
  rcases bind_eq_error.mp h with h | ⟨_, -, h⟩
  · rcases bind_eq_error.mp h with h | ⟨found, -, h⟩
    · obtain ⟨p, -, hp⟩ := exists_of_mapM_eq_error h
      unfold Parameter.baselineAssignment at hp
      split at hp
      · cases hp
      · split at hp
        · cases hp
        · obtain rfl := Except.error.inj hp
          rfl
    · dsimp only at h
      split at h
      · cases h
      · split at h
        · obtain rfl := Except.error.inj h
          rfl
        · cases h
  · cases h

theorem name_adopt (e : Experiment) (definition : Definition) :
    (e.adopt definition).name = e.name := by
  simp only [adopt, name, Metadata.addFinalizer]
  split <;> rfl

end Experiment

namespace Synchronization

variable {client : Client σ} {e : Experiment} {x : Exchange σ}

/-! ### How the steps end -/

/-- How getting the definition of the experiment ends. -/
inductive FetchEnds (client : Client σ) (e : Experiment) (x : Exchange σ) :
    Outcome Definition × Exchange σ → Prop
  | refused {err : Error} {state : σ} :
    client.answer (.getExperiment e.name) x.state = (.error err, state) →
    FetchEnds client e x (.error err, ⟨state, x.sent ++ [.getExperiment e.name]⟩)
  | mismatched {definition : Definition} {err : Error} {state : σ} :
    client.answer (.getExperiment e.name) x.state = (.ok definition, state) →
    e.checkDefinition definition = .error err →
    FetchEnds client e x (.error err, ⟨state, x.sent ++ [.getExperiment e.name]⟩)
  | matched {definition : Definition} {state : σ} :
    client.answer (.getExperiment e.name) x.state = (.ok definition, state) →
    e.checkDefinition definition = .ok () →
    FetchEnds client e x (.ok definition, ⟨state, x.sent ++ [.getExperiment e.name]⟩)

theorem fetchDefinition_of_answer {definition : Definition} {state : σ}
    (h : client.answer (.getExperiment e.name) x.state = (.ok definition, state)) :
    fetchDefinition client e x = ((e.checkDefinition definition).map fun _ => definition,
      ⟨state, x.sent ++ [.getExperiment e.name]⟩) := by
  rw [fetchDefinition, Exchange.send_of_answer h]

theorem fetchDefinition_ends (client : Client σ) (e : Experiment) (x : Exchange σ) :
    FetchEnds client e x (fetchDefinition client e x) := by
  rcases hanswer : client.answer (.getExperiment e.name) x.state with ⟨outcome, state⟩
  cases outcome with
  | error err =>
    rw [fetchDefinition, Exchange.send_of_answer hanswer]
    exact .refused hanswer
  | ok definition =>
    rw [fetchDefinition_of_answer hanswer]
    cases hcheck : e.checkDefinition definition with
    | error err => exact .mismatched hanswer hcheck
    | ok _ => exact .matched hanswer hcheck

/-- How the request for the next trial ends. -/
inductive NextEnds (client : Client σ) (now : Timestamp) (e : Experiment) (x : Exchange σ) :
    Progress σ Experiment (Option Trial) → Prop
  | closed : nextTrialUrl? e = none → NextEnds client now e x ⟨.ok none, e, x⟩
  | unfetched {url : String} {err : Error} {y : Exchange σ} : nextTrialUrl? e = some url →
    fetchDefinition client e x = (.error err, y) → err.kind ≠ .incompatible →
    NextEnds client now e x ⟨.error err, e, y⟩
  | mismatched {url : String} {err : Error} {y : Exchange σ} : nextTrialUrl? e = some url →
    fetchDefinition client e x = (.error err, y) → err.kind = .incompatible →
    NextEnds client now e x ⟨.error err, e.fail mismatch err now, y⟩
  | offered {url : String} {definition : Definition} {y : Exchange σ}
    {suggestion : Service.Suggestion} {state : σ} : nextTrialUrl? e = some url →
    fetchDefinition client e x = (.ok definition, y) →
    client.answer (.nextTrial url) y.state = (.ok suggestion, state) →
    NextEnds client now e x
      ⟨.ok (some (e.newTrial.accept suggestion)), e, ⟨state, y.sent ++ [.nextTrial url]⟩⟩
  | stopped {url : String} {definition : Definition} {y : Exchange σ} {err : Error} {state : σ} :
    nextTrialUrl? e = some url → fetchDefinition client e x = (.ok definition, y) →
    client.answer (.nextTrial url) y.state = (.error err, state) → e.stopped? err = some e.stop →
    NextEnds client now e x ⟨.ok none, e.stop, ⟨state, y.sent ++ [.nextTrial url]⟩⟩
  | unavailable {url : String} {definition : Definition} {y : Exchange σ} {err : Error}
    {state : σ} : nextTrialUrl? e = some url →
    fetchDefinition client e x = (.ok definition, y) →
    client.answer (.nextTrial url) y.state = (.error err, state) → e.stopped? err = none →
    isUnavailable err = true →
    NextEnds client now e x ⟨.ok none, e, ⟨state, y.sent ++ [.nextTrial url]⟩⟩
  | refused {url : String} {definition : Definition} {y : Exchange σ} {err : Error} {state : σ} :
    nextTrialUrl? e = some url → fetchDefinition client e x = (.ok definition, y) →
    client.answer (.nextTrial url) y.state = (.error err, state) → e.stopped? err = none →
    isUnavailable err = false →
    NextEnds client now e x ⟨.error err, e, ⟨state, y.sent ++ [.nextTrial url]⟩⟩

theorem stopped?_eq_some {err : Error} {stopped : Experiment} (h : e.stopped? err = some stopped) :
    stopped = e.stop := by
  unfold Experiment.stopped? at h
  split at h
  · exact (Option.some.inj h).symm
  · cases h

theorem nextTrial_ends (client : Client σ) (now : Timestamp) (e : Experiment) (x : Exchange σ) :
    NextEnds client now e x (nextTrial client now e x) := by
  unfold nextTrial
  cases hurl : nextTrialUrl? e with
  | none => exact .closed hurl
  | some url =>
    rcases hfetch : fetchDefinition client e x with ⟨fetched, y⟩
    cases fetched with
    | error err =>
      dsimp only
      split
      · next hkind => exact .mismatched hurl hfetch hkind
      · next hkind => exact .unfetched hurl hfetch hkind
    | ok definition =>
      rcases hanswer : client.answer (.nextTrial url) y.state with ⟨outcome, state⟩
      dsimp only
      rw [Exchange.send_of_answer hanswer]
      cases outcome with
      | ok suggestion => exact .offered hurl hfetch hanswer
      | error err =>
        dsimp only
        cases hstopped : e.stopped? err with
        | some stopped =>
          obtain rfl := stopped?_eq_some hstopped
          exact .stopped hurl hfetch hanswer hstopped
        | none =>
          dsimp only
          cases hunavailable : isUnavailable err with
          | true => exact .unavailable hurl hfetch hanswer hstopped hunavailable
          | false => exact .refused hurl hfetch hanswer hstopped hunavailable

/-- How registering the experiment ends. -/
inductive RegisterEnds (client : Client σ) (now : Timestamp) (e : Experiment) (x : Exchange σ) :
    Progress σ Experiment Unit → Prop
  | unsubmitted {err : Error} : e.submission = .error err →
    RegisterEnds client now e x ⟨.error err, e, x⟩
  | refused {err : Error} {state : σ} :
    client.answer (.createExperiment e.name e.toDefinition) x.state = (.error err, state) →
    RegisterEnds client now e x
      ⟨.error err, e, ⟨state, x.sent ++ [.createExperiment e.name e.toDefinition]⟩⟩
  | mismatched {created : Definition} {err : Error} {state : σ} :
    client.answer (.createExperiment e.name e.toDefinition) x.state = (.ok created, state) →
    e.checkDefinition created = .error err →
    RegisterEnds client now e x ⟨.error err, e.fail mismatch err now,
      ⟨state, x.sent ++ [.createExperiment e.name e.toDefinition]⟩⟩
  | adopted {created : Definition} {state : σ} :
    client.answer (.createExperiment e.name e.toDefinition) x.state = (.ok created, state) →
    e.checkDefinition created = .ok () → e.baselineSuggestion = .ok none →
    RegisterEnds client now e x ⟨.ok (), e.adopt created,
      ⟨state, x.sent ++ [.createExperiment e.name e.toDefinition]⟩⟩
  | suggested {created : Definition} {baseline : Service.Suggestion} {state last : σ}
    {answer : Outcome Service.Suggestion} :
    client.answer (.createExperiment e.name e.toDefinition) x.state = (.ok created, state) →
    e.checkDefinition created = .ok () → e.baselineSuggestion = .ok (some baseline) →
    client.answer (.createTrial created baseline) state = (answer, last) →
    RegisterEnds client now e x ⟨answer.map fun _ => (), e.adopt created,
      ⟨last, x.sent ++ [.createExperiment e.name e.toDefinition] ++
        [.createTrial created baseline]⟩⟩

theorem register_ends (client : Client σ) (now : Timestamp) (e : Experiment) (x : Exchange σ) :
    RegisterEnds client now e x (register client now e x) := by
  unfold register
  cases hsubmission : e.submission with
  | error err => exact .unsubmitted hsubmission
  | ok submission =>
    obtain ⟨baseline, hbaseline, hsubmitted⟩ := bind_eq_ok.mp hsubmission
    obtain rfl := Except.ok.inj hsubmitted
    rcases hanswer : client.answer (.createExperiment e.name e.toDefinition) x.state with
      ⟨outcome, state⟩
    dsimp only
    rw [Exchange.send_of_answer hanswer]
    cases outcome with
    | error err => exact .refused hanswer
    | ok created =>
      dsimp only
      cases hcheck : e.checkDefinition created with
      | error err => exact .mismatched hanswer hcheck
      | ok _ =>
        cases baseline with
        | none => exact .adopted hanswer hcheck hbaseline
        | some suggestion =>
          rcases hcreated : client.answer (.createTrial created suggestion) state with
            ⟨answer, last⟩
          dsimp only
          rw [Exchange.send_of_answer (x := ⟨state, _⟩) hcreated]
          exact .suggested hanswer hcheck hbaseline hcreated

/-! ### Courses -/

/-- A call for the experiment. Which trials are reported is for the caller to say. -/
inductive Command where
  | register (now : Timestamp)
  | next (now : Timestamp)
  | report (trial : Trial)
  | reportSeveral (trials : List Trial)

/-- What a call gives back when it succeeds. -/
abbrev Command.Result : Command → Type
  | register _ => Unit
  | next _ => Option Trial
  | report _ => Bool
  | reportSeveral _ => Nat

/-- The experiment as it is now, and the exchange with the service. -/
structure Course (σ : Type) where
  experiment : Experiment
  exchange : Exchange σ

namespace Course

/-- Make a call. Reports leave the experiment alone. -/
def perform (client : Client σ) (c : Course σ) :
    (command : Command) → Outcome command.Result × Course σ
  | .register now =>
    let p := register client now c.experiment c.exchange
    (p.outcome, ⟨p.records, p.exchange⟩)
  | .next now =>
    let p := nextTrial client now c.experiment c.exchange
    (p.outcome, ⟨p.records, p.exchange⟩)
  | .report trial =>
    let p := reportTrial client c.experiment trial c.exchange
    (p.outcome, ⟨c.experiment, p.exchange⟩)
  | .reportSeveral trials =>
    let p := reportTrials client c.experiment trials c.exchange
    (p.outcome, ⟨c.experiment, p.exchange⟩)

def after (client : Client σ) (c : Course σ) (command : Command) : Course σ :=
  (c.perform client command).2

def run (client : Client σ) (c : Course σ) (commands : List Command) : Course σ :=
  commands.foldl (fun c command => c.after client command) c

end Course

/-! ### Services that keep what they are sent -/

/-- The service returns and keeps the parameters and the metrics that it is sent, by the name of the
experiment, and all its failures are failures of the service. -/
structure IsFaithful (client : Client σ) (kept : σ → String → Option Service.Scope) : Prop where
  created : ∀ {name definition found state next},
    client.answer (.createExperiment name definition) state = (.ok found, next) →
    found.scope = definition.scope ∧ kept next name = some definition.scope
  fetched : ∀ {name scope found state next},
    client.answer (.getExperiment name) state = (.ok found, next) → kept state name = some scope →
    found.scope = scope
  keeps : ∀ request {name scope state}, kept state name = some scope →
    (∀ definition, request = .createExperiment name definition → definition.scope = scope) →
    kept (client.answer request state).2 name = some scope
  refuses : ∀ {request err state next}, client.answer request state = (.error err, next) →
    err.kind = .remote

section Faithful
variable {kept : σ → String → Option Service.Scope}

/-- The experiment has stayed what it was as far as it is compared or told to have failed, and the
service keeps it so. -/
structure IsKnown (kept : σ → String → Option Service.Scope) (start e : Experiment) (state : σ) :
    Prop where
  name : e.name = start.name
  scope : e.toDefinition.scope = start.toDefinition.scope
  status : e.status = start.status
  kept : kept state start.name = some start.toDefinition.scope

/-- A step leaves the experiment known, and does not fail as incompatible. -/
structure EndsKnown {α : Type} (kept : σ → String → Option Service.Scope) (start : Experiment)
    (outcome : Outcome α) (e : Experiment) (state : σ) : Prop where
  known : IsKnown kept start e state
  compatible : ∀ err, outcome = .error err → err.kind ≠ .incompatible

variable {start : Experiment} {state next : σ}

theorem IsFaithful.not_incompatible (h : IsFaithful client kept) {request : Request} {err : Error}
    (hanswer : client.answer request state = (.error err, next)) : err.kind ≠ .incompatible := by
  rw [h.refuses hanswer]
  decide

theorem IsKnown.succeeded {α : Type} (h : IsKnown kept start e state) (a : α) :
    EndsKnown kept start (.ok a) e state where
  known := h
  compatible _ hother := by cases hother

theorem IsKnown.failed {α : Type} (h : IsKnown kept start e state) {err : Error}
    (hkind : err.kind ≠ .incompatible) : EndsKnown kept start (.error err : Outcome α) e state where
  known := h
  compatible _ hother := Except.error.inj hother ▸ hkind

theorem IsKnown.trans {e' : Experiment} (h : IsKnown kept start e state)
    (hlater : IsKnown kept e e' next) : IsKnown kept start e' next where
  name := hlater.name.trans h.name
  scope := hlater.scope.trans h.scope
  status := hlater.status.trans h.status
  kept := by
    rw [← h.name, ← h.scope]
    exact hlater.kept

theorem IsKnown.answered (h : IsKnown kept start e state) (hfaithful : IsFaithful client kept)
    {request : Request} {answer : Outcome request.Answer}
    (hanswer : client.answer request state = (answer, next))
    (hother : ∀ name definition, request ≠ .createExperiment name definition) :
    IsKnown kept start e next := by
  refine ⟨h.name, h.scope, h.status, ?_⟩
  have hnext := hfaithful.keeps request h.kept fun definition heq =>
    absurd heq (hother _ definition)
  rwa [hanswer] at hnext

/-- The definition that is kept matches. -/
theorem IsKnown.fetched (h : IsKnown kept start e x.state) (hfaithful : IsFaithful client kept)
    {fetched : Outcome Definition × Exchange σ} (hends : FetchEnds client e x fetched) :
    EndsKnown kept start fetched.1 e fetched.2.state := by
  cases hends with
  | refused hanswer =>
    exact (h.answered hfaithful hanswer nofun).failed (hfaithful.not_incompatible hanswer)
  | mismatched hanswer hcheck =>
    have hscope := hfaithful.fetched hanswer (h.name ▸ h.kept)
    rw [Experiment.checkDefinition_of_scope (hscope.trans h.scope.symm)] at hcheck
    cases hcheck
  | matched hanswer => exact (h.answered hfaithful hanswer nofun).succeeded _

theorem IsKnown.asked (h : IsKnown kept start e x.state) (hfaithful : IsFaithful client kept)
    {now : Timestamp} {p : Progress σ Experiment (Option Trial)}
    (hends : NextEnds client now e x p) :
    EndsKnown kept start p.outcome p.records p.exchange.state := by
  have hfetched : ∀ {fetched y}, fetchDefinition client e x = (fetched, y) →
      EndsKnown kept start fetched e y.state := by
    intro fetched y hfetch
    have hknown := h.fetched hfaithful (fetchDefinition_ends client e x)
    rwa [hfetch] at hknown
  cases hends with
  | closed => exact h.succeeded _
  | unfetched _ hfetch hkind => exact (hfetched hfetch).known.failed hkind
  | mismatched _ hfetch hkind => exact absurd hkind ((hfetched hfetch).compatible _ rfl)
  | offered _ hfetch hanswer =>
    exact ((hfetched hfetch).known.answered hfaithful hanswer nofun).succeeded _
  | @stopped _ _ _ _ state _ hfetch hanswer =>
    have hnext := (hfetched hfetch).known.answered hfaithful hanswer nofun
    have hstopped : IsKnown kept start e.stop state :=
      ⟨hnext.name, hnext.scope, hnext.status, hnext.kept⟩
    exact hstopped.succeeded _
  | unavailable _ hfetch hanswer =>
    exact ((hfetched hfetch).known.answered hfaithful hanswer nofun).succeeded _
  | refused _ hfetch hanswer =>
    exact ((hfetched hfetch).known.answered hfaithful hanswer nofun).failed
      (hfaithful.not_incompatible hanswer)

/-- A definition that is made from what was sent matches, and what was sent is kept. -/
theorem isKnown_of_created (hfaithful : IsFaithful client kept) {created : Definition}
    (hanswer : client.answer (.createExperiment e.name e.toDefinition) state =
      (.ok created, next)) :
    IsKnown kept e (e.adopt created) next ∧ e.checkDefinition created = .ok () := by
  obtain ⟨hscope, hkept⟩ := hfaithful.created hanswer
  exact ⟨⟨e.name_adopt created, rfl, rfl, hkept⟩, Experiment.checkDefinition_of_scope hscope⟩

theorem IsKnown.registered (h : IsKnown kept start e x.state) (hfaithful : IsFaithful client kept)
    {now : Timestamp} {p : Progress σ Experiment Unit} (hends : RegisterEnds client now e x p) :
    EndsKnown kept start p.outcome p.records p.exchange.state := by
  cases hends with
  | unsubmitted hsubmission =>
    refine h.failed ?_
    rw [Experiment.kind_of_submission hsubmission]
    decide
  | @refused _ state hanswer =>
    -- Even a registration that is refused has sent what is kept.
    have hkept : kept state start.name = some start.toDefinition.scope := by
      have hnext := hfaithful.keeps (.createExperiment e.name e.toDefinition) h.kept
        fun definition heq => by
          obtain ⟨-, rfl⟩ := Request.createExperiment.inj heq
          exact h.scope
      rwa [hanswer] at hnext
    exact IsKnown.failed ⟨h.name, h.scope, h.status, hkept⟩ (hfaithful.not_incompatible hanswer)
  | mismatched hanswer hcheck =>
    rw [(isKnown_of_created hfaithful hanswer).2] at hcheck
    cases hcheck
  | adopted hanswer => exact (h.trans (isKnown_of_created hfaithful hanswer).1).succeeded _
  | @suggested _ _ _ _ answer hanswer _ _ hcreated =>
    have hadopted := h.trans (isKnown_of_created hfaithful hanswer).1
    have hknown := hadopted.answered hfaithful hcreated nofun
    cases answer with
    | ok _ => exact hknown.succeeded _
    | error _ => exact hknown.failed (hfaithful.not_incompatible hcreated)

theorem IsKnown.reported (h : IsKnown kept start e x.state) (hfaithful : IsFaithful client kept)
    {t : Trial} {p : Progress σ Trial Bool} (hends : ReportEnds client t x p) :
    EndsKnown kept start p.outcome e p.exchange.state := by
  cases hends with
  | skipped => exact h.succeeded _
  | unaddressed => exact h.failed nofun
  | accepted _ hanswer => exact (h.answered hfaithful hanswer nofun).succeeded _
  | refused _ hanswer =>
    exact (h.answered hfaithful hanswer nofun).failed (hfaithful.not_incompatible hanswer)

theorem IsKnown.allReported (h : IsKnown kept start e x.state)
    (hfaithful : IsFaithful client kept) (trials : List Trial) :
    let p := reportAll client trials x
    EndsKnown kept start p.outcome e p.exchange.state := by
  induction trials generalizing x with
  | nil => exact h.succeeded _
  | cons t rest ih =>
    have hfirst := h.reported hfaithful (report_ends client t x)
    unfold reportAll
    generalize report client t x = p at hfirst ⊢
    obtain ⟨outcome, _, y⟩ := p
    cases outcome with
    | error err => exact hfirst.known.failed (hfirst.compatible err rfl)
    | ok sent =>
      have hrest := ih hfirst.known
      dsimp only
      cases houtcome : (reportAll client rest y).outcome with
      | ok n => exact hrest.known.succeeded _
      | error err => exact hrest.known.failed (hrest.compatible err houtcome)

/-- No call fails as incompatible, and the experiment stays known. -/
theorem IsKnown.perform (hfaithful : IsFaithful client kept) {c : Course σ}
    (h : IsKnown kept start c.experiment c.exchange.state) (command : Command) :
    EndsKnown kept start (c.perform client command).1 (c.after client command).experiment
      (c.after client command).exchange.state := by
  have hfetched := h.fetched hfaithful (fetchDefinition_ends client c.experiment c.exchange)
  cases command with
  | register now => exact h.registered hfaithful (register_ends client now c.experiment c.exchange)
  | next now => exact h.asked hfaithful (nextTrial_ends client now c.experiment c.exchange)
  | report t =>
    dsimp only [Course.after, Course.perform, reportTrial]
    generalize fetchDefinition client c.experiment c.exchange = fetched at hfetched ⊢
    obtain ⟨outcome, y⟩ := fetched
    cases outcome with
    | error err => exact hfetched.known.failed (hfetched.compatible err rfl)
    | ok definition => exact hfetched.known.reported hfaithful (report_ends client t y)
  | reportSeveral trials =>
    dsimp only [Course.after, Course.perform, reportTrials]
    generalize fetchDefinition client c.experiment c.exchange = fetched at hfetched ⊢
    obtain ⟨outcome, y⟩ := fetched
    cases outcome with
    | error err => exact hfetched.known.failed (hfetched.compatible err rfl)
    | ok definition => exact hfetched.known.allReported hfaithful trials

theorem IsKnown.run (hfaithful : IsFaithful client kept) (commands : List Command) {c : Course σ}
    (h : IsKnown kept start c.experiment c.exchange.state) :
    IsKnown kept start (c.run client commands).experiment (c.run client commands).exchange.state := by
  induction commands generalizing c with
  | nil => exact h
  | cons command rest ih => exact ih (h.perform hfaithful command).known

theorem isKnown_of_registered (hfaithful : IsFaithful client kept) {now : Timestamp}
    {p : Progress σ Experiment Unit} (hends : RegisterEnds client now e x p)
    (hok : p.outcome = .ok ()) : IsKnown kept e p.records p.exchange.state := by
  cases hends with
  | unsubmitted => cases hok
  | refused => cases hok
  | mismatched => cases hok
  | adopted hanswer => exact (isKnown_of_created hfaithful hanswer).1
  | suggested hanswer _ _ hcreated =>
    exact (isKnown_of_created hfaithful hanswer).1.answered hfaithful hcreated nofun

/-- Once an experiment is registered at a service that keeps what it is sent, no call for it fails as
incompatible, whichever calls come before, and its conditions stay as they are. -/
theorem Course.run_compatible (hfaithful : IsFaithful client kept) {now : Timestamp}
    {e registered : Experiment} {x y : Exchange σ}
    (hregistered : Synchronization.register client now e x = ⟨.ok (), registered, y⟩)
    (commands : List Command) (command : Command) :
    let c := Course.run client ⟨registered, y⟩ commands
    c.experiment.status = e.status ∧ (c.after client command).experiment.status = e.status ∧
      ∀ err, (c.perform client command).1 = .error err → err.kind ≠ .incompatible := by
  intro c
  have hends := register_ends client now e x
  rw [hregistered] at hends
  have hknown : IsKnown kept e c.experiment c.exchange.state :=
    (isKnown_of_registered hfaithful hends rfl).run hfaithful commands
  have hlast := hknown.perform hfaithful command
  exact ⟨hknown.status, hlast.known.status, hlast.compatible⟩

end Faithful

/-! ### A service that stores definitions -/

/-- A service that stores what it is sent and answers with it. It has stopped every experiment. -/
def storing : Client (Dict Definition) where
  answer
    | .createExperiment name definition, store =>
      let locations := { selfUrl := "/experiments/" ++ name, nextTrialUrl := "/next/" ++ name }
      let created := { definition with locations }
      (.ok created, store.insert name created)
    | .getExperiment name, store =>
      match store.get? name with
      | some definition => (.ok definition, store)
      | none => (.error (.service ⟨.experimentNotFound, ""⟩), store)
    | .createTrial _ suggestion, store => (.ok suggestion, store)
    | .nextTrial _, store => (.error (.service ⟨.experimentStopped, ""⟩), store)
    | .reportTrial .., store => (.ok (), store)

def stored (store : Dict Definition) (name : String) : Option Service.Scope :=
  (store.get? name).map Definition.scope

theorem stored_insert (store : Dict Definition) (name other : String) (definition : Definition) :
    stored (store.insert name definition) other =
      if other = name then some definition.scope else stored store other := by
  rw [stored, Dict.get?_insert]
  split <;> rfl

theorem storing_isFaithful : IsFaithful storing stored where
  created := by
    intro name definition found state next h
    obtain ⟨hfound, rfl⟩ := Prod.mk.inj h
    obtain rfl := Except.ok.inj hfound
    exact ⟨rfl, by rw [stored_insert, if_pos rfl]; rfl⟩
  fetched := by
    intro name scope found state next h hkept
    obtain ⟨definition, hdefinition, rfl⟩ := Option.map_eq_some_iff.mp hkept
    have hanswer : storing.answer (.getExperiment name) state = (.ok definition, state) := by
      simp only [storing, hdefinition]
    obtain ⟨hfound, -⟩ := Prod.mk.inj (h.symm.trans hanswer)
    rw [Except.ok.inj hfound]
  keeps := by
    intro request name scope state hkept hsame
    cases request with
    | createExperiment other definition =>
      show stored (state.insert other _) name = _
      rw [stored_insert]
      split
      · next heq =>
        subst heq
        exact congrArg some (hsame definition rfl)
      · exact hkept
    | getExperiment other =>
      have hstate : (storing.answer (.getExperiment other) state).2 = state := by
        simp only [storing]
        split <;> rfl
      rwa [hstate]
    | createTrial => exact hkept
    | nextTrial => exact hkept
    | reportTrial => exact hkept
  refuses := by
    intro request err state next h
    cases request with
    | createExperiment => cases h
    | getExperiment other =>
      simp only [storing] at h
      split at h
      · cases h
      · obtain ⟨herr, -⟩ := Prod.mk.inj h
        rw [← Except.error.inj herr]
        rfl
    | createTrial => cases h
    | nextTrial =>
      obtain ⟨herr, -⟩ := Prod.mk.inj h
      rw [← Except.error.inj herr]
      rfl
    | reportTrial => cases h

/-- An experiment with a parameter to choose and one that has a single value. -/
def replicated : Experiment :=
  { metadata := { name := "web" }
    spec := {
      parameters := [
        { name := "replicas", min := 1, max := 5 }, { name := "zones", min := 2, max := 2 }]
      metrics := [{ name := "cost" }] } }

def someTime : Timestamp := ⟨2024, 1, 1, 0, 0, 0, 0⟩

theorem storing_registers (now : Timestamp) (h : e.baselineSuggestion = .ok none)
    (x : Exchange (Dict Definition)) :
    Synchronization.register storing now e x = ⟨.ok (),
      (Synchronization.register storing now e x).records,
      (Synchronization.register storing now e x).exchange⟩ := by
  have hends := register_ends storing now e x
  generalize Synchronization.register storing now e x = p at hends ⊢
  cases hends with
  | unsubmitted hsubmission =>
    rw [Experiment.submission, h] at hsubmission
    cases hsubmission
  | refused hanswer => cases hanswer
  | mismatched hanswer hcheck =>
    rw [(isKnown_of_created storing_isFaithful hanswer).2] at hcheck
    cases hcheck
  | adopted => rfl
  | suggested _ _ hbaseline =>
    rw [h] at hbaseline
    cases hbaseline

/-- The experiment is stopped and registered again, and a trial of it is reported; asking for the
next trial then does not fail it. -/
theorem stopped_course_compatible :
    let p := Synchronization.register storing someTime replicated ⟨.empty, []⟩
    let c := Course.run storing ⟨p.records, p.exchange⟩
      [.next someTime, .register someTime, .report {}]
    p.outcome = .ok () ∧ c.experiment.status = {} ∧
      ∀ err, (c.perform storing (.next someTime)).1 = .error err → err.kind ≠ .incompatible := by
  intro p c
  have hregistered := storing_registers someTime (e := replicated) rfl ⟨.empty, []⟩
  have hcompatible := Course.run_compatible storing_isFaithful hregistered
    [.next someTime, .register someTime, .report {}] (.next someTime)
  exact ⟨congrArg Progress.outcome hregistered, hcompatible.1, hcompatible.2.2⟩

end Synchronization

end WorkloadTuning
