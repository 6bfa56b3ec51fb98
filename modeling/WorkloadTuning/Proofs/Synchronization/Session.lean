import WorkloadTuning.Proofs.Synchronization.Flight

/-! Sessions: any number of calls that report trials of one experiment, one trial or several at a
time. A call does not ask whether a trial has been reported before. What tells is the finalizer: the
answer that a report is accepted takes it off, and no call puts it on again. A report that its call
has given up may have been accepted all the same, and then the finalizer stays. -/

namespace WorkloadTuning

open Service (Client Exchange Request)

def Service.Request.isReport : Request → Bool
  | .reportTrial .. => true
  | _ => false

namespace Synchronization

variable {σ ι : Type}

namespace Attempt

theorem isReport_request (a : Attempt ι) : a.request.isReport = true := rfl

/-- The service has accepted the report. -/
def accepted (a : Attempt ι) : Bool :=
  a.fate = .answered true ∨ a.fate = .returned true

/-- The service has accepted the report, and the call that sent it has not got the answer. -/
def lost (a : Attempt ι) : Bool :=
  a.fate = .answered true

variable [DecidableEq ι]

/-- How many reports for the trial the service has accepted. -/
def acceptedFor (attempts : List (Attempt ι)) (i : ι) : Nat :=
  attempts.countP fun a => a.trial = i ∧ a.accepted

def lostFor (attempts : List (Attempt ι)) (i : ι) : Nat :=
  attempts.countP fun a => a.trial = i ∧ a.lost

theorem acceptedFor_eq (attempts : List (Attempt ι)) (i : ι) :
    acceptedFor attempts i = reported attempts i + lostFor attempts i := by
  induction attempts with
  | nil => rfl
  | cons a rest ih =>
    have hone : (if a.trial = i ∧ a.accepted then 1 else 0) =
        (if a.trial = i ∧ a.succeeded then 1 else 0) + if a.trial = i ∧ a.lost then 1 else 0 := by
      obtain ⟨j, url, report, fate⟩ := a
      rcases fate with _ | (_ | _) | (_ | _) <;> simp [accepted, succeeded, lost]
    simp only [acceptedFor, reported, lostFor, List.countP_cons, decide_eq_true_eq] at ih ⊢
    omega

end Attempt

open Attempt (mark sentFor reported acceptedFor lostFor)

/-- Which trials to report, all of them different, and what happens up to the end of the call. -/
structure Call (ι : Type) where
  chosen : List ι
  distinct : chosen.Nodup
  moves : List (Move ι)

/-- The trials of an experiment and the reports sent for them by all calls so far. -/
structure Session (σ ι : Type) where
  trials : ι → Trial
  exchange : Exchange σ
  attempts : List (Attempt ι) := []

namespace Session

/-- A call begins by asking for the definition of the experiment. Unless that still matches, it has
failed before any report. -/
def launch (client : Client σ) (e : Experiment) (s : Session σ ι) (chosen : List ι) :
    Flight σ ι :=
  match fetchDefinition client e s.exchange with
  | (.ok _, exchange) =>
    { trials := s.trials, exchange, earlier := s.attempts, waiting := chosen }
  | (.error _, exchange) =>
    { trials := s.trials, exchange, earlier := s.attempts, waiting := [], failed := true }

section Launch
variable (client : Client σ) (e : Experiment) (s : Session σ ι) (chosen : List ι)

@[simp] theorem trials_launch : (s.launch client e chosen).trials = s.trials := by
  unfold launch
  split <;> rfl

@[simp] theorem earlier_launch : (s.launch client e chosen).earlier = s.attempts := by
  unfold launch
  split <;> rfl

@[simp] theorem own_launch : (s.launch client e chosen).own = [] := by
  unfold launch
  split <;> rfl

theorem waiting_launch : (s.launch client e chosen).waiting.Sublist chosen := by
  unfold launch
  split
  · exact .refl _
  · exact List.nil_sublist _

theorem sent_launch :
    (s.launch client e chosen).exchange.sent = s.exchange.sent ++ [.getExperiment e.name] := by
  rw [← fetchDefinition_sent client e s.exchange, launch]
  split <;> next h => rw [h]

end Launch

variable [DecidableEq ι]

/-- The session after one more call. -/
def after (client : Client σ) (e : Experiment) (s : Session σ ι) (call : Call ι) : Session σ ι :=
  let c := (s.launch client e call.chosen).run client call.moves
  { trials := c.trials, exchange := c.exchange, attempts := c.earlier ++ c.own }

def run (client : Client σ) (e : Experiment) (s : Session σ ι) (calls : List (Call ι)) :
    Session σ ι :=
  calls.foldl (fun s call => s.after client e call) s

/-- The trial is chosen only by calls that find it pending. -/
def ChosenWhilePending (client : Client σ) (e : Experiment) (i : ι) :
    Session σ ι → List (Call ι) → Prop
  | _, [] => True
  | s, call :: rest => (i ∈ call.chosen → (s.trials i).isPending = true) ∧
      ChosenWhilePending client e i (s.after client e call) rest

/-! ### One call -/

/-- What calls add to a session: the reports that they send. They release the trials whose reports
have come back accepted. -/
structure Adds (s s' : Session σ ι) (new : List (Attempt ι)) : Prop where
  attempts : s'.attempts.map mark = (s.attempts ++ new).map mark
  trials : ∀ i, s'.trials i = if 0 < reported new i then (s.trials i).released else s.trials i
  requests : new.map Attempt.request =
    (new.map Attempt.trial).map fun i => (s.trials i).reportRequest
  sent : s'.exchange.sent.filter Request.isReport = s.exchange.sent.filter Request.isReport ++
    new.map Attempt.request

section After
variable (client : Client σ) (e : Experiment)

/-- A call sends a report for each of its trials at most once. -/
theorem after_adds (s : Session σ ι) (call : Call ι) :
    ∃ new, s.Adds (s.after client e call) new ∧
      ∀ i, sentFor new i ≤ if i ∈ call.chosen then 1 else 0 := by
  have hwaiting := s.waiting_launch client e call.chosen
  have hfollows : (s.launch client e call.chosen).Follows
      ((s.launch client e call.chosen).run client call.moves) :=
    (Flight.Follows.refl (s.own_launch client e call.chosen)).run call.moves
  simp only [after]
  generalize (s.launch client e call.chosen).run client call.moves = c at hfollows
  refine ⟨c.own, ⟨?_, ?_, ?_, ?_⟩, fun i => ?_⟩
  · rw [List.map_append, hfollows.earlier, earlier_launch, List.map_append]
  · simpa using hfollows.trials
  · simpa using hfollows.requests
  · have hreports : (c.own.map Attempt.request).filter Request.isReport =
        c.own.map Attempt.request :=
      List.filter_eq_self.mpr fun request hrequest => by
        obtain ⟨a, -, rfl⟩ := List.mem_map.mp hrequest
        exact a.isReport_request
    rw [hfollows.sent, sent_launch, List.filter_append, List.filter_append, hreports]
    exact congrArg (· ++ _) (List.append_nil _)
  · refine Nat.le_trans (hfollows.sentFor_le (call.distinct.sublist hwaiting) i) ?_
    by_cases hi : i ∈ (s.launch client e call.chosen).waiting
    · exact Nat.le_of_eq (by rw [if_pos hi, if_pos (hwaiting.subset hi)])
    · rw [if_neg hi]
      exact Nat.zero_le _

end After

section Adds
variable {s s' s'' : Session σ ι} {new new' : List (Attempt ι)} (h : s.Adds s' new) (i : ι)
include h

theorem Adds.sentFor_eq : sentFor s'.attempts i = sentFor s.attempts i + sentFor new i := by
  rw [← Attempt.sentFor_append, sentFor, sentFor, Attempt.trials_congr h.attempts]

theorem Adds.reported_eq : reported s'.attempts i = reported s.attempts i + reported new i := by
  rw [← Attempt.reported_append, Attempt.reported_congr h.attempts]

theorem Adds.reportRequest_eq : (s'.trials i).reportRequest = (s.trials i).reportRequest :=
  Trial.reportRequest_of_eq_ite (h.trials i)

/-- A trial whose report has come back accepted is not pending. -/
theorem Adds.isPending_of_reported (hreported : 0 < reported new i) :
    (s'.trials i).isPending = false := by
  rw [h.trials, if_pos hreported, Trial.isPending_released]

/-- No call puts the finalizer on. -/
theorem Adds.isPending_of_not (hpending : (s.trials i).isPending = false) :
    (s'.trials i).isPending = false := by
  rw [h.trials]
  split
  · exact Trial.isPending_released _
  · exact hpending

omit i

/-- Where nothing had been sent, the reports sent are all attempts. -/
theorem Adds.all (hnone : s.attempts = []) : s.Adds s' s'.attempts := by
  have hmarks : s'.attempts.map mark = new.map mark := by
    rw [h.attempts, hnone, List.nil_append]
  exact {
    attempts := by rw [hnone, List.nil_append]
    trials := fun i => by rw [Attempt.reported_congr hmarks]; exact h.trials i
    requests := by
      rw [Attempt.requests_congr hmarks, Attempt.trials_congr hmarks]
      exact h.requests
    sent := by rw [Attempt.requests_congr hmarks]; exact h.sent }

theorem Adds.trans (h' : s'.Adds s'' new') : s.Adds s'' (new ++ new') where
  attempts := by
    rw [h'.attempts, List.map_append, h.attempts, ← List.map_append, List.append_assoc]
  trials i := by
    rw [h'.trials, h.trials, Attempt.reported_append]
    by_cases hnew : 0 < reported new i
    · simp [Nat.add_pos_left hnew, hnew, Trial.released_released]
    · simp [Nat.eq_zero_of_not_pos hnew]
  requests := by
    have hlater := h'.requests
    simp only [h.reportRequest_eq] at hlater
    rw [List.map_append, h.requests, hlater, ← List.map_append, ← List.map_append]
  sent := by rw [h'.sent, h.sent, List.map_append, List.append_assoc]

end Adds

/-! ### Many calls -/

section Run
variable (client : Client σ) (e : Experiment) {i : ι}

theorem run_append (s : Session σ ι) (earlier later : List (Call ι)) :
    s.run client e (earlier ++ later) = (s.run client e earlier).run client e later :=
  List.foldl_append

theorem ChosenWhilePending.of_append {s : Session σ ι} {earlier later : List (Call ι)}
    (h : s.ChosenWhilePending client e i (earlier ++ later)) :
    (s.run client e earlier).ChosenWhilePending client e i later := by
  induction earlier generalizing s with
  | nil => exact h
  | cons call rest ih => exact ih h.2

/-- A trial that is not pending is not chosen any more. -/
theorem ChosenWhilePending.countP_eq {s : Session σ ι} {calls : List (Call ι)}
    (h : s.ChosenWhilePending client e i calls) (hpending : (s.trials i).isPending = false) :
    calls.countP (fun call => i ∈ call.chosen) = 0 := by
  induction calls generalizing s with
  | nil => rfl
  | cons call rest ih =>
    obtain ⟨new, hadds, -⟩ := after_adds client e s call
    have hnot : i ∉ call.chosen := fun hi => by simp [h.1 hi] at hpending
    rw [List.countP_cons, ih h.2 (hadds.isPending_of_not i hpending)]
    simp [hnot]

/-- A call sends the report of a trial at most once. -/
theorem run_adds (s : Session σ ι) (calls : List (Call ι)) :
    ∃ new, s.Adds (s.run client e calls) new ∧
      ∀ i, sentFor new i ≤ calls.countP fun call => i ∈ call.chosen := by
  induction calls generalizing s with
  | nil =>
    refine ⟨[], ⟨?_, fun _ => rfl, rfl, (List.append_nil _).symm⟩, fun _ => Nat.le_refl _⟩
    rw [List.append_nil]
    rfl
  | cons call rest ih =>
    obtain ⟨first, hfirst, honce⟩ := after_adds client e s call
    obtain ⟨new, hadds, hcount⟩ := ih (s.after client e call)
    refine ⟨first ++ new, hfirst.trans hadds, fun i => ?_⟩
    rw [Attempt.sentFor_append, List.countP_cons, Nat.add_comm]
    simpa using Nat.add_le_add (hcount i) (honce i)

/-- Success comes back at most once for a trial that is chosen only while it is pending. -/
theorem reported_run_le {s : Session σ ι} {calls : List (Call ι)}
    (h : s.ChosenWhilePending client e i calls) :
    reported (s.run client e calls).attempts i ≤ reported s.attempts i + 1 := by
  induction calls generalizing s with
  | nil => exact Nat.le_succ _
  | cons call rest ih =>
    obtain ⟨new, hadds, honce⟩ := after_adds client e s call
    have hstep := hadds.reported_eq i
    by_cases hnew : 0 < reported new i
    · -- The trial has been released, so the other calls leave it alone.
      have hnone := h.2.countP_eq client e (hadds.isPending_of_reported i hnew)
      have honly : reported new i ≤ 1 := by
        have hsent := Nat.le_trans (Attempt.reported_le_sentFor new i) (honce i)
        split at hsent <;> omega
      obtain ⟨later, hlater, hcount⟩ := run_adds client e (s.after client e call) rest
      have hstop : reported later i = 0 := Nat.eq_zero_of_le_zero <|
        Nat.le_trans (Attempt.reported_le_sentFor later i) (hnone ▸ hcount i)
      show reported ((s.after client e call).run client e rest).attempts i ≤ _
      rw [hlater.reported_eq, hstep, hstop]
      omega
    · have hrest : reported ((s.after client e call).run client e rest).attempts i ≤ _ := ih h.2
      rw [hstep, Nat.eq_zero_of_not_pos hnew] at hrest
      exact hrest

end Run

/-! ### Calls with every request answered at once -/

/-- Where every request is answered at once, several trials are reported as by `reportTrials`, and
one trial as by `reportTrial`. -/
structure RunsInOrder (client : Client σ) (e : Experiment) (s : Session σ ι) : Prop where
  several : ∀ chosen : List ι, chosen.Nodup →
    (s.launch client e chosen).EndsAs chosen
      (reportTrials client e (chosen.map s.trials) s.exchange)
      ((s.launch client e chosen).run client (Flight.inOrder s.trials chosen 0))
  one : ∀ i, let p := reportTrial client e (s.trials i) s.exchange
    (s.launch client e [i]).EndsAs [i] ⟨p.outcome.map Bool.toNat, [p.records], p.exchange⟩
      ((s.launch client e [i]).run client (Flight.inOrder s.trials [i] 0))

theorem reportTrials_endsAs (client : Client σ) (e : Experiment) (s : Session σ ι)
    {chosen : List ι} (hdistinct : chosen.Nodup) :
    (s.launch client e chosen).EndsAs chosen
      (reportTrials client e (chosen.map s.trials) s.exchange)
      ((s.launch client e chosen).run client (Flight.inOrder s.trials chosen 0)) := by
  simp only [launch, reportTrials]
  rcases fetchDefinition client e s.exchange with ⟨fetched, x⟩
  cases fetched with
  | error err =>
    rw [Flight.run_inOrder_of_failed rfl _ _ (Nat.le_refl 0)]
    exact ⟨rfl, rfl, fun _ _ => rfl, rfl⟩
  | ok definition => exact Flight.inOrder_endsAs client s.trials (fun _ _ => rfl) rfl rfl hdistinct

theorem runsInOrder (client : Client σ) (e : Experiment) (s : Session σ ι) :
    s.RunsInOrder client e where
  several _ hdistinct := s.reportTrials_endsAs client e hdistinct
  one i := by
    intro p
    rw [← reportTrials_singleton]
    exact s.reportTrials_endsAs client e (List.nodup_singleton i)

/-! ### No trial is reported twice -/

/-- However the service behaves and whenever it answers, whichever calls are made and wherever they
end: each call sends a report for each of its trials at most once. A trial is released when success
comes back for its report, for good, and is as it was until then. Of a trial that is chosen only
while it is pending, nothing is sent any more after success has come back, which it does once at
most; the other reports that the service has accepted for it were under way when their calls ended.
The calls include those where every request is answered at once, as `reportTrials` and `reportTrial`
have it. -/
theorem run_accounts (client : Client σ) (e : Experiment) (trials : ι → Trial) (x : Exchange σ)
    (calls : List (Call ι)) (i : ι) :
    let start : Session σ ι := { trials, exchange := x }
    let s := start.run client e calls
    start.Adds s s.attempts ∧
    (∀ call : Call ι, sentFor (s.after client e call).attempts i ≤
      sentFor s.attempts i + if i ∈ call.chosen then 1 else 0) ∧
    (∀ earlier later, calls = earlier ++ later →
      let mid := start.run client e earlier
      0 < reported mid.attempts i →
        (s.trials i).isPending = false ∧
        (start.ChosenWhilePending client e i calls →
          sentFor s.attempts i = sentFor mid.attempts i)) ∧
    (start.ChosenWhilePending client e i calls →
      reported s.attempts i ≤ 1 ∧ acceptedFor s.attempts i ≤ 1 + lostFor s.attempts i) ∧
    s.RunsInOrder client e := by
  intro start s
  have htracks (calls : List (Call ι)) :
      start.Adds (start.run client e calls) (start.run client e calls).attempts := by
    obtain ⟨new, hadds, -⟩ := run_adds client e start calls
    exact hadds.all rfl
  refine ⟨htracks calls, fun call => ?_, ?_, fun hpending => ?_, runsInOrder client e s⟩
  · obtain ⟨new, hadds, honce⟩ := after_adds client e s call
    rw [hadds.sentFor_eq]
    exact Nat.add_le_add_left (honce i) _
  · rintro earlier later rfl mid hreported
    obtain ⟨new, hadds, hcount⟩ := run_adds client e mid later
    rw [← run_append] at hadds
    have hfree : (mid.trials i).isPending = false :=
      (htracks earlier).isPending_of_reported i hreported
    refine ⟨hadds.isPending_of_not i hfree, fun hpending => ?_⟩
    have hnone := (hpending.of_append client e).countP_eq client e hfree
    have hstop : sentFor new i = 0 := Nat.eq_zero_of_le_zero (hnone ▸ hcount i)
    rw [hadds.sentFor_eq, hstop, Nat.add_zero]
  · have honce : reported s.attempts i ≤ 1 := reported_run_le client e hpending
    exact ⟨honce, by rw [Attempt.acceptedFor_eq]; omega⟩

/-- Two trials are reported one after another, each answer coming at once. -/
def bothInOrder : Call Nat :=
  ⟨[0, 1], by decide, Flight.inOrder finished [0, 1] 0⟩

/-- Two reports are under way. The service accepts the first one and refuses the second one, and the
answer to the second one comes back. -/
def bothUnderWay : Call Nat :=
  ⟨[0, 1], by decide, [.start 0, .start 1, .handle 0, .handle 1, .receive 1]⟩

def sessionOf (turns : List Bool) : Session (List Bool) Nat :=
  { trials := finished, exchange := ⟨turns, []⟩ }

/-- A batch that stopped midway and is made again sends what has been accepted before. Even if it is
made again for the trials that are pending, these may have been accepted. -/
theorem repeated_sends_twice :
    (let s := (sessionOf [true, false, true, true]).run scheduled {} [bothInOrder]
      let s' := s.after scheduled {} bothInOrder
      reported s.attempts 0 = 1 ∧ sentFor s.attempts 0 = 1 ∧ sentFor s'.attempts 0 = 2 ∧
        acceptedFor s'.attempts 0 = 2) ∧
    (let start := sessionOf [true, false, true, true]
      let s := start.run scheduled {} [bothUnderWay, bothInOrder]
      start.ChosenWhilePending scheduled {} 0 [bothUnderWay, bothInOrder] ∧
        reported s.attempts 0 = 1 ∧ acceptedFor s.attempts 0 = 2 ∧ lostFor s.attempts 0 = 1) := by
  refine ⟨by decide +kernel, ⟨fun _ => ?_, fun _ => ?_, trivial⟩, ?_⟩
  · decide +kernel
  · decide +kernel
  · decide +kernel

/-- The second one alone, its answer coming at once. -/
def secondAgain : Call Nat :=
  ⟨[1], by decide, Flight.inOrder finished [1] 0⟩

/-- The refused trial alone is still pending and reported again. -/
theorem resumed_sends_last :
    let start := sessionOf [true, false, true]
    let mid := start.run scheduled {} [bothInOrder]
    let s := start.run scheduled {} [bothInOrder, secondAgain]
    0 < reported mid.attempts 0 ∧
    start.ChosenWhilePending scheduled {} 0 [bothInOrder, secondAgain] ∧
    start.ChosenWhilePending scheduled {} 1 [bothInOrder, secondAgain] ∧
    (s.trials 0).isPending = false ∧ sentFor s.attempts 0 = sentFor mid.attempts 0 ∧
    reported s.attempts 1 ≤ 1 ∧ acceptedFor s.attempts 1 ≤ 1 + lostFor s.attempts 1 := by
  intro start mid s
  have hreported : 0 < reported mid.attempts 0 := by decide +kernel
  have hzero : start.ChosenWhilePending scheduled {} 0 [bothInOrder, secondAgain] :=
    ⟨fun _ => by decide +kernel, fun hmem => absurd hmem (by decide), trivial⟩
  have hone : start.ChosenWhilePending scheduled {} 1 [bothInOrder, secondAgain] :=
    ⟨fun _ => by decide +kernel, fun _ => by decide +kernel, trivial⟩
  obtain ⟨-, -, hfirst, -, -⟩ :=
    run_accounts scheduled {} finished ⟨[true, false, true], []⟩ [bothInOrder, secondAgain] 0
  obtain ⟨-, -, -, hsecond, -⟩ :=
    run_accounts scheduled {} finished ⟨[true, false, true], []⟩ [bothInOrder, secondAgain] 1
  obtain ⟨hfree, hlast⟩ := hfirst [bothInOrder] [secondAgain] rfl hreported
  exact ⟨hreported, hzero, hone, hfree, hlast hzero, hsecond hone⟩

end Session

end Synchronization

end WorkloadTuning
