import Mathlib.Data.List.Perm.Subperm
import WorkloadTuning.Proofs.Lists
import WorkloadTuning.Proofs.Synchronization.Batch
import WorkloadTuning.Synchronization.Flight

/-! What a call does while its reports are under way: it sends one report at most for each trial that
it has chosen, and releases a trial when, and only when, the answer comes back that its report was
accepted. Where every request is answered at once, this is a batch reported in order. -/

namespace WorkloadTuning.Synchronization

open Service (Client Exchange Request)

variable {σ ι : Type}

namespace Attempt

/-- The answer has come back that the report was accepted. -/
def succeeded (a : Attempt ι) : Bool :=
  a.fate = .returned true

@[simp] theorem trial_ofTrial (i : ι) (t : Trial) : (ofTrial i t).trial = i := rfl

@[simp] theorem request_ofTrial (i : ι) (t : Trial) : (ofTrial i t).request = t.reportRequest := rfl

@[simp] theorem succeeded_ofTrial (i : ι) (t : Trial) : (ofTrial i t).succeeded = false := rfl

/-- What the service cannot change about a report. -/
def mark (a : Attempt ι) : ι × Request × Bool :=
  (a.trial, a.request, a.succeeded)

theorem mark_handle (client : Client σ) (a : Attempt ι) (state : σ) :
    (a.handle client state).1.mark = a.mark := by
  obtain ⟨i, url, report, fate⟩ := a
  cases fate <;> rfl

theorem marks_handleAt (client : Client σ) (attempts : List (Attempt ι)) (n : Nat) (state : σ) :
    (handleAt client attempts n state).1.map mark = attempts.map mark := by
  unfold handleAt
  split
  · next a ha => exact map_set_of_eq ha (mark_handle client a state)
  · rfl

section Marks
variable {attempts others : List (Attempt ι)}

theorem trials_congr (h : attempts.map mark = others.map mark) :
    attempts.map trial = others.map trial := by
  simpa [Function.comp_def, mark] using congrArg (List.map Prod.fst) h

theorem requests_congr (h : attempts.map mark = others.map mark) :
    attempts.map request = others.map request := by
  simpa [Function.comp_def, mark] using congrArg (List.map fun m => m.2.1) h

variable [DecidableEq ι]

/-- How often a report was sent for the trial. -/
def sentFor (attempts : List (Attempt ι)) (i : ι) : Nat :=
  (attempts.map trial).count i

/-- How often the answer came back that a report for the trial was accepted. -/
def reported (attempts : List (Attempt ι)) (i : ι) : Nat :=
  attempts.countP fun a => a.trial = i ∧ a.succeeded

theorem reported_congr (h : attempts.map mark = others.map mark) (i : ι) :
    reported attempts i = reported others i := by
  have hcount : ∀ l : List (Attempt ι), reported l i =
      (l.map mark).countP fun m => m.1 = i ∧ m.2.2 := by
    intro l
    rw [List.countP_map]
    rfl
  rw [hcount, hcount, h]

theorem reported_append (i : ι) :
    reported (attempts ++ others) i = reported attempts i + reported others i :=
  List.countP_append

theorem sentFor_append (i : ι) :
    sentFor (attempts ++ others) i = sentFor attempts i + sentFor others i := by
  rw [sentFor, List.map_append, List.count_append, sentFor, sentFor]

theorem reported_le_sentFor (attempts : List (Attempt ι)) (i : ι) :
    reported attempts i ≤ sentFor attempts i := by
  rw [sentFor, List.count, List.countP_map]
  refine List.countP_mono_left fun a _ ha => ?_
  simpa using (of_decide_eq_true ha).1

/-- An answer that comes back counts for its own trial, if it is a success. -/
theorem reported_set {n : Nat} {a : Attempt ι} (ha : attempts[n]? = some a)
    (hpending : a.succeeded = false) (accepted : Bool) (i : ι) :
    reported (attempts.set n { a with fate := .returned accepted }) i =
      reported attempts i + if a.trial = i ∧ accepted then 1 else 0 := by
  obtain ⟨before, after, hl, hset⟩ := exists_set ha
  have hreturned : { a with fate := Fate.returned accepted : Attempt ι }.succeeded = accepted := by
    cases accepted <;> rfl
  rw [hset, hl]
  simp [reported, List.countP_cons, hpending, hreturned, Nat.add_assoc]

end Marks

end Attempt

namespace Flight

variable [DecidableEq ι] {client : Client σ} {c₀ c : Flight σ ι}

open Attempt (mark reported sentFor)

theorem run_append (moves rest : List (Move ι)) :
    c.run client (moves ++ rest) = (c.run client moves).run client rest :=
  List.foldl_append

/-- What has become of a call that had sent nothing. -/
structure Follows (c₀ c : Flight σ ι) : Prop where
  earlier : c.earlier.map mark = c₀.earlier.map mark
  chosen : (c.own.map Attempt.trial ++ c.waiting).Subperm c₀.waiting
  trials : ∀ i, c.trials i = if 0 < reported c.own i then (c₀.trials i).released else c₀.trials i
  requests : c.own.map Attempt.request =
    (c.own.map Attempt.trial).map fun i => (c₀.trials i).reportRequest
  sent : c.exchange.sent = c₀.exchange.sent ++ c.own.map Attempt.request

namespace Follows

theorem refl (hown : c.own = []) : Follows c c where
  earlier := rfl
  chosen := by rw [hown]; exact .refl _
  trials i := by rw [hown]; rfl
  requests := by rw [hown]; rfl
  sent := by simp [hown]

theorem reportRequest_eq (h : Follows c₀ c) (i : ι) :
    (c.trials i).reportRequest = (c₀.trials i).reportRequest :=
  Trial.reportRequest_of_eq_ite (h.trials i)

theorem start (h : Follows c₀ c) {i : ι} (hi : i ∈ c.waiting) : Follows c₀ (c.start i) := by
  unfold Flight.start
  dsimp only
  split
  · -- Nothing is sent for the trial.
    exact { h with
      chosen := ((List.Sublist.refl _).append List.erase_sublist).subperm.trans h.chosen }
  · constructor
    · exact h.earlier
    · have hmoved : (c.own.map Attempt.trial ++ [i] ++ c.waiting.erase i).Perm
          (c.own.map Attempt.trial ++ c.waiting) := by
        rw [List.append_assoc]
        exact (List.perm_cons_erase hi).symm.append_left _
      simpa using hmoved.subperm.trans h.chosen
    · intro j
      have hunanswered : reported [Attempt.ofTrial i (c.trials i)] j = 0 := by
        simp [reported]
      rw [Attempt.reported_append, hunanswered, Nat.add_zero]
      exact h.trials j
    · simp [h.requests, h.reportRequest_eq]
    · simp [h.sent]

/-- What has been sent stays as it is while answers come in. -/
theorem congr (h : Follows c₀ c) {c' : Flight σ ι}
    (hearlier : c'.earlier.map mark = c.earlier.map mark)
    (htrial : c'.own.map Attempt.trial = c.own.map Attempt.trial)
    (hrequest : c'.own.map Attempt.request = c.own.map Attempt.request)
    (hwaiting : c'.waiting = c.waiting) (hsent : c'.exchange.sent = c.exchange.sent)
    (htrials : ∀ i, c'.trials i =
      if 0 < reported c'.own i then (c₀.trials i).released else c₀.trials i) : Follows c₀ c' where
  earlier := hearlier.trans h.earlier
  chosen := by rw [htrial, hwaiting]; exact h.chosen
  trials := htrials
  requests := by rw [hrequest, htrial]; exact h.requests
  sent := by rw [hsent, hrequest]; exact h.sent

/-- The service only handles reports. -/
theorem handled (h : Follows c₀ c) {earlier own : List (Attempt ι)}
    (hearlier : earlier.map mark = c.earlier.map mark) (hown : own.map mark = c.own.map mark)
    (state : σ) :
    Follows c₀ { c with earlier, own, exchange := { c.exchange with state } } :=
  h.congr hearlier (Attempt.trials_congr hown) (Attempt.requests_congr hown) rfl rfl
    fun i => by rw [Attempt.reported_congr hown]; exact h.trials i

theorem receive (h : Follows c₀ c) {n : Nat} {a : Attempt ι} (ha : c.own[n]? = some a) :
    Follows c₀ (c.receive n a) := by
  unfold Flight.receive
  split
  · next accepted hfate =>
    have hpending : a.succeeded = false := by simp [Attempt.succeeded, hfate]
    have htrial : (c.own.set n { a with fate := .returned accepted }).map Attempt.trial =
        c.own.map Attempt.trial := map_set_of_eq ha rfl
    have hrequest : (c.own.set n { a with fate := .returned accepted }).map Attempt.request =
        c.own.map Attempt.request := map_set_of_eq ha rfl
    have hreported := Attempt.reported_set ha hpending accepted
    cases accepted with
    | false =>
      refine h.congr rfl htrial hrequest rfl rfl fun i => ?_
      dsimp only
      simpa [hreported] using h.trials i
    | true =>
      refine h.congr rfl htrial hrequest rfl rfl fun i => ?_
      show (if i = a.trial then (c.trials i).released else c.trials i) = _
      by_cases hi : i = a.trial
      · -- However often the trial has been released before.
        rw [if_pos hi, h.trials]
        simp [release, hreported, hi, apply_ite Trial.released, Trial.released_released]
      · simpa [release, hreported, hi, Ne.symm hi] using h.trials i
  · exact h

theorem step (h : Follows c₀ c) (move : Move ι) : Follows c₀ (c.step client move) := by
  cases move with
  | start i =>
    rw [Flight.step]
    split
    · exact h
    · next hguard =>
      simp only [Bool.or_eq_true, Bool.not_eq_true', not_or, Bool.not_eq_false] at hguard
      exact h.start (by simpa using hguard.2)
  | handle n => exact h.handled rfl (Attempt.marks_handleAt client c.own n _) _
  | handleEarlier n => exact h.handled (Attempt.marks_handleAt client c.earlier n _) rfl _
  | receive n =>
    rw [Flight.step]
    split
    · exact h
    · split
      · next a ha => exact h.receive ha
      · exact h

theorem run (h : Follows c₀ c) (moves : List (Move ι)) : Follows c₀ (c.run client moves) := by
  induction moves generalizing c with
  | nil => exact h
  | cons move rest ih => exact ih (h.step move)

/-- Each trial that was chosen is sent at most once. -/
theorem sentFor_le (h : Follows c₀ c) (hdistinct : c₀.waiting.Nodup) (i : ι) :
    sentFor c.own i ≤ if i ∈ c₀.waiting then 1 else 0 :=
  calc sentFor c.own i ≤ (c.own.map Attempt.trial ++ c.waiting).count i := by
        rw [List.count_append]
        exact Nat.le_add_right _ _
    _ ≤ c₀.waiting.count i := h.chosen.count_le i
    _ = if i ∈ c₀.waiting then 1 else 0 := hdistinct.count

end Follows

/-! ### Requests that are answered at once -/

/-- A trial is reported after a number of reports, and its answer comes at once. -/
def promptly (t : Trial) (i : ι) (n : Nat) : List (Move ι) :=
  if t.isSynchronized then [.start i, .handle n, .receive n] else [.start i]

/-- Trials are reported one after another, each answer coming at once. -/
def inOrder (trials : ι → Trial) : List ι → Nat → List (Move ι)
  | [], _ => []
  | i :: rest, n =>
    promptly (trials i) i n ++ inOrder trials rest (n + (trials i).isSynchronized.toNat)

/-- The call has gone on as one report does. -/
structure Reports (c : Flight σ ι) (i : ι) (p : Progress σ Trial Bool) (c' : Flight σ ι) :
    Prop where
  exchange : c'.exchange = p.exchange
  trials : c'.trials = Function.update c.trials i p.records
  length : c'.own.length = c.own.length + (c.trials i).isSynchronized.toNat
  waiting : c'.waiting = c.waiting.erase i
  failed : c'.failed = !p.outcome.isOk

/-- The call has ended as a batch that is reported in order. -/
structure EndsAs (c : Flight σ ι) (chosen : List ι) (p : Progress σ (List Trial) Nat)
    (c' : Flight σ ι) : Prop where
  exchange : c'.exchange = p.exchange
  records : chosen.map c'.trials = p.records
  others : ∀ i, i ∉ chosen → c'.trials i = c.trials i
  failed : c'.failed = !p.outcome.isOk

section Prompt
variable {i : ι} (hfailed : c.failed = false) (hi : i ∈ c.waiting)
include hfailed hi

theorem run_start (hknown : (c.trials i).isSynchronized = false) :
    c.run client [.start i] =
      { c with waiting := c.waiting.erase i, failed := (c.trials i).isPending } := by
  simp [run, step, start, hfailed, hi, hknown]

theorem run_promptly {answer : Outcome Unit} {state : σ}
    (hknown : (c.trials i).isSynchronized = true)
    (hanswer : client.answer (c.trials i).reportRequest c.exchange.state = (answer, state)) :
    c.run client [.start i, .handle c.own.length, .receive c.own.length] =
      let c' := { c with
        own := c.own ++ [{ Attempt.ofTrial i (c.trials i) with fate := .returned answer.isOk }]
        exchange := ⟨state, c.exchange.sent ++ [(c.trials i).reportRequest]⟩
        waiting := c.waiting.erase i }
      if answer.isOk then c'.release i else { c' with failed := true } := by
  have hhandle : (Attempt.ofTrial i (c.trials i)).handle client c.exchange.state =
      ({ Attempt.ofTrial i (c.trials i) with fate := .answered answer.isOk }, state) := by
    show (let p := client.answer (c.trials i).reportRequest c.exchange.state
      ({ Attempt.ofTrial i (c.trials i) with fate := .answered p.1.isOk }, p.2)) = _
    rw [hanswer]
    rfl
  simp [run, step, start, hknown, hfailed, hi, Attempt.handleAt, hhandle, receive]

theorem promptly_reports (client : Client σ) :
    c.Reports i (report client (c.trials i) c.exchange)
      (c.run client (promptly (c.trials i) i c.own.length)) := by
  have hsame : c.trials = Function.update c.trials i (c.trials i) :=
    (Function.update_eq_self i _).symm
  have hends := report_ends client (c.trials i) c.exchange
  generalize report client (c.trials i) c.exchange = p at hends
  cases hends with
  | skipped hknown hpending =>
    rw [promptly, if_neg (by simp [hknown]), run_start hfailed hi hknown]
    exact ⟨rfl, hsame, by simp [hknown], rfl, hpending⟩
  | unaddressed hknown hpending =>
    rw [promptly, if_neg (by simp [hknown]), run_start hfailed hi hknown]
    exact ⟨rfl, hsame, by simp [hknown], rfl, hpending⟩
  | accepted hknown hanswer =>
    rw [promptly, if_pos hknown, run_promptly hfailed hi hknown hanswer]
    refine ⟨rfl, ?_, by rw [hknown]; exact List.length_append, rfl, hfailed⟩
    funext j
    show (if j = i then (c.trials j).released else c.trials j) = _
    rw [Function.update_apply]
    split
    · next h => rw [h]
    · rfl
  | refused hknown hanswer =>
    rw [promptly, if_pos hknown, run_promptly hfailed hi hknown hanswer]
    exact ⟨rfl, hsame, by rw [hknown]; exact List.length_append, rfl, rfl⟩

end Prompt

/-- After a failure the others are not reported. -/
theorem run_inOrder_of_failed (hfailed : c.failed = true) (trials : ι → Trial) (chosen : List ι)
    {n : Nat} (hn : c.own.length ≤ n) : c.run client (inOrder trials chosen n) = c := by
  induction chosen generalizing n with
  | nil => rfl
  | cons i rest ih =>
    have hstart : c.step client (.start i) = c := if_pos (by rw [hfailed, Bool.true_or])
    have hhandle : c.step client (.handle n) = c := by
      simp only [step, Attempt.handleAt, List.getElem?_eq_none hn]
    have hreceive : c.step client (.receive n) = c := if_pos hfailed
    have hfirst : c.run client (promptly (trials i) i n) = c := by
      unfold promptly
      split <;> simp [run, hstart, hhandle, hreceive]
    rw [inOrder, run_append, hfirst]
    exact ih (Nat.le_add_right_of_le hn)

/-- Where each answer comes at once, a batch is reported in order. -/
theorem inOrder_endsAs (client : Client σ) (trials : ι → Trial) {chosen : List ι}
    (htrials : ∀ i ∈ chosen, c.trials i = trials i) (hfailed : c.failed = false)
    (hwaiting : c.waiting = chosen) (hdistinct : chosen.Nodup) :
    c.EndsAs chosen (reportAll client (chosen.map trials) c.exchange)
      (c.run client (inOrder trials chosen c.own.length)) := by
  induction chosen generalizing c with
  | nil => exact ⟨rfl, rfl, fun _ _ => rfl, hfailed⟩
  | cons i rest ih =>
    obtain ⟨hi, hdistinct⟩ := List.nodup_cons.mp hdistinct
    have hfirst := promptly_reports hfailed (hwaiting ▸ List.mem_cons_self) client (i := i)
    rw [inOrder, run_append, List.map_cons, ← htrials i List.mem_cons_self]
    generalize c.run client (promptly (c.trials i) i c.own.length) = c₁ at hfirst ⊢
    rw [← hfirst.length]
    have hothers : ∀ j, j ≠ i → c₁.trials j = c.trials j := fun j hj => by
      rw [hfirst.trials, Function.update_of_ne hj]
    have hbehind : ∀ j ∈ rest, c₁.trials j = trials j := fun j hj =>
      (hothers j (ne_of_mem_of_not_mem hj hi)).trans (htrials j (List.mem_cons_of_mem _ hj))
    have hnext : c₁.trials i = (report client (c.trials i) c.exchange).records := by
      rw [hfirst.trials, Function.update_self]
    rcases hreport : report client (c.trials i) c.exchange with ⟨outcome, next, x⟩
    rw [hreport] at hfirst hnext
    cases outcome with
    | error err =>
      rw [reportAll_of_error hreport, run_inOrder_of_failed hfirst.failed _ _ (Nat.le_refl _)]
      exact {
        exchange := hfirst.exchange
        records := by rw [List.map_cons, hnext, List.map_congr_left hbehind]
        others := fun j hj => hothers j (List.ne_of_not_mem_cons hj)
        failed := hfirst.failed }
    | ok sent =>
      have hwaiting : c₁.waiting = rest := by
        rw [hfirst.waiting, hwaiting, List.erase_cons_head]
      have hrest := ih hbehind hfirst.failed hwaiting hdistinct
      rw [hfirst.exchange] at hrest
      rw [reportAll_of_ok hreport]
      exact {
        exchange := hrest.exchange
        records := by rw [List.map_cons, hrest.others i hi, hnext, hrest.records]
        others := fun j hj => (hrest.others j (List.not_mem_of_not_mem_cons hj)).trans
          (hothers j (List.ne_of_not_mem_cons hj))
        failed := by simpa using hrest.failed }

end Flight

end WorkloadTuning.Synchronization
