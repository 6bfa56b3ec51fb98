import WorkloadTuning.Job.Build
import WorkloadTuning.Proofs.Outcome

/-! The patches recorded for the job of a trial. They are tried in order, each on the job as it is
without any, and the first that leads to a job again is the one that is applied. -/

namespace WorkloadTuning

namespace Job

/-- Merging the data into the document of the job leads to this job. -/
def PatchesTo (job : Job) (data : Json) (patched : Job) : Prop :=
  Record.ofJson ((Record.toJson job).merge data) = .ok patched

/-- No job comes of merging the data into the document of the job. -/
def Refuses (job : Job) (data : Json) : Prop :=
  ∀ patched, ¬ job.PatchesTo data patched

/-- The document of the job with the operations merged into it, one after another. -/
def merged (job : Job) (ops : List PatchOperation) : Json :=
  ops.foldl (fun doc op => doc.merge op.data) (Record.toJson job)

end Job

/-- Merging the operations into the document, one after another, leads to a job each time. -/
def StaysJob (doc : Json) : List PatchOperation → Prop
  | [] => True
  | op :: rest => (∃ patched : Job, Record.ofJson (doc.merge op.data) = .ok patched) ∧
    StaysJob (doc.merge op.data) rest

/-- What becomes of a job with the operations recorded for it. -/
inductive PatchingEnds (job : Job) (ops : List PatchOperation) : BuiltJob → Prop
  | unpatched : ops = [] → PatchingEnds job ops { job }
  | patched {before after : List PatchOperation} {op : PatchOperation} {patched : Job} :
    ops = before ++ op :: after → (∀ earlier ∈ before, job.Refuses earlier.data) →
      job.PatchesTo op.data patched → PatchingEnds job ops { job := patched }
  | refused : ops ≠ [] → (∀ op ∈ ops, job.Refuses op.data) →
    PatchingEnds job ops { job, failure := some .record }

namespace Trial

variable {t : Trial} {job : Job} {ops : List PatchOperation}

theorem patchJob_eq_ok {data : Json} {patched : Job} :
    patchJob job data = .ok patched ↔ job.PatchesTo data patched :=
  mapError_eq_ok

theorem patchJob_of_refuses {data : Json} (h : job.Refuses data) :
    patchJob job data = .error .record := by
  unfold Job.Refuses Job.PatchesTo at h
  unfold patchJob
  generalize (Record.ofJson ((Record.toJson job).merge data) : Decoded Job) = decoded at h
  cases decoded with
  | error e => rfl
  | ok patched => exact absurd rfl (h patched)

theorem firstPatched_of_refuses (h : ∀ op ∈ ops, job.Refuses op.data) (last : Option Error)
    (after : List PatchOperation) :
    firstPatched job last (ops ++ after) =
      firstPatched job (if ops = [] then last else some .record) after := by
  induction ops generalizing last with
  | nil => rfl
  | cons op rest ih =>
    obtain ⟨hfirst, hrest⟩ := List.forall_mem_cons.mp h
    rw [List.cons_append, firstPatched, patchJob_of_refuses hfirst, if_neg (List.cons_ne_nil _ _)]
    exact (ih hrest (some .record)).trans (by rw [ite_self])

open Classical in
/-- Either there is a first operation that leads to a job, or none does. -/
theorem exists_first_or_refuses (job : Job) (ops : List PatchOperation) :
    (∃ before op after patched, ops = before ++ op :: after ∧
      (∀ earlier ∈ before, job.Refuses earlier.data) ∧ job.PatchesTo op.data patched) ∨
    ∀ op ∈ ops, job.Refuses op.data := by
  cases hfound : ops.find? fun op => ∃ patched, job.PatchesTo op.data patched with
  | none =>
    refine .inr fun op hop patched hpatched => ?_
    exact List.find?_eq_none.mp hfound op hop (decide_eq_true ⟨patched, hpatched⟩)
  | some op =>
    obtain ⟨hop, before, after, heq, hbefore⟩ := List.find?_eq_some_iff_append.mp hfound
    obtain ⟨patched, hpatched⟩ := of_decide_eq_true hop
    refine .inl ⟨before, op, after, patched, heq, fun earlier hearlier j hj => ?_, hpatched⟩
    have hnot := hbefore earlier hearlier
    rw [decide_eq_true ⟨j, hj⟩] at hnot
    cases hnot

/-- The first operation that leads to a job is the one that is applied. -/
theorem patchSelf_of_first {before after : List PatchOperation} {op : PatchOperation}
    {patched : Job} (heq : t.jobPatches = before ++ op :: after)
    (hbefore : ∀ earlier ∈ before, job.Refuses earlier.data)
    (hfirst : job.PatchesTo op.data patched) : t.patchSelf job = .ok (some patched) := by
  rw [patchSelf, heq, firstPatched_of_refuses hbefore]
  cases before <;> simp [firstPatched, patchJob_eq_ok.mpr hfirst]

theorem buildJob_of_patchSelf (hjob : t.unpatchedJob = .ok job) {patched : Option Job}
    (hself : t.patchSelf job = .ok patched) : t.buildJob = .ok { job := patched.getD job } := by
  refine bind_eq_ok.mpr ⟨job, hjob, ?_⟩
  rw [hself]
  rfl

/-- Every trial whose job can be made at all gets a job, patched or not. -/
theorem buildJob_ends (hjob : t.unpatchedJob = .ok job) :
    ∃ built, t.buildJob = .ok built ∧ PatchingEnds job t.jobPatches built := by
  have hrefused : ∀ {e}, t.patchSelf job = .error e →
      t.buildJob = .ok { job, failure := some e } := by
    intro e hself
    refine bind_eq_ok.mpr ⟨job, hjob, ?_⟩
    rw [hself]
    rfl
  rcases exists_first_or_refuses job t.jobPatches with
    ⟨before, op, after, patched, heq, hbefore, hfirst⟩ | hall
  · exact ⟨_, buildJob_of_patchSelf hjob (patchSelf_of_first heq hbefore hfirst),
      .patched heq hbefore hfirst⟩
  · by_cases hnone : t.jobPatches = []
    · have hself : t.patchSelf job = .ok none := by rw [patchSelf, hnone, firstPatched]
      exact ⟨_, buildJob_of_patchSelf hjob hself, .unpatched hnone⟩
    · have hself : t.patchSelf job = .error .record := by
        rw [patchSelf, ← List.append_nil t.jobPatches, firstPatched_of_refuses hall, if_neg hnone,
          firstPatched]
      exact ⟨_, hrefused hself, .refused hnone hall⟩

/-- The job comes with the first operation that leads to a job, and with no other. So where the
document stays that of a job all the way, no failure is told and the rest is left out. -/
theorem buildJob_applies_first (hjob : t.unpatchedJob = .ok job) :
    ∃ built, t.buildJob = .ok built ∧ PatchingEnds job t.jobPatches built ∧
      (StaysJob (Record.toJson job) t.jobPatches → built.failure = none ∧
        (t.jobPatches = [] → built.job = job) ∧
        ∀ op rest, t.jobPatches = op :: rest →
          Record.ofJson (job.merged [op]) = .ok built.job) := by
  obtain ⟨built, hbuilt, hends⟩ := buildJob_ends hjob
  refine ⟨built, hbuilt, hends, fun hstays => ?_⟩
  -- The first operation is never refused, as the document stays that of a job.
  have hfirst : ∀ op rest, t.jobPatches = op :: rest → ¬ job.Refuses op.data := by
    intro op rest heq hrefused
    rw [heq] at hstays
    obtain ⟨patched, hpatched⟩ := hstays.1
    exact hrefused patched hpatched
  cases hends with
  | unpatched hnone =>
    refine ⟨rfl, fun _ => rfl, fun op rest heq => ?_⟩
    rw [hnone] at heq
    cases heq
  | @patched before after op patched heq hbefore hpatched =>
    cases before with
    | cons b rest => exact absurd (hbefore b List.mem_cons_self) (hfirst _ _ heq)
    | nil =>
      refine ⟨rfl, fun hnone => ?_, fun first rest hfirst => ?_⟩
      · rw [hnone] at heq
        cases heq
      · obtain ⟨rfl, -⟩ := List.cons.inj (heq.symm.trans hfirst)
        exact hpatched
  | refused hsome hall =>
    obtain ⟨op, rest, heq⟩ := List.exists_cons_of_ne_nil hsome
    exact absurd (hall op (heq ▸ List.mem_cons_self)) (hfirst op rest heq)

/-- A patch for the number of retries. -/
def retries (limit : Json) : Json :=
  .object [("spec", .object [("backoffLimit", limit)])]

/-- A patch for when to restart. -/
def restarts (policy : Json) : Json :=
  .object [("spec", .object [
    ("template", .object [("spec", .object [("restartPolicy", policy)])])])]

def loadContainer : Container :=
  { name := "load", image := "load:1" }

/-- A trial with one container, and with these patches recorded for its job. -/
def patchedTrial (data : List Json) : Trial :=
  let template : JobTemplate :=
    { spec := { template := { spec := { containers := [loadContainer] } } } }
  let job : ObjectReference := { apiVersion := "batch/v1", kind := "Job", name := "bench-001" }
  { metadata := { name := "bench-001" }
    spec := { jobTemplate := some template }
    status := { patchOperations := data.map fun d => { target := job, data := d } } }

/-- A job of such a trial. -/
def loadJob (retries : Int32) (restartPolicy : String) : Job :=
  let metadata := (patchedTrial []).labelled {}
  { metadata := { metadata with name := "bench-001" }
    spec := {
      backoffLimit := some retries
      template := { metadata, spec := { restartPolicy, containers := [loadContainer] } } } }

theorem patchedTrial_unpatchedJob (data : List Json) :
    (patchedTrial data).unpatchedJob = .ok (loadJob 0 "Never") := rfl

/-- A single patch that leads to a job is applied. -/
theorem restarts_applied :
    let t := patchedTrial [restarts (.string "OnFailure")]
    t.unpatchedJob = .ok (loadJob 0 "Never") ∧
      StaysJob (Record.toJson (loadJob 0 "Never")) t.jobPatches ∧
      t.buildJob = .ok { job := loadJob 0 "OnFailure" } := by
  intro t
  have hjob : t.unpatchedJob = .ok (loadJob 0 "Never") := patchedTrial_unpatchedJob _
  have hmerged : Record.ofJson ((loadJob 0 "Never").merged t.jobPatches) =
      .ok (loadJob 0 "OnFailure") := by
    decide +kernel
  have hstays : StaysJob (Record.toJson (loadJob 0 "Never")) t.jobPatches :=
    ⟨⟨_, hmerged⟩, trivial⟩
  refine ⟨hjob, hstays, ?_⟩
  obtain ⟨⟨built, failure⟩, hbuilt, -, hall⟩ := buildJob_applies_first hjob
  obtain ⟨rfl, -, hfirst⟩ := hall hstays
  obtain rfl : built = loadJob 0 "OnFailure" :=
    Except.ok.inj ((hfirst _ [] rfl).symm.trans hmerged)
  exact hbuilt

/-- Of two patches that both lead to a job the second one is lost, and no failure is told. -/
theorem later_patch_lost :
    let t := patchedTrial [retries (.ofInt 2), restarts (.string "OnFailure")]
    t.unpatchedJob = .ok (loadJob 0 "Never") ∧
      StaysJob (Record.toJson (loadJob 0 "Never")) t.jobPatches ∧
      Record.ofJson ((loadJob 0 "Never").merged t.jobPatches) = .ok (loadJob 2 "OnFailure") ∧
      t.buildJob = .ok { job := loadJob 2 "Never" } := by
  intro t
  have hfirst : Record.ofJson ((loadJob 0 "Never").merged (t.jobPatches.take 1)) =
      .ok (loadJob 2 "Never") := by
    decide +kernel
  have hmerged : Record.ofJson ((loadJob 0 "Never").merged t.jobPatches) =
      .ok (loadJob 2 "OnFailure") := by
    decide +kernel
  exact ⟨patchedTrial_unpatchedJob _, ⟨⟨_, hfirst⟩, ⟨_, hmerged⟩, trivial⟩, hmerged,
    by decide +kernel⟩

end Trial

end WorkloadTuning
