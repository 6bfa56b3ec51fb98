import WorkloadTuning.Patch.Rendering
import WorkloadTuning.Proofs.Job.Documents
import WorkloadTuning.Proofs.Job.Runnable
import WorkloadTuning.Proofs.Resource.Identity
import WorkloadTuning.Service.Trial

/-! The identity of the job of a trial. It is told three times, by the reference that templates
without a target get, by the references that count as the job's, and by the job itself, each with
its own way around fields that are left empty. All three tell the same. -/

namespace WorkloadTuning

open Record

/-! ### Jobs as resources -/

theorem Metadata.IsWritable.textAt_name {m : Metadata} (h : m.IsWritable) :
    Resource.textAt (toJson m) ["name"] = m.name := by
  have hextra : m.extra.get? "name" = none := h.extra.get?_eq_none (by decide)
  simp only [toJson, List.append_assoc]
  refine Resource.textAt_textMember "name" m.name ?_
  simp only [textMember, dictMember, listMember, optionMember]
  rw [get?_memberUnless (by decide), get?_memberUnless (by decide), get?_memberUnless (by decide),
    get?_memberUnless (by decide), get?_memberUnless (by decide), get?_memberUnless (by decide),
    hextra]

theorem Metadata.IsWritable.textAt_namespace {m : Metadata} (h : m.IsWritable) :
    Resource.textAt (toJson m) ["namespace"] = m.namespaceName := by
  have hextra : m.extra.get? "namespace" = none := h.extra.get?_eq_none (by decide)
  simp only [toJson, List.append_assoc]
  rw [textMember, Resource.textAt_memberUnless (by decide), textMember,
    Resource.textAt_memberUnless (by decide)]
  refine Resource.textAt_textMember "namespace" m.namespaceName ?_
  simp only [dictMember, listMember, optionMember]
  rw [get?_memberUnless (by decide), get?_memberUnless (by decide), get?_memberUnless (by decide),
    get?_memberUnless (by decide), hextra]

theorem Job.identityOf_toJson {job : Job} (h : job.metadata.IsWritable) :
    Resource.identityOf (toJson job) =
      { apiVersion := job.apiVersion, kind := job.kind,
        namespaceName := job.metadata.namespaceName, name := job.metadata.name } := by
  have hmetadata : (toJson job).get? "metadata" = some (toJson job.metadata) := rfl
  rw [Resource.identityOf, Resource.textAt_cons hmetadata, Resource.textAt_cons hmetadata,
    h.textAt_name, h.textAt_namespace]
  rfl

namespace Trial

variable {t : Trial} {job : Job} {r : ObjectReference}

/-! ### The job of a trial -/

/-- The name that is filled in is the one that the reference tells. -/
theorem jobMetadata_name (t : Trial) : (t.jobMetadata t.jobTemplate.metadata).name = t.jobName := by
  unfold jobTemplate jobName
  cases t.spec.jobTemplate <;> rfl

theorem identityOf_unpatchedJob (ht : t.IsWritable) (h : t.unpatchedJob = .ok job) :
    Resource.identityOf (toJson job) = t.jobReference := by
  rw [Job.identityOf_toJson (unpatchedJob_isWritable ht h).metadata]
  obtain ⟨spec, -, hjob⟩ := bind_eq_ok.mp h
  obtain rfl := Except.ok.inj hjob
  rw [jobReference, ← t.jobMetadata_name]
  rfl

theorem namedLikeTrial_iff (hname : t.name ≠ "") :
    isJobReference.namedLikeTrial t r = true ↔ r.name = t.name := by
  simp only [isJobReference.namedLikeTrial, Bool.and_eq_true, Bool.not_eq_true',
    String.isEmpty_eq_false_iff, beq_iff_eq]
  exact ⟨And.right, fun heq => ⟨heq ▸ hname, heq⟩⟩

/-- The references that count as the job's are those to its kind and name which leave the namespace
and the version open or tell them as they are. -/
theorem isJobReference_iff (hname : t.jobName ≠ "") :
    t.isJobReference r = true ↔ r.kind = t.jobReference.kind ∧ r.name = t.jobReference.name ∧
      (r.namespaceName = "" ∨ r.namespaceName = t.jobReference.namespaceName) ∧
      (r.apiVersion = "" ∨ r.apiVersion = t.jobReference.apiVersion) := by
  -- The name decides as the template has one or not, the other fields as they are.
  have hparts (named : Bool) : (r.kind == "Job" &&
      (r.apiVersion.isEmpty || r.apiVersion == "batch/v1") &&
      (r.namespaceName.isEmpty || r.namespaceName == t.metadata.namespaceName) && named) = true ↔
      r.kind = "Job" ∧ named = true ∧
        (r.namespaceName = "" ∨ r.namespaceName = t.metadata.namespaceName) ∧
        (r.apiVersion = "" ∨ r.apiVersion = "batch/v1") := by
    simp only [Bool.and_eq_true, Bool.or_eq_true, beq_iff_eq, String.isEmpty_iff]
    tauto
  unfold jobName at hname
  unfold isJobReference jobReference jobName
  rw [hparts]
  cases htemplate : t.spec.jobTemplate with
  | none =>
    rw [htemplate] at hname
    rw [namedLikeTrial_iff hname]
  | some template =>
    rw [htemplate] at hname
    cases hown : template.metadata.name.isEmpty with
    | true =>
      simp only [hown, if_true] at hname ⊢
      rw [namedLikeTrial_iff hname]
    | false =>
      simp only [hown, Bool.false_eq_true, if_false, beq_iff_eq]
      rw [eq_comm (b := r.name)]

/-! ### Patches for the job -/

/-- Whether or not a job comes of them, operations for the job are not passed over. -/
theorem patchSelf_ne_none (h : t.jobPatches ≠ []) (job : Job) : t.patchSelf job ≠ .ok none := by
  have hfailed (e : Error) (ops : List PatchOperation) :
      firstPatched job (some e) ops ≠ .ok none := by
    induction ops generalizing e with
    | nil => simp [firstPatched]
    | cons op rest ih =>
      unfold firstPatched
      split
      · simp
      · exact ih _
  obtain ⟨op, rest, heq⟩ := List.exists_cons_of_ne_nil h
  unfold patchSelf
  rw [heq, firstPatched]
  split
  · simp
  · exact hfailed _ rest

/-- What is rendered without a target for one trial targets its job in whatever state. -/
theorem mem_jobPatches_of_render {template : PatchTemplate} {bindings : Bindings}
    {op : PatchOperation} (hself : t.isJobReference t.jobReference = true)
    (hkind : template.kind = .strategic) (htarget : template.target = none)
    (hop : template.render bindings t = .ok op) {status : TrialStatus}
    (hrecorded : op ∈ status.patchOperations) : op ∈ { t with status }.jobPatches := by
  obtain ⟨data, -, hdata⟩ := bind_eq_ok.mp hop
  obtain rfl := Except.ok.inj hdata
  refine List.mem_filter.mpr ⟨hrecorded, ?_⟩
  rw [htarget, hkind]
  exact hself

/-- All agree on the identity of the job, so what a template without a target says about the job of
a trial is not passed over when that job is made. -/
theorem jobReference_agrees (hname : t.jobName ≠ "") :
    t.isJobReference t.jobReference = true ∧
    (∀ r, t.isJobReference r = true ↔ r.kind = "Job" ∧ r.name = t.jobName ∧
      (r.namespaceName = "" ∨ r.namespaceName = t.jobReference.namespaceName) ∧
      (r.apiVersion = "" ∨ r.apiVersion = t.jobReference.apiVersion)) ∧
    (t.IsWritable →
      (t.jobTemplate.spec.template.spec.containers = [] ∧ t.runtime? = none) ∨
      ∃ job r, t.unpatchedJob = .ok job ∧ Resource.ofTree (toJson job) = .ok r ∧
        r.target = t.jobReference) ∧
    (∀ {json : Json}, ofJson json = .ok t → t.IsWritable) ∧
    (∀ {json : Json} {e : Experiment} (suggestion : Service.Suggestion), ofJson json = .ok e →
      t = e.newTrial.accept suggestion → t.IsWritable) ∧
    ∀ {template : PatchTemplate} {bindings : Bindings} {op : PatchOperation} {status : TrialStatus},
      template.kind = .strategic → template.target = none →
      template.render bindings t = .ok op → op ∈ status.patchOperations →
      op ∈ { t with status }.jobPatches ∧ ∀ job, { t with status }.patchSelf job ≠ .ok none := by
  have hself : t.isJobReference t.jobReference = true :=
    (isJobReference_iff hname).mpr ⟨rfl, rfl, .inr rfl, .inr rfl⟩
  refine ⟨hself, fun r => isJobReference_iff hname, fun ht => ?_, isWritable_of_ofJson,
    fun suggestion he heq => heq ▸ isWritable_of_experiment he suggestion,
    fun hkind htarget hop hrecorded => ?_⟩
  · rcases t.unpatchedJob_ends with ⟨hnone, hruntime, -⟩ | ⟨job, hjob, -⟩
    · exact .inl ⟨hnone, hruntime⟩
    · have hresource := Resource.ofTree_of_identityOf (identityOf_unpatchedJob ht hjob)
        (by simp [jobReference]) hname
      exact .inr ⟨job, _, hjob, hresource, rfl⟩
  · have hmem := mem_jobPatches_of_render hself hkind htarget hop hrecorded
    exact ⟨hmem, patchSelf_ne_none (List.ne_nil_of_mem hmem)⟩

/-- A trial whose template names the job, with a namespace of its own that the job does not get. -/
def placedTrial : Trial :=
  { metadata := { name := "bench-001", namespaceName := "prod" }
    spec := { jobTemplate := some { metadata := { name := "load", namespaceName := "dev" } } } }

/-- A template for the job, and what becomes of it. -/
def retriesTemplate : PatchTemplate :=
  { patch := retries (.ofInt 2) }

def retriesOperation : PatchOperation :=
  { target := { apiVersion := "batch/v1", kind := "Job", namespaceName := "prod", name := "load" }
    data := retries (.ofInt 2) }

theorem placedTrial_agrees :
    let patched := { placedTrial with status := { patchOperations := [retriesOperation] } }
    ofJson (toJson placedTrial) = .ok placedTrial ∧
      retriesTemplate.render Dict.empty placedTrial = .ok retriesOperation ∧
      placedTrial.isJobReference { kind := "Job", name := "load" } = true ∧
      placedTrial.isJobReference { kind := "Job", namespaceName := "dev", name := "load" } = false ∧
      (∃ job r, placedTrial.unpatchedJob = .ok job ∧ Resource.ofTree (toJson job) = .ok r ∧
        r.target = placedTrial.jobReference) ∧
      patched.jobPatches = [retriesOperation] ∧ ∀ job, patched.patchSelf job ≠ .ok none := by
  intro patched
  have hname : placedTrial.jobName ≠ "" := by decide
  have hread : ofJson (toJson placedTrial) = .ok placedTrial := by decide +kernel
  have hrendered : retriesTemplate.render Dict.empty placedTrial = .ok retriesOperation := by
    decide +kernel
  obtain ⟨-, haccepts, hjob, hwritable, -, hpatches⟩ := jobReference_agrees hname
  refine ⟨hread, hrendered, (haccepts _).mpr ⟨rfl, rfl, .inl rfl, .inl rfl⟩, by decide, ?_,
    by decide, ?_⟩
  · exact (hjob (hwritable hread)).resolve_left fun h => absurd h.2 (by decide)
  · exact (hpatches rfl rfl hrendered (List.mem_singleton_self _)).2

end Trial

end WorkloadTuning
