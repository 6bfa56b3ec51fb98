import WorkloadTuning.Proofs.Job.Fields
import WorkloadTuning.Proofs.Job.Patching
import WorkloadTuning.Proofs.Timestamp
import WorkloadTuning.Service.Trial

/-! Jobs as documents. A job that was read, and one made for a trial that was read, is read again as
what is written of it, with all that it keeps uninterpreted. So a patch that says nothing leaves the
job of a trial as it is. -/

namespace WorkloadTuning

open Record

/-! ### What can be told apart again -/

/-- No other member has the name of a field, and the time is one that there is. -/
structure Metadata.IsWritable (m : Metadata) : Prop where
  extra : AreUnknown Metadata.fields m.extra
  creationTimestamp : ∀ t ∈ m.creationTimestamp, t.IsProper

def EnvVar.IsWritable (v : EnvVar) : Prop :=
  AreUnknown EnvVar.fields v.extra

structure Container.IsWritable (c : Container) : Prop where
  extra : AreUnknown Container.fields c.extra
  env : ∀ v ∈ c.env, v.IsWritable

structure PodSpec.IsWritable (p : PodSpec) : Prop where
  extra : AreUnknown PodSpec.fields p.extra
  containers : ∀ c ∈ p.containers, c.IsWritable

structure PodTemplate.IsWritable (t : PodTemplate) : Prop where
  metadata : t.metadata.IsWritable
  spec : t.spec.IsWritable

structure JobSpec.IsWritable (s : JobSpec) : Prop where
  extra : AreUnknown JobSpec.fields s.extra
  template : s.template.IsWritable

structure JobTemplate.IsWritable (t : JobTemplate) : Prop where
  metadata : t.metadata.IsWritable
  spec : t.spec.IsWritable

structure Job.IsWritable (job : Job) : Prop where
  metadata : job.metadata.IsWritable
  spec : job.spec.IsWritable

/-- The job starts from a template that can be written. -/
def TrialSpec.IsWritable (s : TrialSpec) : Prop :=
  ∀ template ∈ s.jobTemplate, template.IsWritable

def Trial.IsWritable (t : Trial) : Prop :=
  t.spec.IsWritable

theorem Metadata.isWritable_default : ({} : Metadata).IsWritable :=
  ⟨areUnknown_nil _, by simp⟩

theorem PodSpec.isWritable_default : ({} : PodSpec).IsWritable :=
  ⟨areUnknown_nil _, by simp⟩

theorem PodTemplate.isWritable_default : ({} : PodTemplate).IsWritable :=
  ⟨Metadata.isWritable_default, PodSpec.isWritable_default⟩

theorem JobSpec.isWritable_default : ({} : JobSpec).IsWritable :=
  ⟨areUnknown_nil _, PodTemplate.isWritable_default⟩

theorem TrialSpec.isWritable_default : ({} : TrialSpec).IsWritable := by
  simp [IsWritable]

/-! ### Reading -/

section Reading
variable {json : Json}

theorem Metadata.isWritable_of_ofJson {m : Metadata} (h : ofJson json = .ok m) : m.IsWritable := by
  obtain ⟨members, -, hreads⟩ := reads_of_readOpen h
  exact ⟨isOpen.areUnknown_of_reads rfl hreads,
    creationTimestamp_isField.forall_of_reads
      (forall_mem_option_of_ofJson Timestamp.isProper_of_ofJson) (by simp) hreads⟩

theorem EnvVar.isWritable_of_ofJson {v : EnvVar} (h : ofJson json = .ok v) : v.IsWritable := by
  obtain ⟨members, -, hreads⟩ := reads_of_readOpen h
  exact isOpen.areUnknown_of_reads rfl hreads

theorem Container.isWritable_of_ofJson {c : Container} (h : ofJson json = .ok c) :
    c.IsWritable := by
  obtain ⟨members, -, hreads⟩ := reads_of_readOpen h
  exact ⟨isOpen.areUnknown_of_reads rfl hreads,
    env_isField.forall_of_reads (forall_mem_of_ofJson EnvVar.isWritable_of_ofJson) (by simp) hreads⟩

theorem PodSpec.isWritable_of_ofJson {p : PodSpec} (h : ofJson json = .ok p) : p.IsWritable := by
  obtain ⟨members, -, hreads⟩ := reads_of_readOpen h
  exact ⟨isOpen.areUnknown_of_reads rfl hreads,
    containers_isField.forall_of_reads (forall_mem_of_ofJson Container.isWritable_of_ofJson)
      (by simp) hreads⟩

theorem PodTemplate.isWritable_of_ofJson {t : PodTemplate} (h : ofJson json = .ok t) :
    t.IsWritable := by
  obtain ⟨members, hreads⟩ := exists_reads_of_read h
  exact ⟨metadata_isField.forall_of_reads Metadata.isWritable_of_ofJson
      Metadata.isWritable_default hreads,
    spec_isField.forall_of_reads PodSpec.isWritable_of_ofJson PodSpec.isWritable_default hreads⟩

theorem JobSpec.isWritable_of_ofJson {s : JobSpec} (h : ofJson json = .ok s) : s.IsWritable := by
  obtain ⟨members, -, hreads⟩ := reads_of_readOpen h
  exact ⟨isOpen.areUnknown_of_reads rfl hreads,
    template_isField.forall_of_reads PodTemplate.isWritable_of_ofJson
      PodTemplate.isWritable_default hreads⟩

theorem JobTemplate.isWritable_of_ofJson {t : JobTemplate} (h : ofJson json = .ok t) :
    t.IsWritable := by
  obtain ⟨members, hreads⟩ := exists_reads_of_read h
  exact ⟨metadata_isField.forall_of_reads Metadata.isWritable_of_ofJson
      Metadata.isWritable_default hreads,
    spec_isField.forall_of_reads JobSpec.isWritable_of_ofJson JobSpec.isWritable_default hreads⟩

theorem Job.isWritable_of_ofJson {job : Job} (h : ofJson json = .ok job) : job.IsWritable := by
  obtain ⟨members, hreads⟩ := exists_reads_of_read h
  exact ⟨metadata_isField.forall_of_reads Metadata.isWritable_of_ofJson
      Metadata.isWritable_default hreads,
    spec_isField.forall_of_reads JobSpec.isWritable_of_ofJson JobSpec.isWritable_default hreads⟩

theorem TrialSpec.isWritable_of_ofJson {s : TrialSpec} (h : ofJson json = .ok s) :
    s.IsWritable := by
  obtain ⟨members, hreads⟩ := exists_reads_of_read h
  exact jobTemplate_isField.forall_of_reads
    (forall_mem_option_of_ofJson JobTemplate.isWritable_of_ofJson) (by simp) hreads

theorem Trial.isWritable_of_ofJson {t : Trial} (h : ofJson json = .ok t) : t.IsWritable := by
  obtain ⟨members, hreads⟩ := exists_reads_of_read h
  exact spec_isField.forall_of_reads TrialSpec.isWritable_of_ofJson TrialSpec.isWritable_default
    hreads

theorem TrialTemplate.isWritable_of_ofJson {t : TrialTemplate} (h : ofJson json = .ok t) :
    t.spec.IsWritable := by
  obtain ⟨members, hreads⟩ := exists_reads_of_read h
  exact spec_isField.forall_of_reads TrialSpec.isWritable_of_ofJson TrialSpec.isWritable_default
    hreads

theorem ExperimentSpec.isWritable_of_ofJson {s : ExperimentSpec} (h : ofJson json = .ok s) :
    s.trialTemplate.spec.IsWritable := by
  obtain ⟨members, hreads⟩ := exists_reads_of_read h
  exact trialTemplate_isField.forall_of_reads TrialTemplate.isWritable_of_ofJson
    TrialSpec.isWritable_default hreads

theorem Experiment.isWritable_of_ofJson {e : Experiment} (h : ofJson json = .ok e) :
    e.spec.trialTemplate.spec.IsWritable := by
  obtain ⟨members, hreads⟩ := exists_reads_of_read h
  exact spec_isField.forall_of_reads ExperimentSpec.isWritable_of_ofJson
    TrialSpec.isWritable_default hreads

/-- The trials that are made of an experiment have its template. -/
theorem Trial.isWritable_of_experiment {e : Experiment} (h : ofJson json = .ok e)
    (suggestion : Service.Suggestion) : (e.newTrial.accept suggestion).IsWritable :=
  Experiment.isWritable_of_ofJson h

end Reading

/-! ### Writing -/

theorem Metadata.IsWritable.roundTrips {m : Metadata} (h : m.IsWritable) : RoundTrips m := by
  have hname : Reads take (textMember "name" m.name) {} _ :=
    reads_textField (fun name => ({ name } : Metadata)) (fun _ => rfl) rfl
  have hgenerateName : Reads take (textMember "generateName" m.generateName) _ _ :=
    reads_textField (fun generateName => ({ name := m.name, generateName } : Metadata))
      (fun _ => rfl) rfl
  have hnamespace : Reads take (textMember "namespace" m.namespaceName) _ _ :=
    reads_textField (fun namespaceName =>
      ({ name := m.name, generateName := m.generateName, namespaceName } : Metadata))
      (fun _ => rfl) rfl
  have hlabels : Reads take (dictMember "labels" m.labels) _ _ :=
    reads_dictField (fun labels =>
      ({ name := m.name, generateName := m.generateName, namespaceName := m.namespaceName,
         labels } : Metadata)) (fun _ => rfl) (textDict_roundTrips m.labels) rfl
  have hannotations : Reads take (dictMember "annotations" m.annotations) _ _ :=
    reads_dictField (fun annotations =>
      ({ m with annotations, finalizers := [], creationTimestamp := none, extra := [] } : Metadata))
      (fun _ => rfl) (textDict_roundTrips m.annotations) rfl
  have hfinalizers : Reads take (listMember "finalizers" m.finalizers) _ _ :=
    reads_listField (fun finalizers =>
      ({ m with finalizers, creationTimestamp := none, extra := [] } : Metadata))
      (fun _ => rfl) (texts_roundTrip m.finalizers) rfl
  have htimestamp : Reads take (optionMember "creationTimestamp" m.creationTimestamp) _ _ :=
    reads_optionField (fun creationTimestamp =>
      ({ m with creationTimestamp, extra := [] } : Metadata))
      (fun _ => rfl) (Timestamp.option_roundTrips h.creationTimestamp) rfl
  have hextra : Reads take m.extra { m with extra := [] } m := isOpen.reads h.extra _
  exact readMembers_eq_ok (((((((hname.append hgenerateName).append hnamespace).append
    hlabels).append hannotations).append hfinalizers).append htimestamp).append hextra) (by simp)

theorem EnvVar.IsWritable.roundTrips {v : EnvVar} (h : v.IsWritable) : RoundTrips v := by
  have hname : Reads take (member "name" v.name) {} _ :=
    reads_field (fun name => ({ name } : EnvVar)) (fun _ => rfl) (string_roundTrips v.name)
  have hvalue : Reads take (textMember "value" v.value) _ _ :=
    reads_textField (fun value => ({ name := v.name, value } : EnvVar)) (fun _ => rfl) rfl
  have hextra : Reads take v.extra { v with extra := [] } v := isOpen.reads h _
  exact readMembers_eq_ok ((hname.append hvalue).append hextra) (by simp [member, Members.get?])

theorem Container.IsWritable.roundTrips {c : Container} (h : c.IsWritable) : RoundTrips c := by
  have hname : Reads take (member "name" c.name) {} _ :=
    reads_field (fun name => ({ name } : Container)) (fun _ => rfl) (string_roundTrips c.name)
  have himage : Reads take (textMember "image" c.image) _ _ :=
    reads_textField (fun image => ({ name := c.name, image } : Container)) (fun _ => rfl) rfl
  have hcommand : Reads take (listMember "command" c.command) _ _ :=
    reads_listField (fun command => ({ name := c.name, image := c.image, command } : Container))
      (fun _ => rfl) (texts_roundTrip c.command) rfl
  have hargs : Reads take (listMember "args" c.args) _ _ :=
    reads_listField (fun args => ({ c with args, env := [], extra := [] } : Container))
      (fun _ => rfl) (texts_roundTrip c.args) rfl
  have henv : Reads take (listMember "env" c.env) _ _ :=
    reads_listField (fun env => ({ c with env, extra := [] } : Container)) (fun _ => rfl)
      (list_roundTrips fun v hv => (h.env v hv).roundTrips) rfl
  have hextra : Reads take c.extra { c with extra := [] } c := isOpen.reads h.extra _
  exact readMembers_eq_ok (((((hname.append himage).append hcommand).append hargs).append
    henv).append hextra) (by simp [member, Members.get?])

theorem PodSpec.IsWritable.roundTrips {p : PodSpec} (h : p.IsWritable) : RoundTrips p := by
  have hrestart : Reads take (textMember "restartPolicy" p.restartPolicy) {} _ :=
    reads_textField (fun restartPolicy => ({ restartPolicy } : PodSpec)) (fun _ => rfl) rfl
  have hcontainers : Reads take (member "containers" p.containers)
      { restartPolicy := p.restartPolicy } { p with extra := [] } :=
    reads_field (fun containers => { p with containers, extra := [] }) (fun _ => rfl)
      (list_roundTrips fun c hc => (h.containers c hc).roundTrips)
  have hextra : Reads take p.extra { p with extra := [] } p := isOpen.reads h.extra _
  exact readMembers_eq_ok ((hrestart.append hcontainers).append hextra) (by simp)

theorem PodTemplate.IsWritable.roundTrips {t : PodTemplate} (h : t.IsWritable) :
    RoundTrips t := by
  have hmetadata : Reads take (member "metadata" t.metadata) {} _ :=
    reads_field (fun metadata => ({ metadata } : PodTemplate)) (fun _ => rfl)
      h.metadata.roundTrips
  have hspec : Reads take (member "spec" t.spec) { metadata := t.metadata } t :=
    reads_field (fun spec => { t with spec }) (fun _ => rfl) h.spec.roundTrips
  exact readMembers_eq_ok (hmetadata.append hspec) (by simp)

theorem JobSpec.IsWritable.roundTrips {s : JobSpec} (h : s.IsWritable) : RoundTrips s := by
  have hlimit : Reads take (optionMember "backoffLimit" s.backoffLimit) {} _ :=
    reads_optionField (fun backoffLimit => ({ backoffLimit } : JobSpec)) (fun _ => rfl)
      (option_roundTrips (fun _ _ => Json.noConfusion) fun i _ => int32_roundTrips i) rfl
  have htemplate : Reads take (member "template" s.template)
      { backoffLimit := s.backoffLimit } { s with extra := [] } :=
    reads_field (fun template => { s with template, extra := [] }) (fun _ => rfl)
      h.template.roundTrips
  have hextra : Reads take s.extra { s with extra := [] } s := isOpen.reads h.extra _
  exact readMembers_eq_ok ((hlimit.append htemplate).append hextra) (by simp)

theorem Job.IsWritable.roundTrips {job : Job} (h : job.IsWritable) : RoundTrips job := by
  have hversion : Reads take (member "apiVersion" job.apiVersion) {} _ :=
    reads_field (fun apiVersion => ({ apiVersion } : Job)) (fun _ => rfl)
      (string_roundTrips job.apiVersion)
  have hkind : Reads take (member "kind" job.kind) { apiVersion := job.apiVersion }
      { job with metadata := {}, spec := {} } :=
    reads_field (fun kind => ({ apiVersion := job.apiVersion, kind } : Job)) (fun _ => rfl)
      (string_roundTrips job.kind)
  have hmetadata : Reads take (member "metadata" job.metadata)
      { job with metadata := {}, spec := {} } { job with spec := {} } :=
    reads_field (fun metadata => { job with metadata, spec := {} }) (fun _ => rfl)
      h.metadata.roundTrips
  have hspec : Reads take (member "spec" job.spec) { job with spec := {} } job :=
    reads_field (fun spec => { job with spec }) (fun _ => rfl) h.spec.roundTrips
  exact readMembers_eq_ok (((hversion.append hkind).append hmetadata).append hspec)
    (by simp [member, Members.get?])

/-! ### The job of a trial -/

namespace Trial

variable {t : Trial} {job : Job}

theorem labelled_isWritable (t : Trial) {m : Metadata} (h : m.IsWritable) :
    (t.labelled m).IsWritable :=
  ⟨h.extra, h.creationTimestamp⟩

theorem jobMetadata_isWritable (t : Trial) {m : Metadata} (h : m.IsWritable) :
    (t.jobMetadata m).IsWritable :=
  ⟨h.extra, h.creationTimestamp⟩

/-- What the job starts from can be written, also where the trial has no template. -/
theorem IsWritable.jobTemplate (h : t.IsWritable) : t.jobTemplate.IsWritable := by
  unfold Trial.jobTemplate
  cases htemplate : t.spec.jobTemplate with
  | some template => exact h template htemplate
  | none =>
    have hlabelled : (({} : Metadata).addLabel Vocabulary.experimentLabel
        t.experimentName).IsWritable := ⟨areUnknown_nil _, by simp [Metadata.addLabel]⟩
    exact ⟨hlabelled, areUnknown_nil _, hlabelled, PodSpec.isWritable_default⟩

theorem assignmentEnv_isWritable (t : Trial) : ∀ v ∈ t.assignmentEnv, v.IsWritable := by
  intro v hv
  obtain ⟨a, -, rfl⟩ := List.mem_map.mp hv
  exact areUnknown_nil _

theorem jobContainers_isWritable {given containers : List Container}
    (hgiven : ∀ c ∈ given, c.IsWritable) (h : t.jobContainers given = .ok containers) :
    ∀ c ∈ containers, c.IsWritable := by
  unfold jobContainers at h
  split at h
  · split at h
    · obtain rfl := Except.ok.inj h
      rintro c hc
      obtain rfl := List.mem_singleton.mp hc
      exact ⟨areUnknown_nil _, by simp [defaultContainer]⟩
    · cases h
  · obtain rfl := Except.ok.inj h
    rintro c hc
    obtain ⟨old, hold, rfl⟩ := List.mem_map.mp hc
    refine ⟨(hgiven old hold).extra, fun v hv => ?_⟩
    rcases List.mem_append.mp hv with hv | hv
    · exact (hgiven old hold).env v hv
    · exact t.assignmentEnv_isWritable v hv

theorem podSpec_isWritable {given spec : PodSpec} (hgiven : given.IsWritable)
    (h : t.podSpec given = .ok spec) : spec.IsWritable := by
  obtain ⟨containers, hcontainers, hspec⟩ := bind_eq_ok.mp h
  obtain rfl := Except.ok.inj hspec
  exact ⟨hgiven.extra, jobContainers_isWritable hgiven.containers hcontainers⟩

theorem unpatchedJob_isWritable (ht : t.IsWritable) (h : t.unpatchedJob = .ok job) :
    job.IsWritable := by
  obtain ⟨spec, hspec, hjob⟩ := bind_eq_ok.mp h
  obtain rfl := Except.ok.inj hjob
  have htemplate := ht.jobTemplate
  have hpod := podSpec_isWritable htemplate.spec.template.spec hspec
  exact ⟨t.jobMetadata_isWritable htemplate.metadata, htemplate.spec.extra,
    t.labelled_isWritable htemplate.spec.template.metadata, hpod⟩

end Trial

/-- The job is read again as it is: of its document, of its text if that shows its numbers, and of
its document with a patch that says nothing. -/
structure Job.ReadsBack (job : Job) : Prop where
  document : RoundTrips job
  text : (toJson job).IsReadable → ofText (toText job) = .ok job
  patched : job.PatchesTo (.object []) job

theorem Job.IsWritable.readsBack {job : Job} (h : job.IsWritable) : job.ReadsBack where
  document := h.roundTrips
  text hreadable := (ofText_toText hreadable).trans h.roundTrips
  patched := h.roundTrips

/-- Where no operation before it leads to a job, one that says nothing leaves the job as it is. -/
theorem Trial.buildJob_of_empty {t : Trial} {job : Job} (hjob : t.unpatchedJob = .ok job)
    (hreads : job.ReadsBack) {before after : List PatchOperation} {op : PatchOperation}
    (heq : t.jobPatches = before ++ op :: after) (hbefore : ∀ e ∈ before, job.Refuses e.data)
    (hempty : op.data = .object []) :
    t.patchSelf job = .ok (some job) ∧ t.buildJob = .ok { job } := by
  have hself : t.patchSelf job = .ok (some job) :=
    patchSelf_of_first heq hbefore (hempty ▸ hreads.patched)
  exact ⟨hself, buildJob_of_patchSelf hjob hself⟩

/-! ### What documents keep -/

/-- Jobs that were read, and those made for trials that were read, are read again as they are, with
all that they keep uninterpreted. So a patch that says nothing leaves the job of a trial as it is. -/
theorem jobs_read_back :
    (∀ {json : Json} {job : Job}, ofJson json = .ok job → job.ReadsBack) ∧
    (∀ {json : Json} {t : Trial} {job : Job}, ofJson json = .ok t → t.unpatchedJob = .ok job →
      job.ReadsBack ∧
      ∀ {before op after}, t.jobPatches = before ++ op :: after →
        (∀ earlier ∈ before, job.Refuses earlier.data) → op.data = .object [] →
        t.patchSelf job = .ok (some job) ∧ t.buildJob = .ok { job }) ∧
    KeepsUnknown Metadata Metadata.fields ∧ KeepsUnknown JobSpec JobSpec.fields ∧
    KeepsUnknown PodSpec PodSpec.fields ∧ KeepsUnknown Container Container.fields ∧
    KeepsUnknown EnvVar EnvVar.fields := by
  refine ⟨fun h => (Job.isWritable_of_ofJson h).readsBack, fun ht hjob => ?_, ?_, ?_, ?_, ?_, ?_⟩
  · have hreads := (Trial.unpatchedJob_isWritable (Trial.isWritable_of_ofJson ht) hjob).readsBack
    exact ⟨hreads, Trial.buildJob_of_empty hjob hreads⟩
  · exact Metadata.isOpen.keepsUnknown Metadata.isReadWith (fun _ => ⟨_, rfl⟩)
      fun h => (Metadata.isWritable_of_ofJson h).roundTrips
  · exact JobSpec.isOpen.keepsUnknown JobSpec.isReadWith (fun _ => ⟨_, rfl⟩)
      fun h => (JobSpec.isWritable_of_ofJson h).roundTrips
  · exact PodSpec.isOpen.keepsUnknown PodSpec.isReadWith (fun _ => ⟨_, rfl⟩)
      fun h => (PodSpec.isWritable_of_ofJson h).roundTrips
  · exact Container.isOpen.keepsUnknown Container.isReadWith (fun _ => ⟨_, rfl⟩)
      fun h => (Container.isWritable_of_ofJson h).roundTrips
  · exact EnvVar.isOpen.keepsUnknown EnvVar.isReadWith (fun _ => ⟨_, rfl⟩)
      fun h => (EnvVar.isWritable_of_ofJson h).roundTrips

/-- The members of a job in which every record that keeps other members has one, before its
fields. -/
def openMembers : Members := [
  ("metadata", .object [("uid", .null), ("name", .string "load")]),
  ("spec", .object [
    ("completions", .ofInt 2),
    ("template", .object [("spec", .object [
      ("nodeSelector", .null),
      ("containers", .array [.object [
        ("tty", .bool true),
        ("name", .string "load"),
        ("env", .array [.object [("valueFrom", .null), ("name", .string "LEVEL")]])]])])])])]

def openJob : Job :=
  let env : EnvVar := { name := "LEVEL", extra := [("valueFrom", .null)] }
  let container : Container := { name := "load", env := [env], extra := [("tty", .bool true)] }
  let pod : PodSpec := { containers := [container], extra := [("nodeSelector", .null)] }
  { metadata := { name := "load", extra := [("uid", .null)] }
    spec := { template := { spec := pod }, extra := [("completions", .ofInt 2)] } }

/-- A trial with this job and a patch that says nothing. -/
def openTrial : Trial :=
  { metadata := { name := "bench-001" }
    spec := { jobTemplate := some { metadata := openJob.metadata, spec := openJob.spec } }
    status := { patchOperations := [
      { target := { kind := "Job", name := "load" }, data := .object [] }] } }

theorem openJob_reads_back :
    ofJson (.object ([("apiVersion", .string "batch/v1"), ("kind", .string "Job")] ++
      openMembers)) = .ok openJob ∧ openJob.ReadsBack ∧
    ofJson (toJson openTrial) = .ok openTrial ∧
    ∃ job, openTrial.unpatchedJob = .ok job ∧ job.ReadsBack ∧ openTrial.buildJob = .ok { job } := by
  have hjob : ofJson (.object ([("apiVersion", .string "batch/v1"), ("kind", .string "Job")] ++
      openMembers)) = .ok openJob := by
    decide +kernel
  have htrial : ofJson (toJson openTrial) = .ok openTrial := by decide +kernel
  have hbuilt : openTrial.unpatchedJob = .ok _ := rfl
  obtain ⟨hreads, hempty⟩ := jobs_read_back.2.1 htrial hbuilt
  obtain ⟨-, hbuild⟩ := @hempty [] _ [] rfl (by simp) rfl
  exact ⟨hjob, jobs_read_back.1 hjob, htrial, _, hbuilt, hreads, hbuild⟩

end WorkloadTuning
