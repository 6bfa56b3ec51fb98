import WorkloadTuning.Experiment.Basic
import WorkloadTuning.Proofs.Json.OpenRecords

/-! The fields of jobs and of the records they are made of, each read from the member of its name.
Metadata, the specs of jobs and pods, containers and variables keep what else they hold. -/

namespace WorkloadTuning

open Record

/-! ### Fields that are kept apart from all else -/

def Metadata.fields : List String :=
  ["name", "generateName", "namespace", "labels", "annotations", "finalizers", "creationTimestamp"]

theorem Metadata.isOpen :
    IsOpen Metadata.take Metadata.fields Metadata.extra fun r extra => { r with extra } where
  known hkey h := by
    unfold Metadata.take at h
    split at h
    · exact other_of_take h fun _ => rfl
    · exact other_of_take h fun _ => rfl
    · exact other_of_take h fun _ => rfl
    · exact other_of_take h fun _ => rfl
    · exact other_of_take h fun _ => rfl
    · exact other_of_take h fun _ => rfl
    · exact other_of_take h fun _ => rfl
    · simp_all [Metadata.fields]
  other r value hkey := by
    unfold Metadata.take
    split
    all_goals first | rfl | simp [Metadata.fields] at hkey
  extra_withExtra _ _ := rfl
  withExtra_withExtra _ _ _ := rfl
  withExtra_extra _ := rfl

def EnvVar.fields : List String := ["name", "value"]

theorem EnvVar.isOpen :
    IsOpen EnvVar.take EnvVar.fields EnvVar.extra fun r extra => { r with extra } where
  known hkey h := by
    unfold EnvVar.take at h
    split at h
    · exact other_of_take h fun _ => rfl
    · exact other_of_take h fun _ => rfl
    · simp_all [EnvVar.fields]
  other r value hkey := by
    unfold EnvVar.take
    split
    all_goals first | rfl | simp [EnvVar.fields] at hkey
  extra_withExtra _ _ := rfl
  withExtra_withExtra _ _ _ := rfl
  withExtra_extra _ := rfl

def Container.fields : List String := ["name", "image", "command", "args", "env"]

theorem Container.isOpen :
    IsOpen Container.take Container.fields Container.extra fun r extra => { r with extra } where
  known hkey h := by
    unfold Container.take at h
    split at h
    · exact other_of_take h fun _ => rfl
    · exact other_of_take h fun _ => rfl
    · exact other_of_take h fun _ => rfl
    · exact other_of_take h fun _ => rfl
    · exact other_of_take h fun _ => rfl
    · simp_all [Container.fields]
  other r value hkey := by
    unfold Container.take
    split
    all_goals first | rfl | simp [Container.fields] at hkey
  extra_withExtra _ _ := rfl
  withExtra_withExtra _ _ _ := rfl
  withExtra_extra _ := rfl

def PodSpec.fields : List String := ["restartPolicy", "containers"]

theorem PodSpec.isOpen :
    IsOpen PodSpec.take PodSpec.fields PodSpec.extra fun r extra => { r with extra } where
  known hkey h := by
    unfold PodSpec.take at h
    split at h
    · exact other_of_take h fun _ => rfl
    · exact other_of_take h fun _ => rfl
    · simp_all [PodSpec.fields]
  other r value hkey := by
    unfold PodSpec.take
    split
    all_goals first | rfl | simp [PodSpec.fields] at hkey
  extra_withExtra _ _ := rfl
  withExtra_withExtra _ _ _ := rfl
  withExtra_extra _ := rfl

def JobSpec.fields : List String := ["backoffLimit", "template"]

theorem JobSpec.isOpen :
    IsOpen JobSpec.take JobSpec.fields JobSpec.extra fun r extra => { r with extra } where
  known hkey h := by
    unfold JobSpec.take at h
    split at h
    · exact other_of_take h fun _ => rfl
    · exact other_of_take h fun _ => rfl
    · simp_all [JobSpec.fields]
  other r value hkey := by
    unfold JobSpec.take
    split
    all_goals first | rfl | simp [JobSpec.fields] at hkey
  extra_withExtra _ _ := rfl
  withExtra_withExtra _ _ _ := rfl
  withExtra_extra _ := rfl

/-! ### Single fields -/

theorem Metadata.creationTimestamp_isField :
    IsField Metadata.take "creationTimestamp" Metadata.creationTimestamp where
  own h := own_of_take h fun _ => rfl
  other hne h := by
    unfold Metadata.take at h
    split at h
    · exact other_of_take h fun _ => rfl
    · exact other_of_take h fun _ => rfl
    · exact other_of_take h fun _ => rfl
    · exact other_of_take h fun _ => rfl
    · exact other_of_take h fun _ => rfl
    · exact other_of_take h fun _ => rfl
    · exact absurd rfl hne
    · exact (congrArg Metadata.creationTimestamp (Except.ok.inj h)).symm

theorem Container.env_isField : IsField Container.take "env" Container.env where
  own h := own_of_take h fun _ => rfl
  other hne h := by
    unfold Container.take at h
    split at h
    · exact other_of_take h fun _ => rfl
    · exact other_of_take h fun _ => rfl
    · exact other_of_take h fun _ => rfl
    · exact other_of_take h fun _ => rfl
    · exact absurd rfl hne
    · exact (congrArg Container.env (Except.ok.inj h)).symm

theorem PodTemplate.metadata_isField :
    IsField PodTemplate.take "metadata" PodTemplate.metadata where
  own h := own_of_take h fun _ => rfl
  other hne h := by
    unfold PodTemplate.take at h
    split at h
    · exact absurd rfl hne
    · exact other_of_take h fun _ => rfl
    · exact (congrArg PodTemplate.metadata (Except.ok.inj h)).symm

theorem JobTemplate.metadata_isField :
    IsField JobTemplate.take "metadata" JobTemplate.metadata where
  own h := own_of_take h fun _ => rfl
  other hne h := by
    unfold JobTemplate.take at h
    split at h
    · exact absurd rfl hne
    · exact other_of_take h fun _ => rfl
    · exact (congrArg JobTemplate.metadata (Except.ok.inj h)).symm

theorem JobTemplate.spec_isField : IsField JobTemplate.take "spec" JobTemplate.spec where
  own h := own_of_take h fun _ => rfl
  other hne h := by
    unfold JobTemplate.take at h
    split at h
    · exact other_of_take h fun _ => rfl
    · exact absurd rfl hne
    · exact (congrArg JobTemplate.spec (Except.ok.inj h)).symm

theorem Job.metadata_isField : IsField Job.take "metadata" Job.metadata where
  own h := own_of_take h fun _ => rfl
  other hne h := by
    unfold Job.take at h
    split at h
    · exact other_of_take h fun _ => rfl
    · exact other_of_take h fun _ => rfl
    · exact absurd rfl hne
    · exact other_of_take h fun _ => rfl
    · exact (congrArg Job.metadata (Except.ok.inj h)).symm

theorem Job.spec_isField : IsField Job.take "spec" Job.spec where
  own h := own_of_take h fun _ => rfl
  other hne h := by
    unfold Job.take at h
    split at h
    · exact other_of_take h fun _ => rfl
    · exact other_of_take h fun _ => rfl
    · exact other_of_take h fun _ => rfl
    · exact absurd rfl hne
    · exact (congrArg Job.spec (Except.ok.inj h)).symm

theorem JobSpec.backoffLimit_isField :
    IsField JobSpec.take "backoffLimit" JobSpec.backoffLimit where
  own h := own_of_take h fun _ => rfl
  other hne h := by
    unfold JobSpec.take at h
    split at h
    · exact absurd rfl hne
    · exact other_of_take h fun _ => rfl
    · exact (congrArg JobSpec.backoffLimit (Except.ok.inj h)).symm

theorem JobSpec.template_isField : IsField JobSpec.take "template" JobSpec.template where
  own h := own_of_take h fun _ => rfl
  other hne h := by
    unfold JobSpec.take at h
    split at h
    · exact other_of_take h fun _ => rfl
    · exact absurd rfl hne
    · exact (congrArg JobSpec.template (Except.ok.inj h)).symm

theorem PodTemplate.spec_isField : IsField PodTemplate.take "spec" PodTemplate.spec where
  own h := own_of_take h fun _ => rfl
  other hne h := by
    unfold PodTemplate.take at h
    split at h
    · exact other_of_take h fun _ => rfl
    · exact absurd rfl hne
    · exact (congrArg PodTemplate.spec (Except.ok.inj h)).symm

theorem PodSpec.restartPolicy_isField :
    IsField PodSpec.take "restartPolicy" PodSpec.restartPolicy where
  own h := own_of_take h fun _ => rfl
  other hne h := by
    unfold PodSpec.take at h
    split at h
    · exact absurd rfl hne
    · exact other_of_take h fun _ => rfl
    · exact (congrArg PodSpec.restartPolicy (Except.ok.inj h)).symm

theorem PodSpec.containers_isField : IsField PodSpec.take "containers" PodSpec.containers where
  own h := own_of_take h fun _ => rfl
  other hne h := by
    unfold PodSpec.take at h
    split at h
    · exact other_of_take h fun _ => rfl
    · exact absurd rfl hne
    · exact (congrArg PodSpec.containers (Except.ok.inj h)).symm

theorem TrialSpec.jobTemplate_isField :
    IsField TrialSpec.take "jobTemplate" TrialSpec.jobTemplate where
  own h := own_of_take h fun _ => rfl
  other hne h := by
    unfold TrialSpec.take at h
    split at h
    · exact other_of_take h fun _ => rfl
    · exact other_of_take h fun _ => rfl
    · exact other_of_take h fun _ => rfl
    · exact absurd rfl hne
    · exact other_of_take h fun _ => rfl
    · exact other_of_take h fun _ => rfl
    · exact (congrArg TrialSpec.jobTemplate (Except.ok.inj h)).symm

theorem TrialSpec.approximateRuntime_isField :
    IsField TrialSpec.take "approximateRuntime" TrialSpec.approximateRuntime where
  own h := own_of_take h fun _ => rfl
  other hne h := by
    unfold TrialSpec.take at h
    split at h
    · exact other_of_take h fun _ => rfl
    · exact other_of_take h fun _ => rfl
    · exact other_of_take h fun _ => rfl
    · exact other_of_take h fun _ => rfl
    · exact absurd rfl hne
    · exact other_of_take h fun _ => rfl
    · exact (congrArg TrialSpec.approximateRuntime (Except.ok.inj h)).symm

theorem TrialSpec.startTimeOffset_isField :
    IsField TrialSpec.take "startTimeOffset" TrialSpec.startTimeOffset where
  own h := own_of_take h fun _ => rfl
  other hne h := by
    unfold TrialSpec.take at h
    split at h
    · exact other_of_take h fun _ => rfl
    · exact other_of_take h fun _ => rfl
    · exact other_of_take h fun _ => rfl
    · exact other_of_take h fun _ => rfl
    · exact other_of_take h fun _ => rfl
    · exact absurd rfl hne
    · exact (congrArg TrialSpec.startTimeOffset (Except.ok.inj h)).symm

theorem Trial.spec_isField : IsField Trial.take "spec" Trial.spec where
  own h := own_of_take h fun _ => rfl
  other hne h := by
    unfold Trial.take at h
    split at h
    · exact other_of_take h fun _ => rfl
    · exact other_of_take h fun _ => rfl
    · exact other_of_take h fun _ => rfl
    · exact absurd rfl hne
    · exact other_of_take h fun _ => rfl
    · exact (congrArg Trial.spec (Except.ok.inj h)).symm

theorem TrialTemplate.spec_isField : IsField TrialTemplate.take "spec" TrialTemplate.spec where
  own h := own_of_take h fun _ => rfl
  other hne h := by
    unfold TrialTemplate.take at h
    split at h
    · exact other_of_take h fun _ => rfl
    · exact absurd rfl hne
    · exact (congrArg TrialTemplate.spec (Except.ok.inj h)).symm

theorem ExperimentSpec.trialTemplate_isField :
    IsField ExperimentSpec.take "trialTemplate" ExperimentSpec.trialTemplate where
  own h := own_of_take h fun _ => rfl
  other hne h := by
    unfold ExperimentSpec.take at h
    split at h
    · exact other_of_take h fun _ => rfl
    · exact other_of_take h fun _ => rfl
    · exact other_of_take h fun _ => rfl
    · exact other_of_take h fun _ => rfl
    · exact other_of_take h fun _ => rfl
    · exact other_of_take h fun _ => rfl
    · exact absurd rfl hne
    · exact (congrArg ExperimentSpec.trialTemplate (Except.ok.inj h)).symm

theorem Experiment.spec_isField : IsField Experiment.take "spec" Experiment.spec where
  own h := own_of_take h fun _ => rfl
  other hne h := by
    unfold Experiment.take at h
    split at h
    · exact other_of_take h fun _ => rfl
    · exact other_of_take h fun _ => rfl
    · exact other_of_take h fun _ => rfl
    · exact absurd rfl hne
    · exact other_of_take h fun _ => rfl
    · exact (congrArg Experiment.spec (Except.ok.inj h)).symm

/-! ### Reading by members -/

theorem Job.isReadWith : IsReadWith Job.take {} := reads_of_read

theorem JobSpec.isReadWith : IsReadWith JobSpec.take {} := fun h _ => reads_of_readOpen h

theorem PodTemplate.isReadWith : IsReadWith PodTemplate.take {} := reads_of_read

theorem PodSpec.isReadWith : IsReadWith PodSpec.take {} := fun h _ => reads_of_readOpen h

theorem Metadata.isReadWith : IsReadWith Metadata.take {} := fun h _ => reads_of_readOpen h

theorem EnvVar.isReadWith : IsReadWith EnvVar.take {} := fun h _ => reads_of_readOpen h

theorem Container.isReadWith : IsReadWith Container.take {} := fun h _ => reads_of_readOpen h

end WorkloadTuning
