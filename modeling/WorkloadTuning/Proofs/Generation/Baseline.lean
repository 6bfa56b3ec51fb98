import WorkloadTuning.Proofs.Generation.Operations
import WorkloadTuning.Proofs.Generation.Rereading

/-! The baseline is a fixed point of generation. A trial that assigns every parameter its baseline
changes the resources to ones from which the same is generated: each resource with fields is patched
once, with the baselines of its own fields, and its fields are then found settled. -/

namespace WorkloadTuning

open Template (IsLiteral)
open Selector (replicasKeys containersKeys)

/-! ### Fields are told apart by their keys -/

namespace TunableField

theorem suffixes_nodup (f : TunableField) : f.suffixes.Nodup := by
  cases f with
  | replicas f =>
    simp only [suffixes, ReplicaField.suffixes]
    split <;> simp
  | container f => exact f.suffixes_nodup
  | envVar f =>
    simp only [suffixes, VariableField.suffixes]
    split <;> simp

/-- The number of steps in the path of a field of that kind. -/
def pathLength : TunableField → Nat
  | replicas _ => 2
  | container _ => 5
  | envVar _ => 8

variable {f : TunableField}

theorem IsPlaced.length_path (h : f.IsPlaced) : f.path.segments.length = f.pathLength := by
  cases f with
  | replicas f =>
    have hpath : f.path = .ofFields replicasKeys := h
    rw [path, hpath]
    rfl
  | container f =>
    obtain ⟨name, hpath, -⟩ := h
    rw [path, hpath]
    rfl
  | envVar f =>
    obtain ⟨name, hpath, -⟩ := h
    rw [path, VariableField.valuePath, hpath]
    rfl

theorem IsPlaced.match_literal (h : f.IsPlaced) : ∀ value ∈ f.path.matchValues, IsLiteral value := by
  intro value hvalue
  cases f with
  | replicas f =>
    have hpath : f.path = .ofFields replicasKeys := h
    rw [path, hpath] at hvalue
    simp [FieldPath.matchValues, FieldPath.ofFields, replicasKeys, FieldPath.elementValue?] at hvalue
  | container f =>
    obtain ⟨name, hpath, hliteral⟩ := h
    rw [path, hpath] at hvalue
    obtain rfl : name = value := by
      simpa [FieldPath.matchValues, FieldPath.ofElement, FieldPath.ofFields, FieldPath.push,
        containersKeys, FieldPath.elementValue?] using hvalue
    exact hliteral
  | envVar f =>
    obtain ⟨name, hpath, hliteral, hown⟩ := h
    rw [path, VariableField.valuePath, hpath] at hvalue
    have hcases : name = value ∨ f.name = value := by
      simpa [FieldPath.matchValues, FieldPath.ofElement, FieldPath.ofFields, FieldPath.push,
        containersKeys, FieldPath.elementValue?] using hvalue
    rcases hcases with rfl | rfl
    · exact hliteral
    · exact hown

end TunableField

/-- The path that a field is named after tells it apart. -/
theorem OnePerPlace.eq_of_path {found : List TunableField} (h : OnePerPlace found)
    (hplaced : ∀ f ∈ found, f.IsPlaced) {f g : TunableField} (hf : f ∈ found) (hg : g ∈ found)
    (hpath : f.path = g.path) : f = g := by
  have hlength : f.pathLength = g.pathLength := by
    rw [← (hplaced f hf).length_path, ← (hplaced g hg).length_path, hpath]
  cases f with
  | replicas f =>
    cases g with
    | replicas g => rw [h.replicas f g hf hg]
    | container g => cases hlength
    | envVar g => cases hlength
  | container f =>
    cases g with
    | replicas g => cases hlength
    | container g => rw [h.container f g hf hg hpath]
    | envVar g => cases hlength
  | envVar f =>
    cases g with
    | replicas g => cases hlength
    | container g => cases hlength
    | envVar g =>
      have hsame : f.path = g.path ∧ f.name = g.name := by
        obtain ⟨name, hname, -⟩ := hplaced _ hf
        obtain ⟨other, hother, -⟩ := hplaced _ hg
        simp only [TunableField.path, VariableField.valuePath, hname, hother] at hpath
        rw [hname, hother]
        simpa [FieldPath.ofElement, FieldPath.push] using hpath
      rw [h.envVar f g hf hg hsame.1 hsame.2]

namespace Generator

section Bound
variable {fields : List TunableField}
  (hapart : ∀ f ∈ fields, ∀ g ∈ fields, f.target = g.target → f.path = g.path → f = g)
include hapart

/-- Where fields are told apart by their keys, every parameter of a field is kept. -/
theorem mem_parametersOf {f : TunableField} (hf : f ∈ fields) {p : Parameter}
    (hp : p ∈ f.parameters (namerOf fields)) : p ∈ parametersOf (namerOf fields) fields := by
  have hname : ∀ {g : TunableField} {q : Parameter}, q ∈ g.parameters (namerOf fields) →
      ∃ suffix ∈ g.suffixes, q.name = (namerOf fields).name g.target g.path suffix := by
    intro g q hq
    have hmem := List.mem_map_of_mem (f := Parameter.name) hq
    rw [TunableField.parameters_names] at hmem
    obtain ⟨key, hkey, heq⟩ := List.mem_map.mp hmem
    obtain ⟨suffix, hsuffix, rfl⟩ := List.mem_map.mp hkey
    exact ⟨suffix, hsuffix, heq.symm⟩
  obtain ⟨suffix, hsuffix, hown⟩ := hname hp
  obtain ⟨q, hq, hsame⟩ := List.mem_map.mp (name_mem_parametersOf _ fields hf hsuffix)
  obtain ⟨g, hg, hqg⟩ := exists_of_mem_parametersOf _ fields hq
  obtain ⟨other, hother, hname'⟩ := hname hqg
  have hkeys := Namer.name_inj (key_mem hg hother) (key_mem hf hsuffix) (hname'.symm.trans hsame)
  obtain ⟨htarget, hpath, -⟩ := NameKey.mk.inj hkeys
  obtain rfl := hapart g hg f hf htarget hpath
  -- The names within one field differ as its suffixes do.
  have hnodup : ((g.parameters (namerOf fields)).map Parameter.name).Nodup := by
    rw [TunableField.parameters_names]
    refine List.Nodup.map_on ?_ ?_
    · intro k hk l hl heq
      exact Namer.name_inj (List.mem_flatMap.mpr ⟨g, hg, hk⟩) (List.mem_flatMap.mpr ⟨g, hg, hl⟩) heq
    · exact g.suffixes_nodup.map fun a b heq => (NameKey.mk.inj heq).2.2
  obtain rfl := List.inj_on_of_nodup_map hnodup hqg hp (hsame.trans hown.symm)
  exact hq

end Bound

end Generator

/-! ### The fixed point -/

namespace Generator

section Engine
variable [RegexEngine] {g : Generator} {set : ResourceSet} {matchers : List (Matcher × Selector)}

section Parts
variable {parts : List (List TunableField)} (hcustom : IsCustomaryMatchers matchers)
  (hparts : List.Forall₂ (fun r part => fieldsOf matchers r = .ok part) set.resources parts)
  (hlists : ∀ r ∈ set.resources, r.HasContainerList)
include hcustom hparts hlists

theorem isPlaced_of_mem_parts {f : TunableField} (hf : f ∈ parts.flatten) : f.IsPlaced := by
  obtain ⟨part, hpart, hmem⟩ := List.mem_flatten.mp hf
  obtain ⟨r, hr, hfields⟩ := exists_left_of_mem hparts hpart
  exact isPlaced_of_mem hcustom hfields (hlists r hr) hmem

/-- Fields of different resources have different targets, and those of one resource different
paths. -/
theorem eq_of_key (hnodup : set.targets.Nodup) {f other : TunableField} (hf : f ∈ parts.flatten)
    (hother : other ∈ parts.flatten) (htarget : f.target = other.target)
    (hpath : f.path = other.path) : f = other := by
  obtain ⟨part, hpart, hmem⟩ := List.mem_flatten.mp hf
  obtain ⟨r, hr, hfields⟩ := exists_left_of_mem hparts hpart
  have hfilter := filter_target hparts hnodup hr hfields
  have hsame : other ∈ part := by
    rw [← hfilter, List.mem_filter, ← htarget, target_of_mem_fieldsOf hfields hmem]
    exact ⟨hother, decide_eq_true rfl⟩
  exact (onePerPlace hcustom hfields (hlists r hr)).eq_of_path
    (fun f hf => isPlaced_of_mem hcustom hfields (hlists r hr) hf) hmem hsame hpath

/-- A resource is found to have settled fields once the operation of its reference, if there is one,
has been applied with the baselines. -/
theorem fieldsOf_patchedBy (hmatchers : g.matchers = .ok matchers) (hnodup : set.targets.Nodup)
    {patches : List (ObjectReference × Json)}
    (hpatches : patchesOf (namerOf parts.flatten) parts.flatten = .ok patches)
    {bindings : Bindings} {ops : List PatchOperation}
    (hops : List.Forall₂ (PatchOperation.IsRendered bindings) patches ops)
    (hbound : ∀ p ∈ parametersOf (namerOf parts.flatten) parts.flatten,
      bindings.get? p.name = p.baseline)
    {r : Resource} (hr : r ∈ set.resources) {found : List TunableField}
    (hfound : fieldsOf matchers r = .ok found) :
    fieldsOf matchers (r.patchedBy ops) = .ok (found.map TunableField.settled) := by
  have hfilter := filter_target hparts hnodup hr hfound
  obtain ⟨fragments, hfragments, hlookup⟩ := lookup_patchesOf hpatches r.target
  rw [hfilter] at hfragments
  unfold Resource.patchedBy
  cases hop : ops.find? fun op => op.target = r.target with
  | none =>
    -- Without an operation there was no fragment, and so no field.
    rw [PatchOperation.lookup_of_find?_none hops hop] at hlookup
    obtain rfl : fragments = [] := Json.mergeAll_eq_none hlookup.symm
    obtain rfl := List.forall₂_nil_right_iff.mp hfragments
    exact hfound
  | some op =>
    obtain ⟨patch, hpatch, hdata⟩ :=
      PatchOperation.lookup_of_find? hops (patchesOf_targets_nodup hpatches) hop
    have hmem : ∀ f ∈ found, f ∈ parts.flatten := by
      intro f hf
      rw [← hfilter] at hf
      exact List.mem_of_mem_filter hf
    have hfields : g.fields set = .ok parts.flatten :=
      fields_eq_ok.mpr ⟨matchers, parts, hmatchers, hparts, rfl⟩
    have hpatched : IsBaselinePatch (namerOf parts.flatten) bindings found op.data := {
      placed := fun f hf => isPlaced_of_mem hcustom hfound (hlists r hr) hf
      tunable := fun f hf => tunable_of_mem hfound hf
      single := onePerPlace hcustom hfound (hlists r hr)
      name_plain := fun f hf suffix hsuffix => name_isPlainName hfields (hmem f hf) hsuffix
      bound := fun f hf p hp => hbound p (mem_parametersOf
        (fun f hf other hother => eq_of_key hcustom hparts hlists hnodup hf hother) (hmem f hf) hp)
      data := ⟨fragments, hfragments, patch, hlookup.symm.trans hpatch, hdata⟩ }
    exact fieldsOf_merge hcustom hfound (hlists r hr) hpatched

end Parts

/-- A trial that assigns every parameter its baseline renders, its operations apply, and from the
resources as they then are the same is generated. -/
theorem generate_baseline_fixed (hg : g.IsCustomary) (hset : set.FindsEach)
    (hlists : ∀ r ∈ set.resources, r.HasContainerList) {generated : Generated}
    (h : g.generate set = .ok generated) (name : String) {trial : Trial}
    (htrial : ∀ p ∈ generated.parameters, trial.assigned.get? p.name = p.baseline) :
    ∃ ops next, trial.renderPatches (generated.experiment name) = .ok ops ∧
      set.applyPatches ops = (next, none) ∧ g.generate next = .ok generated := by
  obtain ⟨fields, patches, hfields, hpatches, hparameters, htemplates, -⟩ := generate_eq_ok h
  obtain ⟨matchers, parts, hmatchers, hparts, rfl⟩ := fields_eq_ok.mp hfields
  have hcustom := hg.matchers hmatchers
  have hnodup := hset.targets_nodup
  -- Rendering.
  have hliteral : g.LiteralMatches set := by
    intro fields hfound f hf
    obtain rfl := Except.ok.inj (hfields.symm.trans hfound)
    exact (isPlaced_of_mem_parts hcustom hparts hlists hf).match_literal
  have hbound : ∀ p ∈ generated.parameters, ∃ value, trial.assigned.get? p.name = some value := by
    intro p hp
    rw [htrial p hp]
    rw [hparameters] at hp
    obtain ⟨f, -, hmem⟩ := exists_of_mem_parametersOf _ _ hp
    obtain ⟨value, hbaseline, -⟩ := (f.parameters_isSound _ p hmem).baselineAssignment
    exact ⟨value, hbaseline⟩
  obtain ⟨ops, hops⟩ := Trial.renderPatches_ok (e := generated.experiment name)
    (everyText_of_mem_patches h hliteral) hbound
  have hrendered := Trial.renderPatches_generated htemplates hbound hops
  -- Application.
  have htargets := PatchOperation.targets_eq hrendered
  have happly : set.applyPatches ops = (⟨set.resources.map (Resource.patchedBy ops)⟩, none) := by
    refine ResourceSet.applyPatches_own hset.pairwise ?_ ?_ ?_
    · intro op hop
      obtain ⟨patch, -, hpatch⟩ := exists_left_of_mem hrendered hop
      exact hpatch.kind
    · intro op hop
      obtain ⟨patch, hpatch, hop⟩ := exists_left_of_mem hrendered hop
      obtain ⟨-, f, hf, htarget⟩ := patchesOf_forall (P := fun _ => True) (by simp) (by simp)
        hpatches patch hpatch
      obtain ⟨r, hr, hsame⟩ := (isFound_of_mem_fields hfields hf).exists_resource
      rw [hop.target, ← htarget, ← hsame]
      exact List.mem_map_of_mem hr
    · rw [htargets]
      exact patchesOf_targets_nodup hpatches
  -- Rereading.
  refine ⟨ops, _, hops, happly, generate_of_settled hfields (fields_eq_ok.mpr ⟨matchers,
    parts.map (List.map TunableField.settled), hmatchers, ?_, (List.map_flatten).symm⟩) h⟩
  rw [List.forall₂_map_left_iff, List.forall₂_map_right_iff]
  refine ((List.forall₂_and_left _ _).mpr ⟨fun r hr => hr, hparts⟩).imp ?_
  rintro r part ⟨hr, hpart⟩
  exact fieldsOf_patchedBy hcustom hparts hlists hmatchers hnodup hpatches hrendered
    (hparameters ▸ htrial) hr hpart

end Engine

/-! ### A sample -/

theorem sample_isCustomary : sampleGenerator.IsCustomary where
  apart := List.pairwise_singleton _ _
  default_path := by
    intro s hs
    obtain rfl := List.mem_singleton.mp hs
    rfl

theorem sample_findsEach : ResourceSet.FindsEach ⟨[sampleResource]⟩ := by
  intro i r h
  cases i with
  | zero =>
    obtain rfl := Option.some.inj h
    decide
  | succ i => cases h

theorem sample_hasContainerList : ∀ r ∈ [sampleResource], r.HasContainerList := by
  intro r hr items hitems
  obtain rfl := List.mem_singleton.mp hr
  obtain rfl : _ = items := Json.array.inj (Option.some.inj hitems)
  refine ⟨by decide, ?_, ?_⟩
  · intro item hitem name hname
    obtain rfl := List.mem_singleton.mp hitem
    obtain rfl : _ = name := Option.some.inj hname
    decide
  · intro item hitem env henv
    obtain rfl := List.mem_singleton.mp hitem
    cases henv

/-- The trial with the baseline of the sample. -/
def sampleTrial : Trial :=
  { spec := { assignments := [{ name := "cpu", value := .int 1000 }] } }

theorem sample_baseline_fixed : ∃ ops next,
    sampleTrial.renderPatches (sampleGenerated.experiment "bench") = .ok ops ∧
      ResourceSet.applyPatches ⟨[sampleResource]⟩ ops = (next, none) ∧
      sampleGenerator.generate next = .ok sampleGenerated := by
  refine generate_baseline_fixed sample_isCustomary sample_findsEach sample_hasContainerList
    sample_generate "bench" ?_
  intro p hp
  obtain rfl := List.mem_singleton.mp hp
  decide

end Generator

end WorkloadTuning
