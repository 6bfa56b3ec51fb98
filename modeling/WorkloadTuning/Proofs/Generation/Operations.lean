import WorkloadTuning.Proofs.Generation.Acceptance
import WorkloadTuning.Proofs.Resource.Application
import WorkloadTuning.Proofs.Template.Overlay

/-! The operations that a trial renders from what was generated. Each resource with fields has one
operation, for its own reference, and the data of that operation are the fragments of its fields
merged and rendered. -/

namespace WorkloadTuning

open Json (mergeAll)
open Template (IsData IsGenerated)

/-! ### The patch of one target -/

namespace Generator

variable {namer : Namer} {fields : List TunableField}

theorem lookup_addFragment (target other : ObjectReference) (fragment : Json)
    (patches : List (ObjectReference × Json)) :
    (addFragment target fragment patches).lookup other =
      if target = other then some (match patches.lookup target with
        | none => fragment
        | some old => old.merge fragment)
      else patches.lookup other := by
  induction patches with
  | nil =>
    by_cases h : target = other
    · simp [addFragment, h]
    · simp [addFragment, h, List.lookup_cons, beq_eq_false_iff_ne.mpr (Ne.symm h)]
  | cons entry rest ih =>
    obtain ⟨own, patch⟩ := entry
    unfold addFragment
    by_cases hown : own = target
    · subst hown
      by_cases h : own = other
      · simp [h]
      · simp [h, List.lookup_cons, beq_eq_false_iff_ne.mpr (Ne.symm h)]
    · rw [if_neg hown, List.lookup_cons, ih, List.lookup_cons, List.lookup_cons]
      by_cases h : other = own
      · have hne : target ≠ other := fun heq => hown (h ▸ heq.symm)
        simp [h, Ne.symm hown]
      · simp [beq_eq_false_iff_ne.mpr h, beq_eq_false_iff_ne.mpr (Ne.symm hown)]

/-- The patch of a target is merged from the fragments of the fields with that target. -/
theorem lookup_patchesOf {patches : List (ObjectReference × Json)}
    (h : patchesOf namer fields = .ok patches) (target : ObjectReference) :
    ∃ fragments, List.Forall₂ (fun f fragment => TunableField.patch namer f = .ok fragment)
        (fields.filter fun f => f.target = target) fragments ∧
      patches.lookup target = mergeAll fragments := by
  have hfold : ∀ (l : List TunableField) (start : List (ObjectReference × Json)),
      l.foldlM (fun patches f => do
        return addFragment f.target (← f.patch namer) patches) start = .ok patches →
      ∃ fragments, List.Forall₂ (fun f fragment => TunableField.patch namer f = .ok fragment)
          (l.filter fun f => f.target = target) fragments ∧
        patches.lookup target = fragments.foldl (fun merged fragment => some (match merged with
          | none => fragment
          | some old => old.merge fragment)) (start.lookup target) := by
    intro l
    induction l with
    | nil =>
      intro start hend
      obtain rfl : start = patches := Except.ok.inj hend
      exact ⟨[], .nil, rfl⟩
    | cons f rest ih =>
      intro start hend
      rw [List.foldlM_cons] at hend
      obtain ⟨next, hnext, hrest⟩ := bind_eq_ok.mp hend
      obtain ⟨fragment, hfragment, hadded⟩ := bind_eq_ok.mp hnext
      obtain rfl := Except.ok.inj hadded
      obtain ⟨fragments, hfragments, hlookup⟩ := ih _ hrest
      rw [lookup_addFragment] at hlookup
      by_cases htarget : f.target = target
      · rw [if_pos htarget, htarget] at hlookup
        refine ⟨fragment :: fragments, ?_, hlookup⟩
        rw [List.filter_cons_of_pos (by simpa using htarget)]
        exact .cons hfragment hfragments
      · rw [if_neg htarget] at hlookup
        refine ⟨fragments, ?_, hlookup⟩
        rw [List.filter_cons_of_neg (by simpa using htarget)]
        exact hfragments
  exact hfold fields [] h

/-! ### The fields of one resource among all fields -/

theorem target_of_mem_fieldsOf [RegexEngine] {matchers : List (Matcher × Selector)} {r : Resource}
    {found : List TunableField} (h : fieldsOf matchers r = .ok found) {f : TunableField}
    (hf : f ∈ found) : f.target = r.target := by
  obtain ⟨m, -, -, -, all, hall, hmem⟩ := exists_of_mem_fieldsOf h hf
  exact (Selector.fields_target hall hmem).1

/-- With different references, the fields with the target of a resource are the fields of that
resource. -/
theorem filter_target [RegexEngine] {matchers : List (Matcher × Selector)} {resources : List Resource}
    {parts : List (List TunableField)}
    (h : List.Forall₂ (fun r part => fieldsOf matchers r = .ok part) resources parts)
    (hnodup : (resources.map Resource.target).Nodup) {r : Resource} (hr : r ∈ resources)
    {found : List TunableField} (hfound : fieldsOf matchers r = .ok found) :
    (parts.flatten.filter fun f => f.target = r.target) = found := by
  have hnone : ∀ {q : Resource} {part : List TunableField}, fieldsOf matchers q = .ok part →
      q.target ≠ r.target → (part.filter fun f => f.target = r.target) = [] := by
    intro q part hpart hne
    rw [List.filter_eq_nil_iff]
    intro f hf
    rw [target_of_mem_fieldsOf hpart hf, decide_eq_true_eq]
    exact hne
  have hall : (found.filter fun f => f.target = r.target) = found := by
    rw [List.filter_eq_self]
    intro f hf
    rw [target_of_mem_fieldsOf hfound hf, decide_eq_true_eq]
  induction h with
  | nil => simp at hr
  | @cons q part resources parts hhead hrest ih =>
    obtain ⟨hfresh, hnodup⟩ := List.nodup_cons.mp hnodup
    rw [List.flatten_cons, List.filter_append]
    rcases List.mem_cons.mp hr with rfl | hr
    · have hlater : (parts.flatten.filter fun f => f.target = r.target) = [] := by
        rw [List.filter_eq_nil_iff]
        intro f hf
        obtain ⟨part, hpart, hmem⟩ := List.mem_flatten.mp hf
        obtain ⟨q, hq, hfields⟩ := exists_left_of_mem hrest hpart
        rw [target_of_mem_fieldsOf hfields hmem, decide_eq_true_eq]
        exact fun heq => hfresh (heq ▸ List.mem_map_of_mem hq)
      obtain rfl := Except.ok.inj (hhead.symm.trans hfound)
      rw [hall, hlater, List.append_nil]
    · have hne : q.target ≠ r.target := fun heq => hfresh (heq ▸ List.mem_map_of_mem hr)
      rw [hnone hhead hne, List.nil_append]
      exact ih hnodup hr

end Generator

/-! ### Rendered operations -/

/-- The operation is the rendered patch of that target. -/
structure PatchOperation.IsRendered (bindings : Bindings) (patch : ObjectReference × Json)
    (op : PatchOperation) : Prop where
  target : op.target = patch.1
  kind : op.kind = .strategic
  data : Template.render bindings patch.2 = .ok op.data

/-- A trial that assigns every parameter renders each patch with what it assigns. -/
theorem Trial.renderPatches_generated {generated : Generated} {trial : Trial} {name : String}
    {patches : List (ObjectReference × Json)} {ops : List PatchOperation}
    (hpatches : generated.patches =
      patches.map fun (target, patch) => { patch, target := some target })
    (hbound : ∀ p ∈ generated.parameters, ∃ value, trial.assigned.get? p.name = some value)
    (h : trial.renderPatches (generated.experiment name) = .ok ops) :
    List.Forall₂ (PatchOperation.IsRendered trial.assigned) patches ops := by
  obtain ⟨bindings, hbindings, hops⟩ := bind_eq_ok.mp h
  have hassigned : trial.bindings (generated.experiment name) = .ok trial.assigned :=
    Trial.bindings_of_bound hbound
  obtain rfl := Except.ok.inj (hassigned.symm.trans hbindings)
  have hall := mapM_eq_ok.mp hops
  rw [show (generated.experiment name).spec.patches = generated.patches from rfl, hpatches,
    List.forall₂_map_left_iff] at hall
  apply hall.imp
  intro patch op hop
  obtain ⟨data, hdata, hop⟩ := bind_eq_ok.mp hop
  obtain rfl := Except.ok.inj hop
  exact ⟨rfl, rfl, mapError_eq_ok.mp hdata⟩

namespace PatchOperation

variable {bindings : Bindings} {patches : List (ObjectReference × Json)}
  {ops : List PatchOperation} (h : List.Forall₂ (IsRendered bindings) patches ops)
include h

theorem targets_eq : ops.map target = patches.map Prod.fst := by
  induction h with
  | nil => rfl
  | cons hhead _ ih => rw [List.map_cons, List.map_cons, hhead.target, ih]

/-- A resource with an operation has a patch, and the data of the operation is that patch
rendered. -/
theorem lookup_of_find? (hnodup : (patches.map Prod.fst).Nodup) {target : ObjectReference}
    {op : PatchOperation} (hop : (ops.find? fun op => op.target = target) = some op) :
    ∃ patch, patches.lookup target = some patch ∧
      Template.render bindings patch = .ok op.data := by
  obtain ⟨⟨own, patch⟩, hmem, hrendered⟩ := exists_left_of_mem h (List.mem_of_find?_eq_some hop)
  have htarget : op.target = target := by simpa using List.find?_some hop
  obtain rfl : own = target := hrendered.target.symm.trans htarget
  exact ⟨patch, Dict.lookup_of_mem hnodup hmem, hrendered.data⟩

theorem lookup_of_find?_none {target : ObjectReference}
    (hnone : (ops.find? fun op => op.target = target) = none) : patches.lookup target = none := by
  rw [List.lookup_eq_none_iff]
  intro patch hpatch
  obtain ⟨op, hop, hrendered⟩ := exists_right_of_mem h hpatch
  rw [List.find?_eq_none] at hnone
  have hne := hnone op hop
  rw [hrendered.target, decide_eq_true_eq] at hne
  exact bne_iff_ne.mpr (Ne.symm hne)

end PatchOperation

end WorkloadTuning
