import WorkloadTuning.Proofs.Generation.Parameters
import WorkloadTuning.Proofs.Template.Document

/-! The patches of the fields that were found: one for each target, and made up of literal texts and
of placeholders of the fields' parameters. -/

namespace WorkloadTuning

open Template (IsGenerated IsLiteral)

/-! ### The fragment of one field -/

namespace TunableField

variable {namer : Namer} {names : List String}

/-- What a field's fragment is made from: its names are parameters, and its match values literal. -/
structure IsPlain (namer : Namer) (names : List String) (f : TunableField) : Prop where
  name_mem : ∀ suffix ∈ f.suffixes, namer.name f.target f.path suffix ∈ names
  name_plain : ∀ suffix ∈ f.suffixes, IsPlainName (namer.name f.target f.path suffix)
  match_literal : ∀ value ∈ f.path.matchValues, IsLiteral value

/-- The placeholder of a field's parameter, with what may stand behind it. -/
theorem IsPlain.isGenerated {f : TunableField} (h : f.IsPlain namer names) {suffix unit : String}
    (hsuffix : suffix ∈ f.suffixes) (hunit : IsLiteral unit) :
    IsGenerated names (Template.placeholder (namer.name f.target f.path suffix) ++ unit) :=
  .parameter (h.name_mem suffix hsuffix) (h.name_plain suffix hsuffix) hunit

theorem IsPlain.isGenerated_bare {f : TunableField} (h : f.IsPlain namer names) {suffix : String}
    (hsuffix : suffix ∈ f.suffixes) :
    IsGenerated names (Template.placeholder (namer.name f.target f.path suffix)) := by
  have hgenerated := h.isGenerated hsuffix (show IsLiteral "" by decide)
  rwa [String.append_empty] at hgenerated

theorem unit_isLiteral {f : ContainerField} {b : ResourceBaseline} (hb : b ∈ f.baselines) :
    IsLiteral b.unit := by
  rcases (ContainerField.baseline_cases hb).2 with ⟨-, h, -⟩ | ⟨-, h, -⟩
  · rw [h]
    decide
  · rw [h]
    cases f.unit <;> decide

/-- All texts of a field's fragment are literal or placeholders of its parameters. -/
theorem IsPlain.everyText_patch {f : TunableField} (h : f.IsPlain namer names) {fragment : Json}
    (hpatch : f.patch namer = .ok fragment) : Json.EveryText (IsGenerated names) fragment := by
  have hvalues : ∀ value ∈ f.path.matchValues, IsGenerated names value :=
    fun value hvalue => .literal (h.match_literal value hvalue)
  cases f with
  | replicas f =>
    have hpatch := mapError_eq_ok.mp hpatch
    unfold ReplicaField.patch at hpatch
    split at hpatch
    · obtain rfl := Except.ok.inj hpatch
      trivial
    · next value hbaseline =>
      have hsuffix : ReplicaField.suffix ∈ (replicas f).suffixes := by
        simp [suffixes, ReplicaField.suffixes, hbaseline]
      have hleaf : Json.EveryText (IsGenerated names)
          (.string (Template.placeholder (namer.name f.target f.path ReplicaField.suffix))) :=
        h.isGenerated_bare hsuffix
      exact FieldPath.everyText_fragment hleaf hvalues hpatch
  | container f =>
    have hpatch := mapError_eq_ok.mp hpatch
    unfold ContainerField.patch at hpatch
    split at hpatch
    · obtain rfl := Except.ok.inj hpatch
      trivial
    · have hresources : Json.EveryTextMembers (IsGenerated names) (f.baselines.map fun b =>
          (b.suffix, Json.string (Template.placeholder (namer.name f.target f.path b.suffix) ++
            b.unit))) := by
        rw [Json.everyTextMembers_iff]
        intro e he
        obtain ⟨b, hb, rfl⟩ := List.mem_map.mp he
        exact h.isGenerated (List.mem_map_of_mem hb) (unit_isLiteral hb)
      have hleaf : Json.EveryText (IsGenerated names)
          (.object [("limits", .object _), ("requests", .object _)]) :=
        ⟨hresources, hresources, trivial⟩
      have hmatches : (f.path.push (.field "resources")).matchValues = f.path.matchValues := by
        simp [FieldPath.matchValues, FieldPath.push, FieldPath.elementValue?]
      refine FieldPath.everyText_fragment hleaf ?_ hpatch
      rw [hmatches]
      exact hvalues
  | envVar f =>
    have hpatch := mapError_eq_ok.mp hpatch
    unfold VariableField.patch at hpatch
    split at hpatch
    · obtain rfl := Except.ok.inj hpatch
      trivial
    · next hvalues' =>
      have hsuffix : f.suffix ∈ (envVar f).suffixes := by
        simp [suffixes, VariableField.suffixes, hvalues']
      have hleaf : Json.EveryText (IsGenerated names)
          (.string (Template.placeholder (namer.name f.target f.valuePath f.suffix))) :=
        h.isGenerated_bare hsuffix
      exact FieldPath.everyText_fragment hleaf hvalues hpatch

end TunableField

/-! ### One patch for each target -/

namespace Generator

variable {namer : Namer} {fields : List TunableField}

theorem targets_addFragment (target : ObjectReference) (fragment : Json)
    (patches : List (ObjectReference × Json)) :
    (addFragment target fragment patches).map Prod.fst =
      if target ∈ patches.map Prod.fst then patches.map Prod.fst
      else patches.map Prod.fst ++ [target] := by
  induction patches with
  | nil => simp [addFragment]
  | cons entry rest ih =>
    unfold addFragment
    split
    · next heq => simp [heq]
    · next hne =>
      rw [List.map_cons, ih]
      simp only [List.map_cons, List.mem_cons, Ne.symm hne, false_or]
      split <;> rfl

/-- The patch that an added fragment ends up in, beside the patches that are left alone. -/
theorem mem_addFragment {target : ObjectReference} {fragment : Json}
    {patches : List (ObjectReference × Json)} {e : ObjectReference × Json}
    (h : e ∈ addFragment target fragment patches) :
    e ∈ patches ∨ e.1 = target ∧ (e.2 = fragment ∨
      ∃ old, (target, old) ∈ patches ∧ e.2 = old.merge fragment) := by
  induction patches with
  | nil =>
    obtain rfl : e = (target, fragment) := by simpa [addFragment] using h
    exact .inr ⟨rfl, .inl rfl⟩
  | cons entry rest ih =>
    unfold addFragment at h
    split at h
    · next heq =>
      rcases List.mem_cons.mp h with rfl | h
      · exact .inr ⟨heq, .inr ⟨entry.2, by rw [← heq]; exact List.mem_cons_self, rfl⟩⟩
      · exact .inl (List.mem_cons_of_mem _ h)
    · rcases List.mem_cons.mp h with rfl | h
      · exact .inl List.mem_cons_self
      · rcases ih h with h | ⟨htarget, h | ⟨old, hold, h⟩⟩
        · exact .inl (List.mem_cons_of_mem _ h)
        · exact .inr ⟨htarget, .inl h⟩
        · exact .inr ⟨htarget, .inr ⟨old, List.mem_cons_of_mem _ hold, h⟩⟩

/-- A step of the pass adds the fragment of one field. -/
theorem patchesOf_keeps {I : List (ObjectReference × Json) → Prop}
    {patches : List (ObjectReference × Json)} (hempty : I [])
    (hstep : ∀ f ∈ fields, ∀ fragment patches, f.patch namer = .ok fragment → I patches →
      I (addFragment f.target fragment patches))
    (h : patchesOf namer fields = .ok patches) : I patches := by
  refine foldlM_keeps hempty ?_ h
  intro f hf before after hbefore hafter
  obtain ⟨fragment, hfragment, hafter⟩ := bind_eq_ok.mp hafter
  obtain rfl := Except.ok.inj hafter
  exact hstep f hf fragment before hfragment hbefore

theorem patchesOf_targets_nodup {patches : List (ObjectReference × Json)}
    (h : patchesOf namer fields = .ok patches) : (patches.map Prod.fst).Nodup := by
  refine patchesOf_keeps (I := fun patches => (patches.map Prod.fst).Nodup) List.nodup_nil ?_ h
  intro f _ fragment patches _ hnodup
  rw [targets_addFragment]
  split
  · exact hnodup
  · next hnew => exact List.nodup_append_comm.mp (List.nodup_cons.mpr ⟨hnew, hnodup⟩)

/-- What holds of the fragments of the fields, and of two patches merged, holds of each patch. -/
theorem patchesOf_forall {P : Json → Prop} {patches : List (ObjectReference × Json)}
    (hfragment : ∀ f ∈ fields, ∀ fragment, f.patch namer = .ok fragment → P fragment)
    (hmerge : ∀ old fragment, P old → P fragment → P (old.merge fragment))
    (h : patchesOf namer fields = .ok patches) :
    ∀ e ∈ patches, P e.2 ∧ ∃ f ∈ fields, f.target = e.1 := by
  refine patchesOf_keeps (I := fun patches => ∀ e ∈ patches, P e.2 ∧ ∃ f ∈ fields, f.target = e.1)
    (by simp) ?_ h
  intro f hf fragment patches hpatch hpatches e he
  have hnew := hfragment f hf fragment hpatch
  rcases mem_addFragment he with h | ⟨htarget, h | ⟨old, hold, h⟩⟩
  · exact hpatches e h
  · exact ⟨h ▸ hnew, f, hf, htarget.symm⟩
  · exact ⟨h ▸ hmerge old fragment (hpatches _ hold).1 hnew, f, hf, htarget.symm⟩

end Generator

end WorkloadTuning
