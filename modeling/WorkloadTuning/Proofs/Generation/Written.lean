import WorkloadTuning.Proofs.Generation.Fragments

/-! What a tree holds once its patch has been rendered with the baselines and merged: at the spots of
the fields their baselines, and at all other spots what was there before. -/

namespace WorkloadTuning

open Json
open Template (IsData IsLiteral renderString)
open Selector (replicasKeys containersKeys)

/-- No two fields are of one place. -/
structure OnePerPlace (found : List TunableField) : Prop where
  replicas : ∀ f g, .replicas f ∈ found → .replicas g ∈ found → f = g
  container : ∀ f g, .container f ∈ found → .container g ∈ found → f.path = g.path → f = g
  envVar : ∀ f g, .envVar f ∈ found → .envVar g ∈ found → f.path = g.path → f.name = g.name → f = g

namespace TunableField

variable {namer : Namer} {spot : Spot} {text other : String}

theorem textAt_replicas {f : TunableField} (h : f.textAt namer .replicas = some text) :
    ∃ field, f = replicas field := by
  cases f with
  | replicas field => exact ⟨field, rfl⟩
  | container field => cases h
  | envVar field => cases h

theorem textAt_resource {f : TunableField} {name suffix : String} {requested : Bool}
    (h : f.textAt namer (.resource name requested suffix) = some text) :
    ∃ field b, f = container field ∧ field.path = .ofElement containersKeys name ∧
      field.baselineFor? suffix = some b := by
  cases f with
  | replicas field => cases h
  | envVar field => cases h
  | container field =>
    simp only [textAt] at h
    split at h
    · next hpath =>
      obtain ⟨b, hb, -⟩ := Option.map_eq_some_iff.mp h
      exact ⟨field, b, rfl, hpath, hb⟩
    · cases h

theorem textAt_value {f : TunableField} {name var : String}
    (h : f.textAt namer (.value name var) = some text) :
    ∃ field, f = envVar field ∧ field.path = .ofElement containersKeys name ∧
      field.name = var := by
  cases f with
  | replicas field => cases h
  | container field => cases h
  | envVar field =>
    simp only [textAt] at h
    split at h
    · next hplace => exact ⟨field, rfl, hplace.1, hplace.2⟩
    · cases h

/-- Only one field has a text at a spot. -/
theorem eq_of_textAt {found : List TunableField} (hsingle : OnePerPlace found)
    {f g : TunableField} (hf : f ∈ found) (hg : g ∈ found)
    (htext : f.textAt namer spot = some text) (hother : g.textAt namer spot = some other) :
    f = g := by
  cases spot with
  | metadata => cases f <;> cases htext
  | element name => cases f <;> cases htext
  | entry name var => cases f <;> cases htext
  | replicas =>
    obtain ⟨field, rfl⟩ := textAt_replicas htext
    obtain ⟨field', rfl⟩ := textAt_replicas hother
    rw [hsingle.replicas field field' hf hg]
  | resource name requested suffix =>
    obtain ⟨field, -, rfl, hpath, -⟩ := textAt_resource htext
    obtain ⟨field', -, rfl, hpath', -⟩ := textAt_resource hother
    rw [hsingle.container field field' hf hg (hpath.trans hpath'.symm)]
  | value name var =>
    obtain ⟨field, rfl, hpath, hname⟩ := textAt_value htext
    obtain ⟨field', rfl, hpath', hname'⟩ := textAt_value hother
    rw [hsingle.envVar field field' hf hg (hpath.trans hpath'.symm) (hname.trans hname'.symm)]

end TunableField

/-- The data of the patch of one resource's fields, rendered with the fields' baselines. -/
structure IsBaselinePatch (namer : Namer) (bindings : Bindings) (found : List TunableField)
    (data : Json) : Prop where
  placed : ∀ f ∈ found, f.IsPlaced
  tunable : ∀ f ∈ found, f.suffixes ≠ []
  single : OnePerPlace found
  name_plain : ∀ f ∈ found, ∀ suffix ∈ f.suffixes,
    IsPlainName (namer.name f.target f.path suffix)
  bound : ∀ f ∈ found, ∀ p ∈ f.parameters namer, bindings.get? p.name = p.baseline
  data : ∃ fragments, List.Forall₂ (fun f fragment => f.patch namer = .ok fragment) found fragments ∧
    IsData bindings fragments data

namespace IsBaselinePatch

variable {namer : Namer} {bindings : Bindings} {found : List TunableField} {data tree : Json}

variable (h : IsBaselinePatch namer bindings found data)
include h

theorem overlays (spot : Spot) : data.Overlays spot.location := by
  obtain ⟨fragments, hfragments, hdata⟩ := h.data
  apply hdata.overlays
  intro p hp
  obtain ⟨f, hf, hpatch⟩ := exists_left_of_mem hfragments hp
  exact f.overlays_fragment (h.placed f hf) (h.tunable f hf) hpatch spot

theorem reach?_kept (spot : Spot) (ht : tree.AdmitsAlong spot.location) (hleaf : spot.IsLeaf)
    (hnone : ∀ f ∈ found, f.textAt namer spot = none) :
    (tree.merge data).reach? spot.location = tree.reach? spot.location := by
  obtain ⟨fragments, hfragments, hdata⟩ := h.data
  refine hdata.reach?_kept ht fun p hp => ?_
  obtain ⟨f, hf, hpatch⟩ := exists_left_of_mem hfragments hp
  refine ⟨f.overlays_fragment (h.placed f hf) (h.tunable f hf) hpatch spot, ?_⟩
  rw [f.reach?_fragment (h.placed f hf) (h.tunable f hf) hpatch hleaf, hnone f hf]
  rfl

theorem reach?_written {spot : Spot} (ht : tree.AdmitsAlong spot.location) (hleaf : spot.IsLeaf)
    {f : TunableField} (hf : f ∈ found) {text : String} (htext : f.textAt namer spot = some text)
    {value : Json} (hvalue : renderString bindings text = .ok value) :
    (tree.merge data).reach? spot.location = some value := by
  obtain ⟨fragments, hfragments, hdata⟩ := h.data
  obtain ⟨p, hp, hpatch⟩ := exists_right_of_mem hfragments hf
  refine hdata.reach?_written ht hp ?_ (fun q hq => ?_) hvalue
  · rw [f.reach?_fragment (h.placed f hf) (h.tunable f hf) hpatch hleaf, htext]
    rfl
  · obtain ⟨g, hg, hother⟩ := exists_left_of_mem hfragments hq
    refine ⟨g.overlays_fragment (h.placed g hg) (h.tunable g hg) hother spot, ?_⟩
    intro found hfound
    rw [g.reach?_fragment (h.placed g hg) (h.tunable g hg) hother hleaf] at hfound
    obtain ⟨own, hown, rfl⟩ := Option.map_eq_some_iff.mp hfound
    obtain rfl := TunableField.eq_of_textAt h.single hf hg htext hown
    rw [Option.some.inj (htext.symm.trans hown)]

/-- A container without fields is not in the patch. -/
theorem reach?_element {name : String}
    (hname : ∀ f ∈ found, f.element? ≠ some (.ofElement containersKeys name)) :
    data.reach? (Spot.element name).location = none := by
  obtain ⟨fragments, hfragments, hdata⟩ := h.data
  refine hdata.reach?_eq_none fun p hp => ?_
  obtain ⟨f, hf, hpatch⟩ := exists_left_of_mem hfragments hp
  exact ⟨f.overlays_fragment (h.placed f hf) (h.tunable f hf) hpatch _,
    f.reach?_fragment_element (h.placed f hf) (h.tunable f hf) hpatch (hname f hf)⟩

/-- The entry of a variable without a field is left as it is. -/
theorem reach?_entry_kept {name var : String}
    (ht : tree.AdmitsAlong (Spot.entry name var).location)
    (hentry : ∀ f, .envVar f ∈ found → f.path = .ofElement containersKeys name → f.name ≠ var) :
    (tree.merge data).reach? (Spot.entry name var).location =
      tree.reach? (Spot.entry name var).location := by
  obtain ⟨fragments, hfragments, hdata⟩ := h.data
  refine hdata.reach?_kept ht fun p hp => ?_
  obtain ⟨f, hf, hpatch⟩ := exists_left_of_mem hfragments hp
  refine ⟨f.overlays_fragment (h.placed f hf) (h.tunable f hf) hpatch _,
    f.reach?_fragment_entry (h.placed f hf) (h.tunable f hf) hpatch ?_⟩
  rintro field rfl hpath
  exact hentry field hf hpath

/-! ### The values that are written -/

theorem reach?_replicas {f : ReplicaField} (ht : tree.AdmitsAlong Spot.replicas.location)
    (hf : .replicas f ∈ found) : ∃ count, f.baseline? = some count ∧
      (tree.merge data).reach? Spot.replicas.location = some (.ofInt count.toInt) := by
  have htunable : f.suffixes ≠ [] := h.tunable _ hf
  cases hbaseline : f.baseline? with
  | none => simp [ReplicaField.suffixes, hbaseline] at htunable
  | some count =>
    have hsuffix : ReplicaField.suffix ∈ f.suffixes := by
      simp [ReplicaField.suffixes, hbaseline]
    have hbound := h.bound _ hf
      (.integer (namer.name f.target f.path ReplicaField.suffix) 1 (Max.max count 5) count)
      (by simp [TunableField.parameters, ReplicaField.parameters, hbaseline])
    exact ⟨count, rfl, h.reach?_written ht trivial hf rfl
      (Template.renderString_placeholder (h.name_plain _ hf _ hsuffix) hbound)⟩

theorem reach?_resource {f : ContainerField} {b : ResourceBaseline} {name suffix : String}
    {requested : Bool} (ht : tree.AdmitsAlong (Spot.resource name requested suffix).location)
    (hf : .container f ∈ found) (hpath : f.path = .ofElement containersKeys name)
    (hb : f.baselineFor? suffix = some b) :
    (tree.merge data).reach? (Spot.resource name requested suffix).location =
      some (.string (toString b.settled.value ++ b.unit)) := by
  have hmem : b ∈ f.baselines := List.mem_of_find?_eq_some hb
  have hbound := h.bound _ hf _ (List.mem_map.mpr ⟨b, hmem, rfl⟩)
  have hunit : b.unit ≠ "" := by
    rcases (ContainerField.baseline_cases hmem).2 with ⟨-, hunit, -⟩ | ⟨-, hunit, -⟩
    · rw [hunit]
      decide
    · rw [hunit]
      cases f.unit <;> decide
  have htext : (TunableField.container f).textAt namer (.resource name requested suffix) =
      some (Template.placeholder (namer.name f.target f.path b.suffix) ++ b.unit) := by
    simp [TunableField.textAt, hpath, hb]
  exact h.reach?_written ht trivial hf htext
    (Template.renderString_placeholder_unit (h.name_plain _ hf _ (List.mem_map_of_mem hmem))
      (TunableField.unit_isLiteral hmem) hunit hbound)

theorem reach?_value {f : VariableField} {name : String}
    (ht : tree.AdmitsAlong (Spot.value name f.name).location) (hf : .envVar f ∈ found)
    (hpath : f.path = .ofElement containersKeys name) : ∃ text, f.settled.value = some text ∧
      (tree.merge data).reach? (Spot.value name f.name).location = some (.string text) := by
  have htunable : f.suffixes ≠ [] := h.tunable _ hf
  have hplain := h.name_plain _ hf
  have htext : (TunableField.envVar f).textAt namer (.value name f.name) =
      some (Template.placeholder (namer.name f.target f.valuePath f.suffix)) := by
    simp [TunableField.textAt, hpath]
  have hsuffix : f.suffix ∈ f.suffixes := by
    cases hvalues : f.values with
    | nil => simp [VariableField.suffixes, hvalues] at htunable
    | cons first rest => simp [VariableField.suffixes, hvalues]
  obtain ⟨text, hsettled, hbound⟩ : ∃ text, f.settled.value = some text ∧
      bindings.get? (namer.name f.target f.valuePath f.suffix) = some (.string text) := by
    have hall := h.bound _ hf
    simp only [TunableField.parameters, VariableField.parameters] at hall
    cases hvalues : f.values with
    | nil => simp [VariableField.suffixes, hvalues] at htunable
    | cons first rest =>
      cases hvalue : f.value with
      | none =>
        rw [hvalues, hvalue] at hall
        exact ⟨first, by simp [VariableField.settled, hvalue, hvalues],
          hall _ List.mem_cons_self⟩
      | some value =>
        rw [hvalues, hvalue] at hall
        exact ⟨value, by simp [VariableField.settled, hvalue], hall _ List.mem_cons_self⟩
  exact ⟨text, hsettled, h.reach?_written ht trivial hf htext
    (Template.renderString_placeholder (hplain _ hsuffix) hbound)⟩

end IsBaselinePatch

end WorkloadTuning
