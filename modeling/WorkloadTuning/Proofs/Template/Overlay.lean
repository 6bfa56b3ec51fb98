import WorkloadTuning.Proofs.Template.Location

/-! Patches that are merged from fragments, rendered, and merged into a tree. A location that no
fragment reaches keeps its value; where the fragments that reach it have one text, the tree gets
what that text is rendered to. -/

namespace WorkloadTuning

namespace Json

/-- The fragments merged one after another. -/
def mergeAll (fragments : List Json) : Option Json :=
  fragments.foldl
    (fun merged fragment => some (match merged with
      | none => fragment
      | some old => old.merge fragment)) none

/-- What holds of the fragments, and of two patches merged, holds of them all merged. -/
theorem mergeAll_keeps {P : Json → Prop} {fragments : List Json} {merged : Json}
    (hfragment : ∀ p ∈ fragments, P p) (hmerge : ∀ old p, P old → P p → P (old.merge p))
    (h : mergeAll fragments = some merged) : P merged := by
  have hfold : ∀ (l : List Json) (start : Option Json), (∀ p ∈ l, P p) →
      (∀ old, start = some old → P old) → l.foldl (fun merged fragment =>
        some (match merged with
          | none => fragment
          | some old => old.merge fragment)) start = some merged → P merged := by
    intro l
    induction l with
    | nil =>
      intro start _ hstart hend
      exact hstart merged hend
    | cons p rest ih =>
      intro start hl hstart hend
      have hp := hl p List.mem_cons_self
      refine ih _ (fun q hq => hl q (List.mem_cons_of_mem _ hq)) ?_ hend
      rintro _ ⟨⟩
      cases start with
      | none => exact hp
      | some old => exact hmerge old p (hstart old rfl) hp
  exact hfold fragments none hfragment (by simp) h

theorem mergeAll_append_cons (before after : List Json) (p : Json) :
    mergeAll (before ++ p :: after) =
      some (after.foldl merge (match mergeAll before with
        | none => p
        | some old => old.merge p)) := by
  have hsome : ∀ (l : List Json) (start : Json), l.foldl (fun merged fragment =>
      some (match merged with
        | none => fragment
        | some old => old.merge fragment)) (some start) = some (l.foldl merge start) := by
    intro l
    induction l with
    | nil => exact fun _ => rfl
    | cons q rest ih => exact fun start => ih (start.merge q)
  rw [mergeAll, List.foldl_append, List.foldl_cons, hsome]
  rfl

theorem mergeAll_eq_none {fragments : List Json} (h : mergeAll fragments = none) :
    fragments = [] := by
  cases fragments with
  | nil => rfl
  | cons p rest =>
    have hsome := mergeAll_append_cons [] rest p
    rw [List.nil_append, h] at hsome
    cases hsome

/-! ### One location -/

variable {location : Location} {text : String}

/-- At the location the patch has the text, or nothing. -/
structure WritesOnly (patch : Json) (location : Location) (text : String) : Prop where
  overlays : patch.Overlays location
  value : ∀ value, patch.reach? location = some value → value = string text

theorem reach?_merge_text {target patch : Json} (h : patch.Overlays location)
    (ht : target.AdmitsAlong location) (htext : patch.reach? location = some (string text)) :
    (target.merge patch).reach? location = some (string text) := by
  rcases reach?_merge_some h ht htext with ⟨-, hmerged⟩ | hmerged
  · exact hmerged
  · exact hmerged

theorem WritesOnly.merge {old patch : Json} (hold : old.WritesOnly location text)
    (h : patch.WritesOnly location text) : (old.merge patch).WritesOnly location text where
  overlays := merge_overlays (.inr hold.overlays) h.overlays
  value := by
    intro merged hmerged
    cases hpatch : patch.reach? location with
    | none =>
      rw [reach?_merge_none h.overlays hold.overlays.admitsAlong hpatch] at hmerged
      exact hold.value merged hmerged
    | some value =>
      obtain rfl := h.value value hpatch
      rw [reach?_merge_text h.overlays hold.overlays.admitsAlong hpatch] at hmerged
      exact (Option.some.inj hmerged).symm

/-- A text that is there stays when patches are merged that have no other there. -/
theorem reach?_merge_kept {old patch : Json} (hold : old.WritesOnly location text)
    (h : patch.WritesOnly location text) (htext : old.reach? location = some (string text)) :
    (old.merge patch).reach? location = some (string text) := by
  cases hpatch : patch.reach? location with
  | none => rw [reach?_merge_none h.overlays hold.overlays.admitsAlong hpatch, htext]
  | some value =>
    obtain rfl := h.value value hpatch
    exact reach?_merge_text h.overlays hold.overlays.admitsAlong hpatch

theorem reach?_mergeAll_none {fragments : List Json} {merged : Json}
    (h : mergeAll fragments = some merged)
    (hnone : ∀ p ∈ fragments, p.Overlays location ∧ p.reach? location = none) :
    merged.Overlays location ∧ merged.reach? location = none := by
  refine mergeAll_keeps hnone ?_ h
  rintro old p ⟨hold, holdNone⟩ ⟨hp, hpNone⟩
  exact ⟨merge_overlays (.inr hold) hp,
    (reach?_merge_none hp hold.admitsAlong hpNone).trans holdNone⟩

theorem reach?_mergeAll_text {fragments : List Json} {merged p : Json}
    (h : mergeAll fragments = some merged) (hp : p ∈ fragments)
    (htext : p.reach? location = some (string text))
    (hwrites : ∀ q ∈ fragments, q.WritesOnly location text) :
    merged.Overlays location ∧ merged.reach? location = some (string text) := by
  refine ⟨(mergeAll_keeps hwrites (fun _ _ hold hq => hold.merge hq) h).overlays, ?_⟩
  obtain ⟨before, after, rfl⟩ := List.append_of_mem hp
  have hpWrites := hwrites p hp
  -- The first part ends with the fragment that has the text, and the others keep it.
  have hkept : ∀ (l : List Json) (start : Json), (∀ q ∈ l, q.WritesOnly location text) →
      start.WritesOnly location text → start.reach? location = some (string text) →
      (l.foldl merge start).reach? location = some (string text) := by
    intro l
    induction l with
    | nil => exact fun _ _ _ hstart => hstart
    | cons q rest ih =>
      intro start hl hstart hreach
      have hq := hl q List.mem_cons_self
      exact ih _ (fun x hx => hl x (List.mem_cons_of_mem _ hx)) (hstart.merge hq)
        (reach?_merge_kept hstart hq hreach)
  rw [mergeAll_append_cons] at h
  obtain rfl := Option.some.inj h
  have hafter : ∀ q ∈ after, q.WritesOnly location text :=
    fun q hq => hwrites q (by simp [hq])
  cases hbefore : mergeAll before with
  | none => exact hkept after p hafter hpWrites htext
  | some old =>
    have hold : old.WritesOnly location text :=
      mergeAll_keeps (fun q hq => hwrites q (by simp [hq])) (fun _ _ hold hq => hold.merge hq)
        hbefore
    exact hkept after _ hafter (hold.merge hpWrites)
      (reach?_merge_text hpWrites.overlays hold.overlays.admitsAlong htext)

end Json

/-! ### Rendered patches -/

namespace Template

open Json

variable {bindings : Bindings} {fragments : List Json} {data tree : Json} {location : Location}
  {text : String}

/-- The data of a patch operation: the fragments merged and then rendered. -/
def IsData (bindings : Bindings) (fragments : List Json) (data : Json) : Prop :=
  ∃ merged, mergeAll fragments = some merged ∧ render bindings merged = .ok data

theorem merge_renderString {value : Json} (h : renderString bindings text = .ok value)
    (target : Json) : target.merge value = value := by
  obtain ⟨parts, -, h⟩ := bind_eq_ok.mp h
  split at h
  · obtain ⟨bound, -, rfl⟩ := map_eq_ok.mp h
    cases bound <;> rfl
  · obtain ⟨texts, -, h⟩ := bind_eq_ok.mp h
    obtain rfl := Except.ok.inj h
    rfl

theorem IsData.overlays (h : IsData bindings fragments data)
    (hoverlays : ∀ p ∈ fragments, p.Overlays location) : data.Overlays location := by
  obtain ⟨merged, hmerged, hrender⟩ := h
  refine overlays_rendered (mergeAll_keeps hoverlays ?_ hmerged) hrender
  exact fun old p hold hp => merge_overlays (.inr hold) hp

theorem IsData.reach?_eq_none (h : IsData bindings fragments data)
    (hnone : ∀ p ∈ fragments, p.Overlays location ∧ p.reach? location = none) :
    data.reach? location = none := by
  obtain ⟨merged, hmerged, hrender⟩ := h
  obtain ⟨hoverlays, hreach⟩ := reach?_mergeAll_none hmerged hnone
  have hrel := reach?_render hoverlays hrender
  rw [hreach] at hrel
  cases hdata : data.reach? location with
  | none => rfl
  | some value =>
    rw [hdata] at hrel
    cases hrel

/-- A location that no fragment reaches. -/
theorem IsData.reach?_kept (h : IsData bindings fragments data)
    (htree : tree.AdmitsAlong location)
    (hnone : ∀ p ∈ fragments, p.Overlays location ∧ p.reach? location = none) :
    (tree.merge data).reach? location = tree.reach? location :=
  reach?_merge_none (h.overlays fun p hp => (hnone p hp).1) htree (h.reach?_eq_none hnone)

/-- A location where a fragment has a text and no other fragment has another. -/
theorem IsData.reach?_written (h : IsData bindings fragments data)
    (htree : tree.AdmitsAlong location) {p : Json} (hp : p ∈ fragments)
    (htext : p.reach? location = some (string text))
    (hwrites : ∀ q ∈ fragments, q.WritesOnly location text) {value : Json}
    (hvalue : renderString bindings text = .ok value) :
    (tree.merge data).reach? location = some value := by
  have hdata := h.overlays fun q hq => (hwrites q hq).overlays
  obtain ⟨merged, hmerged, hrender⟩ := h
  obtain ⟨hoverlays, hreach⟩ := reach?_mergeAll_text hmerged hp htext hwrites
  have hrel := reach?_render hoverlays hrender
  rw [hreach] at hrel
  cases hfound : data.reach? location with
  | none =>
    rw [hfound] at hrel
    cases hrel
  | some found =>
    rw [hfound] at hrel
    obtain ⟨hrendered⟩ := hrel
    unfold render at hrendered
    obtain rfl : value = found := Except.ok.inj (hvalue.symm.trans hrendered)
    rcases reach?_merge_some hdata htree hfound with ⟨-, hnew⟩ | hnew
    · exact hnew
    · rw [hnew, merge_renderString hvalue]

end Template

end WorkloadTuning
