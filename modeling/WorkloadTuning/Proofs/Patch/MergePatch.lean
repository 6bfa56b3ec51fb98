import WorkloadTuning.Patch.Application
import WorkloadTuning.Proofs.Json.Composition
import WorkloadTuning.Proofs.Json.Repetition

/-! Structural merge against JSON merge patch. Both go through the members of a patch in the same
way, so they can only differ where the patch has a list of named elements. -/

namespace WorkloadTuning

namespace Json

variable {f g : Json → Json → Json} {ms fields : Members} {key : String} {value : Json}

/-! ### Members under any overlay -/

/-- The members of a patch, one after another. -/
def overlayMembers (f : Json → Json → Json) (ms fields : Members) : Members :=
  fields.foldl (fun ms e => overlayMember f ms e.1 e.2) ms

theorem overlayMembers_cons (f : Json → Json → Json) (ms : Members) (e : String × Json)
    (rest : Members) :
    overlayMembers f ms (e :: rest) = overlayMembers f (overlayMember f ms e.1 e.2) rest :=
  rfl

theorem overlayMembers_congr (h : ∀ e ∈ fields, ∀ old, f old e.2 = g old e.2) (ms : Members) :
    overlayMembers f ms fields = overlayMembers g ms fields := by
  induction fields generalizing ms with
  | nil => rfl
  | cons e rest ih =>
    obtain ⟨hfirst, hrest⟩ := List.forall_mem_cons.mp h
    rw [overlayMembers_cons, overlayMembers_cons, overlayMember, overlayMember, hfirst]
    exact ih hrest _

theorem mergeMembers_eq_overlayMembers (ms fields : Members) :
    mergeMembers ms fields = overlayMembers merge ms fields := by
  induction fields generalizing ms with
  | nil => rfl
  | cons e rest ih => exact ih _

theorem mergePatchMembers_eq_overlayMembers (ms fields : Members) :
    mergePatchMembers ms fields = overlayMembers mergePatch ms fields := by
  induction fields generalizing ms with
  | nil => rfl
  | cons e rest ih => exact ih _

theorem get?_overlayMembers_of_not_mem (hms : ms.keys.Nodup) (hkey : key ∉ fields.keys) :
    (overlayMembers f ms fields).get? key = ms.get? key := by
  induction fields generalizing ms with
  | nil => rfl
  | cons e rest ih =>
    obtain ⟨hne, hrest⟩ := not_or.mp fun h => hkey (List.mem_cons.mpr h)
    rw [overlayMembers_cons, ih (overlayMember_keys_nodup f hms e.1 e.2) hrest,
      get?_overlayMember f hms, if_neg hne]

/-- Under the key of a member stands what the overlay makes of the values there. -/
theorem get?_overlayMembers (hms : ms.keys.Nodup) (hfields : fields.keys.Nodup)
    (hmem : (key, value) ∈ fields) (hvalue : value ≠ null) :
    (overlayMembers f ms fields).get? key = some (f ((ms.get? key).getD null) value) := by
  induction fields generalizing ms with
  | nil => cases hmem
  | cons e rest ih =>
    obtain ⟨hnew, hrest⟩ := List.nodup_cons.mp hfields
    rw [overlayMembers_cons]
    rcases List.mem_cons.mp hmem with rfl | hmem
    · rw [get?_overlayMembers_of_not_mem (overlayMember_keys_nodup f hms key value) hnew,
        get?_overlayMember f hms, if_pos rfl, ne_null_iff.mp hvalue]
      rfl
    · have hne : key ≠ e.1 := by
        rintro rfl
        exact hnew (List.mem_map.mpr ⟨_, hmem, rfl⟩)
      rw [ih (overlayMember_keys_nodup f hms e.1 e.2) hrest hmem, get?_overlayMember f hms,
        if_neg hne]

/-! ### Merge patches -/

/-- The rules of JSON merge patch. What is no object replaces the target. An object is overlaid
member by member, on an empty object if the target is none. -/
structure IsMergePatch (f : Json → Json → Json) : Prop where
  replaces : ∀ target {patch : Json}, patch.asObject? = none → f target patch = patch
  overlays : ∀ (target : Json) (fields : Members),
    f target (object fields) = object (overlayMembers f (target.asObject?.getD []) fields)

theorem mergePatch_isMergePatch : IsMergePatch mergePatch where
  replaces _ patch h := by
    cases patch with
    | object fields => cases h
    | _ => rfl
  overlays _ _ := congrArg object (mergePatchMembers_eq_overlayMembers _ _)

/-- The value is in the document, reached by member names alone. -/
inductive Reaches : Json → Json → Prop where
  | whole (json : Json) : Reaches json json
  | member {members : Members} {e : String × Json} {part : Json} :
    e ∈ members → Reaches e.2 part → Reaches (object members) part

/-- Where no list that is reached by member names is one of named elements, the rules come to the
structural merge. -/
theorem IsMergePatch.eq_merge (hf : IsMergePatch f) {patch : Json}
    (h : ∀ items, patch.Reaches (array items) → items = [] ∨ isNamedList items = false)
    (target : Json) : f target patch = target.merge patch := by
  induction patch using byParts generalizing target with
  | scalar patch hobject harray => rw [hf.replaces target hobject, merge_scalar hobject harray]
  | list items ih =>
    rw [hf.replaces target rfl, merge_array_replaced target (h items (.whole _))]
  | map fields ih =>
    have hfields : ∀ e ∈ fields, ∀ old, f old e.2 = old.merge e.2 := fun e he =>
      ih e he fun items hitems => h items (.member he hitems)
    rw [hf.overlays, overlayMembers_congr hfields, ← mergeMembers_eq_overlayMembers]
    rfl

/-! ### Where the two differ -/

theorem length_le_updateNamed (name : Option String) (f : Json → Json) (fresh : Json)
    (items : List Json) : items.length ≤ (updateNamed name f fresh items).length := by
  induction items with
  | nil => exact Nat.zero_le _
  | cons item rest ih =>
    rw [updateNamed]
    split
    · exact Nat.le_refl _
    · exact Nat.succ_le_succ ih

theorem length_le_mergeItems (existing items : List Json) :
    existing.length ≤ (mergeItems existing items).length := by
  induction items generalizing existing with
  | nil => exact Nat.le_refl _
  | cons item rest ih => exact (length_le_updateNamed _ _ _ existing).trans (ih _)

/-- A list of named elements does not replace a longer one. -/
theorem exists_merge_array_ne {items : List Json} (hne : items ≠ [])
    (hnamed : isNamedList items = true) :
    ∃ target : Json, target.merge (array items) ≠ array items := by
  have htwice : isNamedList (items ++ items) = true := by
    rw [isNamedList, List.all_append, ← isNamedList, hnamed]
    rfl
  refine ⟨array (items ++ items), fun heq => ?_⟩
  rw [merge_array_array hne hnamed htwice] at heq
  have hlength := length_le_mergeItems (items ++ items) items
  rw [Json.array.inj heq, List.length_append] at hlength
  have := List.length_pos_iff.mpr hne
  omega

/-- The rules and the structural merge do the same to every document just if the patch reaches no
list of named elements by member names. -/
theorem IsMergePatch.eq_merge_iff (hf : IsMergePatch f) {patch : Json}
    (hkeys : patch.HasDistinctKeys) :
    (∀ target, f target patch = target.merge patch) ↔
      ∀ items, patch.Reaches (array items) → items = [] ∨ isNamedList items = false := by
  refine ⟨fun h items hitems => ?_, fun h => hf.eq_merge h⟩
  generalize hlist : array items = list at hitems
  induction hitems with
  | whole =>
    subst hlist
    by_contra hnamed
    obtain ⟨hne, hnamed⟩ := not_or.mp hnamed
    obtain ⟨target, htarget⟩ := exists_merge_array_ne hne (by simpa using hnamed)
    exact htarget ((h target).symm.trans (hf.replaces target rfl))
  | @member members e part hmem hpart ih =>
    obtain ⟨hdistinct, hvalues⟩ := hasDistinctKeys_object.mp hkeys
    refine ih (hvalues e hmem) (fun old => ?_) hlist
    have hvalue : e.2 ≠ null := by
      rintro heq
      rw [heq] at hpart
      cases hpart
      cases hlist
    -- A document with that one member shows what the two make of the values under its key.
    have hsingle : (Members.keys [(e.1, old)]).Nodup := List.nodup_singleton _
    have hwhole := h (object [(e.1, old)])
    rw [hf.overlays, merge, mergeMembers_eq_overlayMembers] at hwhole
    have hget := congrArg (fun ms => Members.get? ms e.1) (Json.object.inj hwhole)
    simp only [asObject?, Option.getD_some] at hget
    rw [get?_overlayMembers hsingle hdistinct hmem hvalue,
      get?_overlayMembers hsingle hdistinct hmem hvalue] at hget
    simpa [Members.get?_cons] using hget

/-! ### Documents without lists of named elements -/

/-- The value is somewhere in the document. -/
inductive HasPart : Json → Json → Prop where
  | whole (json : Json) : HasPart json json
  | member {members : Members} {e : String × Json} {part : Json} :
    e ∈ members → HasPart e.2 part → HasPart (object members) part
  | item {items : List Json} {item part : Json} :
    item ∈ items → HasPart item part → HasPart (array items) part

/-- Every list of the document is empty or has an element without a name. -/
def NamesNoList (json : Json) : Prop :=
  ∀ items, json.HasPart (array items) → items = [] ∨ ∃ item ∈ items, item.name? = none

theorem Reaches.hasPart {json part : Json} (h : json.Reaches part) : json.HasPart part := by
  induction h with
  | whole json => exact .whole json
  | member hmem _ ih => exact .member hmem ih

theorem namesNoList_scalar {json : Json} (hobject : json.asObject? = none)
    (harray : json.asArray? = none) : json.NamesNoList := by
  intro items hitems
  cases hitems with
  | whole => cases harray
  | member => cases hobject
  | item => cases harray

theorem namesNoList_object {members : Members} :
    (object members).NamesNoList ↔ ∀ e ∈ members, e.2.NamesNoList := by
  refine ⟨fun h e he items hitems => h items (.member he hitems), fun h items hitems => ?_⟩
  cases hitems with
  | member he hpart => exact h _ he items hpart

theorem namesNoList_array {items : List Json} :
    (array items).NamesNoList ↔ (items = [] ∨ ∃ item ∈ items, item.name? = none) ∧
      ∀ item ∈ items, item.NamesNoList := by
  refine ⟨fun h => ⟨h items (.whole _), fun item hitem inner hinner =>
    h inner (.item hitem hinner)⟩, fun h inner hinner => ?_⟩
  cases hinner with
  | whole => exact h.1
  | item hitem hpart => exact h.2 _ hitem inner hpart

theorem NamesNoList.isNamedList_eq_false {json : Json} (h : json.NamesNoList) (items : List Json)
    (hitems : json.Reaches (array items)) : items = [] ∨ isNamedList items = false := by
  refine (h items hitems.hasPart).imp_right fun ⟨item, hitem, hname⟩ => ?_
  rw [isNamedList, List.all_eq_false]
  exact ⟨item, hitem, by simp [hname]⟩

end Json

namespace PatchOperation

/-- Without lists of named elements, a structural patch is a JSON merge patch. -/
theorem applyTo_strategic_eq_merge {op : PatchOperation} (h : op.data.NamesNoList) (tree : Json) :
    { op with kind := .strategic }.applyTo tree = { op with kind := .merge }.applyTo tree ∧
      ∀ {f : Json → Json → Json}, Json.IsMergePatch f →
        { op with kind := .strategic }.applyTo tree = .ok (f tree op.data) := by
  have hrules {f : Json → Json → Json} (hf : Json.IsMergePatch f) :
      f tree op.data = tree.merge op.data := hf.eq_merge h.isNamedList_eq_false tree
  exact ⟨congrArg Except.ok (hrules Json.mergePatch_isMergePatch).symm,
    fun hf => congrArg Except.ok (hrules hf).symm⟩

/-- A patch with a removal, an empty list and a list of texts, where the tree has other shapes. -/
def settingsPatch : PatchOperation :=
  { data := .object [
      ("paused", .null),
      ("strategy", .object [("limits", .object [("surge", .ofInt 1), ("wait", .null)])]),
      ("volumes", .array []),
      ("args", .array [.object [("name", .string "v")], .string "-v"])] }

def settingsTree : Json := .object [
  ("strategy", .string "Recreate"),
  ("paused", .bool true),
  ("args", .array [.object [("name", .string "v"), ("value", .ofInt 2)]]),
  ("volumes", .array [.object [("name", .string "tmp")]])]

theorem settingsPatch_strategic_eq_merge :
    { settingsPatch with kind := .strategic }.applyTo settingsTree =
        { settingsPatch with kind := .merge }.applyTo settingsTree ∧
      { settingsPatch with kind := .strategic }.applyTo settingsTree =
        .ok (settingsTree.mergePatch settingsPatch.data) := by
  have hnull : Json.null.NamesNoList := Json.namesNoList_scalar rfl rfl
  have hint (i : Int) : (Json.ofInt i).NamesNoList := Json.namesNoList_scalar rfl rfl
  have htext (s : String) : (Json.string s).NamesNoList := Json.namesNoList_scalar rfl rfl
  have h : settingsPatch.data.NamesNoList := by
    simp [settingsPatch, Json.namesNoList_object, Json.namesNoList_array, hnull, hint, htext,
      Json.name?, Json.get?, Json.asObject?]
  obtain ⟨hkinds, hrules⟩ := applyTo_strategic_eq_merge h settingsTree
  exact ⟨hkinds, hrules Json.mergePatch_isMergePatch⟩

end PatchOperation

end WorkloadTuning
