import WorkloadTuning.Proofs.Json.Repetition

/-! Lists of named elements under the structural merge. Names that are distinct in the document and
in the patch are distinct in what comes out, at any depth. Where two such lists meet, the elements
of the document stay in their places and in order, merged or as they are, and what only the patch
has comes behind them in the order of the patch. -/

namespace WorkloadTuning.Json

/-! ### The elements of a merged list -/

section Elements
variable {items existing : List Json} {item found fresh : Json} {key : Option String}
  {f : Json → Json} {i : Nat}

/-- An element of another name stays where it is. -/
theorem getElem?_updateNamed (hfound : existing[i]? = some found) (hne : found.name? ≠ key) :
    (updateNamed key f fresh existing)[i]? = some found := by
  induction existing generalizing i with
  | nil => cases hfound
  | cons first rest ih =>
    simp only [updateNamed]
    cases i with
    | zero =>
      obtain rfl : first = found := by simpa using hfound
      rw [if_neg hne]
      rfl
    | succ i =>
      split
      · exact hfound
      · exact ih hfound

/-- An element that the patch does not name stays where it is. -/
theorem getElem?_mergeItems (hfound : existing[i]? = some found)
    (hne : found.name? ∉ items.map name?) : (mergeItems existing items)[i]? = some found := by
  induction items generalizing existing with
  | nil => exact hfound
  | cons item rest ih =>
    obtain ⟨hfirst, hrest⟩ := not_or.mp fun h => hne (List.mem_cons.mpr h)
    exact ih (getElem?_updateNamed hfound hfirst) hrest

end Elements

/-! ### Distinct names in merged documents -/

section Names
variable {target patch value next : Json} {key : String}

theorem HasDistinctParts.members (h : target.HasDistinctParts) :
    ∀ e ∈ target.asObject?.getD [], e.2.HasDistinctParts := by
  cases target with
  | object members => exact fun e he => h.member he
  | _ => nofun

theorem HasDistinctParts.get? (h : target.HasDistinctParts)
    (hvalue : target.get? key = some value) : value.HasDistinctParts := by
  cases target with
  | object members => exact h.member (Members.mem_of_get? hvalue)
  | _ => cases hvalue

/-- What the patch has under a key is merged into what the target has there. -/
theorem get?_merge_distinct (ht : target.HasDistinctKeys) (hp : patch.HasDistinctKeys)
    (hvalue : target.get? key = some value) (hnext : patch.get? key = some next)
    (hne : next ≠ null) : (target.merge patch).get? key = some (value.merge next) := by
  cases patch with
  | object fields =>
    have hget := get?_mergeMembers_distinct ht.members.1 (hasDistinctKeys_object.mp hp).1 key
    rw [← get?_eq_asObject?, hvalue, show Members.get? fields key = some next from hnext,
      patched?_of_ne_null _ hne] at hget
    exact hget
  | _ => cases hnext

theorem HasDistinctParts.merge (ht : target.HasDistinctParts) (hp : patch.HasDistinctParts) :
    (target.merge patch).HasDistinctParts := by
  induction patch using byParts generalizing target with
  | scalar patch hobject harray =>
    rw [merge_scalar hobject harray]
    exact hp
  | list items ih =>
    rw [merge_array]
    split
    · next existing hexisting =>
      obtain rfl := eq_array_of_asArray? hexisting
      split
      · next hmerged =>
        simp only [Bool.and_eq_true] at hmerged
        obtain ⟨⟨-, hnamed⟩, hexistingNamed⟩ := hmerged
        have hinto := hp.mergesInto hnamed fun item hitem => (ht.item hitem).keys
        have hparts := forall_mergeItems (fun _ hx => ht.item hx) (fun _ hx => hp.item hx)
          fun x hx _ hold => ih x hx hold (hp.item hx)
        have hnames := (hasDistinctNames_array.mp ht.names).1 hexistingNamed
        exact ⟨hasDistinctKeys_array.mpr fun x hx => (hparts x hx).keys,
          hasDistinctNames_array.mpr ⟨fun _ => hinto.nodup_names_mergeItems hnames,
            fun x hx => (hparts x hx).names⟩⟩
      · exact hp
    · exact hp
  | map fields ih =>
    have hparts := forall_mergeMembers ⟨trivial, trivial⟩ ht.members
      fun e he _ hold => ih e he hold (hp.member he)
    exact ⟨hasDistinctKeys_object.mpr ⟨mergeMembers_keys_nodup ht.keys.members.1 fields,
      fun e he => (hparts e he).keys⟩, hasDistinctNames_object.mpr fun e he => (hparts e he).names⟩

end Names

/-! ### Where a patch meets a document -/

/-- The values of a document and of a patch meet at the root, in members of one key, and in elements
of one name of two lists of named elements. -/
inductive Meets : Json → Json → Location → Json → Json → Prop where
  | root (target patch : Json) : Meets target patch [] target patch
  | member {target patch old new : Json} {key : String} {rest : Location} {a b : Json} :
    target.get? key = some old → patch.get? key = some new → Meets old new rest a b →
      Meets target patch (.member key :: rest) a b
  | element {existing items : List Json} {old new : Json} {name : String} {rest : Location}
      {a b : Json} :
    isNamedList existing = true → isNamedList items = true →
      findNamed? existing name = some old → findNamed? items name = some new →
      Meets old new rest a b → Meets (array existing) (array items) (.named name :: rest) a b

namespace Meets

variable {target patch old new : Json} {location : Location}

/-- Where the patch goes on, it removes nothing. -/
theorem ne_null (h : Meets target patch location old new) (hnew : new ≠ null) : patch ≠ null := by
  cases h with
  | root => exact hnew
  | member _ hpatch _ =>
    rintro rfl
    cases hpatch
  | element => exact nofun

/-- The values that meet are merged at their location. -/
theorem reach?_merge (h : Meets target patch location old new) (ht : target.HasDistinctParts)
    (hp : patch.HasDistinctParts) (hnew : new ≠ null) :
    (target.merge patch).reach? location = some (old.merge new) := by
  induction h with
  | root => rfl
  | member hvalue hnext hrest ih =>
    have hget := get?_merge_distinct ht.keys hp.keys hvalue hnext (hrest.ne_null hnew)
    simp only [reach?, enter?, hget, Option.bind_some]
    exact ih (ht.get? hvalue) (hp.get? hnext) hnew
  | @element _ _ _ _ name _ _ _ hexisting hitems hvalue hnext _ ih =>
    have hinto := hp.mergesInto hitems fun item hitem => (ht.item hitem).keys
    have hne := List.ne_nil_of_mem (mem_of_findNamed? hnext)
    have hfind := findNamed?_mergeItems hinto name
    rw [hvalue, hnext] at hfind
    rw [merge_array_array hne hitems hexisting]
    simp only [reach?, enter?, asArray?, hfind, Option.bind_some]
    exact ih (ht.item (mem_of_findNamed? hvalue)) (hp.item (mem_of_findNamed? hnext)) hnew

/-- What meets in documents of distinct parts has distinct parts. -/
theorem hasDistinctParts (h : Meets target patch location old new) (ht : target.HasDistinctParts)
    (hp : patch.HasDistinctParts) : old.HasDistinctParts ∧ new.HasDistinctParts := by
  induction h with
  | root => exact ⟨ht, hp⟩
  | member hvalue hnext _ ih => exact ih (ht.get? hvalue) (hp.get? hnext)
  | element _ _ hvalue hnext _ ih =>
    exact ih (ht.item (mem_of_findNamed? hvalue)) (hp.item (mem_of_findNamed? hnext))

end Meets

/-- Merging loses, duplicates and reorders no named elements: names that are distinct stay distinct,
and where two lists of named elements meet, the new elements are put behind the old ones, of which
those that the patch does not name stay as they are. -/
theorem merge_keeps_elements {target patch : Json} (htarget : target.HasDistinctKeys)
    (hpatch : patch.HasDistinctKeys) (htargetNames : target.HasDistinctNames)
    (hpatchNames : patch.HasDistinctNames) :
    (target.merge patch).HasDistinctNames ∧
    ∀ location existing items, Meets target patch location (array existing) (array items) →
      isNamedList existing = true → isNamedList items = true → items ≠ [] →
      ∃ merged, (target.merge patch).reach? location = some (array merged) ∧
        merged.map name? =
          existing.map name? ++ (items.map name?).filter (· ∉ existing.map name?) ∧
        ∀ (i : Nat) (old : Json), existing[i]? = some old → old.name? ∉ items.map name? →
          merged[i]? = some old := by
  have ht : target.HasDistinctParts := ⟨htarget, htargetNames⟩
  have hp : patch.HasDistinctParts := ⟨hpatch, hpatchNames⟩
  refine ⟨(ht.merge hp).names, fun location existing items hmeets hexisting hitems hne => ?_⟩
  obtain ⟨hold, hnew⟩ := hmeets.hasDistinctParts ht hp
  have hinto := hnew.mergesInto hitems fun item hitem => (hold.item hitem).keys
  refine ⟨mergeItems existing items, ?_, hinto.names_mergeItems, fun i old hold hother => ?_⟩
  · rw [hmeets.reach?_merge ht hp nofun, merge_array_array hne hitems hexisting]
  · exact getElem?_mergeItems hold hother

/-- The variables of the first container. -/
def podVariables : List Json :=
  [.object [("name", .string "A"), ("value", .string "1")],
    .object [("name", .string "B"), ("value", .string "2")]]

/-- Two containers, one of them with variables. -/
def podOfTwo : Json := .object [("containers", .array [
  .object [("name", .string "app"), ("image", .string "app:1"), ("env", .array podVariables)],
  .object [("name", .string "sidecar"), ("image", .string "proxy")]])]

/-- The second variable loses its value, and a third one is new. -/
def variableChanges : List Json :=
  [.object [("name", .string "C"), ("value", .string "3")],
    .object [("value", .null), ("name", .string "B")]]

/-- A third container comes before the changes of the first. -/
def podChanges : Json := .object [("containers", .array [
  .object [("name", .string "extra"), ("image", .string "extra:1")],
  .object [("env", .array variableChanges), ("name", .string "app")]])]

theorem podChanges_keep_elements :
    podOfTwo.HasDistinctKeys ∧ podChanges.HasDistinctKeys ∧ podOfTwo.HasDistinctNames ∧
    podChanges.HasDistinctNames ∧ (podOfTwo.merge podChanges).HasDistinctNames ∧
    Meets podOfTwo podChanges [.member "containers", .named "app", .member "env"]
      (array podVariables) (array variableChanges) ∧
    ∃ merged, (podOfTwo.merge podChanges).reach?
        [.member "containers", .named "app", .member "env"] = some (array merged) ∧
      merged.map name? = [some "A", some "B", some "C"] ∧ merged[0]? = podVariables[0]? := by
  have htarget : podOfTwo.HasDistinctKeys := by decide
  have hpatch : podChanges.HasDistinctKeys := by decide
  have htargetNames : podOfTwo.HasDistinctNames := by
    simp +decide [podOfTwo, podVariables, HasDistinctNames, HasDistinctNamesMembers,
      HasDistinctNamesItems]
  have hpatchNames : podChanges.HasDistinctNames := by
    simp +decide [podChanges, variableChanges, HasDistinctNames, HasDistinctNamesMembers,
      HasDistinctNamesItems]
  have hmeets : Meets podOfTwo podChanges [.member "containers", .named "app", .member "env"]
      (array podVariables) (array variableChanges) :=
    .member rfl rfl (.element rfl rfl rfl rfl (.member rfl rfl (.root _ _)))
  obtain ⟨hnames, hkept⟩ := merge_keeps_elements htarget hpatch htargetNames hpatchNames
  obtain ⟨merged, hmerged, horder, hsame⟩ := hkept _ _ _ hmeets rfl rfl (List.cons_ne_nil _ _)
  refine ⟨htarget, hpatch, htargetNames, hpatchNames, hnames, hmeets, merged, hmerged, ?_, ?_⟩
  · rw [horder]
    decide
  · exact hsame 0 _ rfl (by decide)

end WorkloadTuning.Json
