import WorkloadTuning.Proofs.Json.Fields

/-! The same patch applied again. An element that a patch adds to a list is taken over as it is,
with the removals in it, and the next application carries these out. So a repeated patch changes
nothing if and only if it adds no removals, and from the second application on nothing changes in
any case. -/

namespace WorkloadTuning.Json

/-! ### Documents by their parts -/

mutual

/-- What passes from the parts of a document to the whole holds of every document. -/
@[elab_as_elim]
theorem byParts {P : Json → Prop}
    (scalar : ∀ json, json.asObject? = none → json.asArray? = none → P json)
    (list : ∀ items, (∀ item ∈ items, P item) → P (array items))
    (map : ∀ members : Members, (∀ e ∈ members, P e.2) → P (object members)) :
    (json : Json) → P json
  | object members => map members (byMembers scalar list map members)
  | array items => list items (byItems scalar list map items)
  | null => scalar _ rfl rfl
  | bool _ => scalar _ rfl rfl
  | number _ => scalar _ rfl rfl
  | string _ => scalar _ rfl rfl

theorem byMembers {P : Json → Prop}
    (scalar : ∀ json, json.asObject? = none → json.asArray? = none → P json)
    (list : ∀ items, (∀ item ∈ items, P item) → P (array items))
    (map : ∀ members : Members, (∀ e ∈ members, P e.2) → P (object members)) :
    (members : List (String × Json)) → ∀ e ∈ members, P e.2
  | [] => nofun
  | (_, value) :: rest =>
    List.forall_mem_cons.mpr ⟨byParts scalar list map value, byMembers scalar list map rest⟩

theorem byItems {P : Json → Prop}
    (scalar : ∀ json, json.asObject? = none → json.asArray? = none → P json)
    (list : ∀ items, (∀ item ∈ items, P item) → P (array items))
    (map : ∀ members : Members, (∀ e ∈ members, P e.2) → P (object members)) :
    (items : List Json) → ∀ item ∈ items, P item
  | [] => nofun
  | item :: rest =>
    List.forall_mem_cons.mpr ⟨byParts scalar list map item, byItems scalar list map rest⟩

end

theorem merge_scalar {json : Json} (hobject : json.asObject? = none) (harray : json.asArray? = none)
    (target : Json) : target.merge json = json := by
  cases json with
  | object members => cases hobject
  | array items => cases harray
  | _ => rfl

/-! ### Distinct names, and removals -/

mutual

/-- The elements of each list of named elements have distinct names, at any depth. -/
def HasDistinctNames : Json → Prop
  | object members => HasDistinctNamesMembers members
  | array items =>
    (isNamedList items = true → (items.map name?).Nodup) ∧ HasDistinctNamesItems items
  | null | bool _ | number _ | string _ => True

def HasDistinctNamesMembers : List (String × Json) → Prop
  | [] => True
  | (_, value) :: rest => HasDistinctNames value ∧ HasDistinctNamesMembers rest

def HasDistinctNamesItems : List Json → Prop
  | [] => True
  | item :: rest => HasDistinctNames item ∧ HasDistinctNamesItems rest

end

mutual

/-- No member is `null`, in the document itself or in the elements of lists that merge by name. -/
def HasNoRemovals : Json → Prop
  | object members => HasNoRemovalsMembers members
  | array items => isNamedList items = true → HasNoRemovalsItems items
  | null | bool _ | number _ | string _ => True

def HasNoRemovalsMembers : List (String × Json) → Prop
  | [] => True
  | (_, value) :: rest => (value ≠ null ∧ HasNoRemovals value) ∧ HasNoRemovalsMembers rest

def HasNoRemovalsItems : List Json → Prop
  | [] => True
  | item :: rest => HasNoRemovals item ∧ HasNoRemovalsItems rest

end

/-- The elements that a list of named elements is merged with. -/
def namedElements (json : Json) : List Json :=
  match json.asArray? with
  | some items => if isNamedList items then items else []
  | none => []

/-- The element that an element of the patch is merged into, if there is one. -/
def counterpart? (existing : List Json) (item : Json) : Option Json :=
  item.name?.bind (findNamed? existing)

mutual

/-- The elements that the patch has for lists of named elements and that the target does not have
are without removals. -/
def AddsNoRemovals (target : Json) : Json → Prop
  | object fields => AddsNoRemovalsMembers target fields
  | array items => isNamedList items = true → AddsNoRemovalsItems target.namedElements items
  | null | bool _ | number _ | string _ => True

def AddsNoRemovalsMembers (target : Json) : List (String × Json) → Prop
  | [] => True
  | (key, value) :: rest =>
    AddsNoRemovals ((target.get? key).getD null) value ∧ AddsNoRemovalsMembers target rest

def AddsNoRemovalsItems (existing : List Json) : List Json → Prop
  | [] => True
  | item :: rest =>
    (match counterpart? existing item with
      | none => item.HasNoRemovals
      | some found => AddsNoRemovals found item) ∧ AddsNoRemovalsItems existing rest

end

section Parts
variable {members fields : Members} {items : List Json} {target : Json}

theorem hasDistinctNames_object :
    (object members).HasDistinctNames ↔ ∀ e ∈ members, e.2.HasDistinctNames := by
  rw [HasDistinctNames]
  induction members with
  | nil => simp [HasDistinctNamesMembers]
  | cons e rest ih => simp [HasDistinctNamesMembers, ih]

theorem hasDistinctNames_array : (array items).HasDistinctNames ↔
    (isNamedList items = true → (items.map name?).Nodup) ∧
      ∀ item ∈ items, item.HasDistinctNames := by
  have hitems : HasDistinctNamesItems items ↔ ∀ item ∈ items, item.HasDistinctNames := by
    induction items with
    | nil => simp [HasDistinctNamesItems]
    | cons item rest ih => simp [HasDistinctNamesItems, ih]
  rw [HasDistinctNames, hitems]

theorem hasNoRemovals_object : (object members).HasNoRemovals ↔
    ∀ e ∈ members, e.2 ≠ null ∧ e.2.HasNoRemovals := by
  rw [HasNoRemovals]
  induction members with
  | nil => simp [HasNoRemovalsMembers]
  | cons e rest ih => simp [HasNoRemovalsMembers, ih]

theorem hasNoRemovals_array : (array items).HasNoRemovals ↔
    (isNamedList items = true → ∀ item ∈ items, item.HasNoRemovals) := by
  have hitems : HasNoRemovalsItems items ↔ ∀ item ∈ items, item.HasNoRemovals := by
    induction items with
    | nil => simp [HasNoRemovalsItems]
    | cons item rest ih => simp [HasNoRemovalsItems, ih]
  rw [HasNoRemovals, hitems]

theorem addsNoRemovals_scalar {json : Json} (hobject : json.asObject? = none)
    (harray : json.asArray? = none) (target : Json) : target.AddsNoRemovals json := by
  cases json with
  | object members => cases hobject
  | array items => cases harray
  | _ => trivial

theorem addsNoRemovals_object : target.AddsNoRemovals (object fields) ↔
    ∀ e ∈ fields, ((target.get? e.1).getD null).AddsNoRemovals e.2 := by
  rw [AddsNoRemovals]
  induction fields with
  | nil => simp [AddsNoRemovalsMembers]
  | cons e rest ih => simp [AddsNoRemovalsMembers, ih]

theorem addsNoRemovals_array : target.AddsNoRemovals (array items) ↔
    (isNamedList items = true → ∀ item ∈ items,
      match counterpart? target.namedElements item with
      | none => item.HasNoRemovals
      | some found => found.AddsNoRemovals item) := by
  have hitems : AddsNoRemovalsItems target.namedElements items ↔ ∀ item ∈ items,
      match counterpart? target.namedElements item with
      | none => item.HasNoRemovals
      | some found => found.AddsNoRemovals item := by
    induction items with
    | nil => simp [AddsNoRemovalsItems]
    | cons item rest ih => rw [AddsNoRemovalsItems, ih, List.forall_mem_cons]
  rw [AddsNoRemovals, hitems]

end Parts

/-! ### Distinct keys in merged documents -/

section Keys
variable {target patch : Json} {name : String}

theorem HasDistinctKeys.members (h : target.HasDistinctKeys) :
    (Members.keys (target.asObject?.getD [])).Nodup ∧
      ∀ e ∈ target.asObject?.getD [], e.2.HasDistinctKeys := by
  cases target with
  | object members => exact hasDistinctKeys_object.mp h
  | _ => exact ⟨List.nodup_nil, nofun⟩

theorem HasDistinctKeys.namedElements (h : target.HasDistinctKeys) :
    ∀ item ∈ target.namedElements, item.HasDistinctKeys := by
  cases target with
  | array items =>
    intro item hitem
    refine hasDistinctKeys_array.mp h item ?_
    rw [Json.namedElements] at hitem
    dsimp only [asArray?] at hitem
    split at hitem
    · exact hitem
    · cases hitem
  | _ => nofun

theorem HasDistinctKeys.getD (h : target.HasDistinctKeys) (key : String) :
    ((target.get? key).getD null).HasDistinctKeys := by
  cases hvalue : target.get? key with
  | none => trivial
  | some value => exact h.get? hvalue

/-- What holds of all members, and is kept by the merges into them, holds of the merged members. -/
theorem forall_mergeMembers {P : Json → Prop} {ms fields : Members} (hnull : P null)
    (hms : ∀ e ∈ ms, P e.2) (hmerge : ∀ e ∈ fields, ∀ old : Json, P old → P (old.merge e.2)) :
    ∀ e ∈ mergeMembers ms fields, P e.2 := by
  induction fields generalizing ms with
  | nil => exact hms
  | cons e rest ih =>
    obtain ⟨key, value⟩ := e
    obtain ⟨hvalue, hrest⟩ := List.forall_mem_cons.mp hmerge
    have hold : P ((ms.get? key).getD null) := by
      cases hfound : ms.get? key with
      | none => exact hnull
      | some old => exact hms _ (Members.mem_of_get? hfound)
    rw [mergeMembers]
    refine ih (fun x hx => ?_) hrest
    split at hx
    · exact hms x (Members.mem_of_mem_erase hx)
    · rcases Members.mem_set hx with rfl | hx
      · exact hvalue _ hold
      · exact hms x hx

theorem HasDistinctKeys.merge (ht : target.HasDistinctKeys) (hp : patch.HasDistinctKeys) :
    (target.merge patch).HasDistinctKeys := by
  induction patch using byParts generalizing target with
  | scalar patch hobject harray =>
    rw [merge_scalar hobject harray]
    exact hp
  | list items ih =>
    have hitems := hasDistinctKeys_array.mp hp
    rw [merge_array]
    split
    · next existing hexisting =>
      obtain rfl := eq_array_of_asArray? hexisting
      split
      · exact hasDistinctKeys_array.mpr (forall_mergeItems (hasDistinctKeys_array.mp ht) hitems
          fun x hx _ hold => ih x hx hold (hitems x hx))
      · exact hp
    · exact hp
  | map fields ih =>
    obtain ⟨-, hfields⟩ := hasDistinctKeys_object.mp hp
    obtain ⟨hkeys, hmembers⟩ := ht.members
    exact hasDistinctKeys_object.mpr ⟨mergeMembers_keys_nodup hkeys fields,
      forall_mergeMembers trivial hmembers fun e he _ hold => ih e he hold (hfields e he)⟩

theorem name?_merge_distinct (ht : target.HasDistinctKeys) (hp : patch.HasDistinctKeys)
    (hname : patch.name? = some name) : (target.merge patch).name? = some name := by
  rw [name?_eq_some_iff] at hname ⊢
  cases patch with
  | object fields =>
    have hget := get?_mergeMembers_distinct ht.members.1 (hasDistinctKeys_object.mp hp).1 mergeKey
    rw [show Members.get? fields mergeKey = some (string name) from hname] at hget
    exact hget
  | _ => cases hname

end Keys

/-- Nothing of the document is told from another part only by its order. -/
structure HasDistinctParts (json : Json) : Prop where
  keys : json.HasDistinctKeys
  names : json.HasDistinctNames

theorem HasDistinctParts.member {fields : Members} (h : (object fields).HasDistinctParts)
    {e : String × Json} (he : e ∈ fields) : e.2.HasDistinctParts :=
  ⟨(hasDistinctKeys_object.mp h.keys).2 e he, hasDistinctNames_object.mp h.names e he⟩

theorem HasDistinctParts.item {items : List Json} (h : (array items).HasDistinctParts)
    {item : Json} (hitem : item ∈ items) : item.HasDistinctParts :=
  ⟨hasDistinctKeys_array.mp h.keys item hitem, (hasDistinctNames_array.mp h.names).2 item hitem⟩

/-! ### Lists of named elements -/

section Items
variable {items existing : List Json} {item : Json} {name : String}

theorem HasDistinctParts.mergesInto (h : (array items).HasDistinctParts)
    (hnamed : isNamedList items = true) (hexisting : ∀ item ∈ existing, item.HasDistinctKeys) :
    MergesInto items existing where
  names_nodup := (hasDistinctNames_array.mp h.names).1 hnamed
  named := hnamed
  keeps_name _ hitem _ hname found hfound :=
    name?_merge_distinct (hexisting found (mem_of_findNamed? hfound)) (h.item hitem).keys hname

theorem counterpart?_eq (hname : item.name? = some name) :
    counterpart? existing item = findNamed? existing name := by
  rw [counterpart?, hname, Option.bind_some]

theorem mem_of_counterpart? {found : Json} (h : counterpart? existing item = some found) :
    found ∈ existing := by
  obtain ⟨name, -, hfound⟩ := Option.bind_eq_some_iff.mp h
  exact mem_of_findNamed? hfound

/-- The element that a merged list has for an element of the patch. -/
def mergedElement (existing : List Json) (item : Json) : Json :=
  match counterpart? existing item with
  | none => item
  | some found => found.merge item

theorem MergesInto.counterpart?_mergeItems (h : MergesInto items existing) (hitem : item ∈ items) :
    counterpart? (mergeItems existing items) item = some (mergedElement existing item) := by
  obtain ⟨name, hname⟩ := exists_name_of_mem h.named hitem
  have hpatched := findNamed?_of_mem h.names_nodup hitem hname
  rw [counterpart?_eq hname, findNamed?_mergeItems h, hpatched]
  cases hfound : findNamed? existing name <;>
    simp [mergedElement, counterpart?_eq hname, hfound]

/-- Elements are merged into a list that has them already, and into no other without a change. -/
theorem MergesInto.mergeItems_eq_self_iff (h : MergesInto items existing) {child : Json → Json}
    (hchild : ∀ item ∈ items, counterpart? existing item = some (child item)) :
    mergeItems existing items = existing ↔ ∀ item ∈ items, (child item).merge item = child item := by
  constructor
  · intro hsame item hitem
    have hfound := h.counterpart?_mergeItems hitem
    rw [hsame, mergedElement, hchild item hitem] at hfound
    exact (Option.some.inj hfound).symm
  · intro habsorbs
    refine mergeItems_of_findNamed? fun item hitem => ?_
    obtain ⟨name, hname⟩ := exists_name_of_mem h.named hitem
    have hfound := hchild item hitem
    rw [counterpart?_eq hname] at hfound
    exact ⟨name, child item, hname, hfound, habsorbs item hitem⟩

theorem isNamedList_namedElements (json : Json) : isNamedList json.namedElements = true := by
  rw [namedElements]
  split
  · split
    · assumption
    · rfl
  · rfl

theorem namedElements_array (h : isNamedList items = true) :
    (array items).namedElements = items :=
  if_pos h

theorem updateNamed_of_new {key : Option String} (h : key ∉ existing.map name?)
    (f : Json → Json) (fresh : Json) :
    updateNamed key f fresh existing = existing ++ [fresh] := by
  induction existing with
  | nil => rfl
  | cons x rest ih =>
    obtain ⟨hne, hrest⟩ := not_or.mp fun hmem => h (List.mem_cons.mpr hmem)
    rw [updateNamed, if_neg (Ne.symm hne), ih hrest, List.cons_append]

theorem mergeItems_of_new (hnodup : (existing.map name? ++ items.map name?).Nodup) :
    mergeItems existing items = existing ++ items := by
  induction items generalizing existing with
  | nil => rw [mergeItems, List.append_nil]
  | cons item rest ih =>
    have hnew : item.name? ∉ existing.map name? := fun hmem =>
      (List.nodup_append.mp hnodup).2.2 _ hmem _ List.mem_cons_self rfl
    rw [mergeItems, updateNamed_of_new hnew, ih, List.append_assoc]
    · rfl
    · rwa [List.map_append, List.append_assoc]

/-- A list of distinct names that replaces the target is merged into the empty list. -/
theorem merge_array_named (target : Json) (hne : items ≠ []) (hnamed : isNamedList items = true)
    (hnodup : (items.map name?).Nodup) :
    target.merge (array items) = array (mergeItems target.namedElements items) := by
  have hempty : items.isEmpty = false := by simpa using hne
  have hreplaced : mergeItems [] items = items := by
    rw [mergeItems_of_new (by simpa using hnodup), List.nil_append]
  rw [merge_array, namedElements, hempty, hnamed]
  cases target.asArray? with
  | none => exact congrArg array hreplaced.symm
  | some existing =>
    cases hexisting : isNamedList existing with
    | true => simp [hexisting]
    | false => simp [hexisting, hreplaced]

/-- A list that is merged into the target once is there. -/
theorem HasDistinctParts.namedElements_merge {target : Json} (h : (array items).HasDistinctParts)
    (ht : target.HasDistinctKeys) (hne : items ≠ []) (hnamed : isNamedList items = true) :
    target.merge (array items) = array (mergeItems target.namedElements items) ∧
      (target.merge (array items)).namedElements = mergeItems target.namedElements items := by
  have hinto := h.mergesInto hnamed ht.namedElements
  have hmerged := merge_array_named target hne hnamed hinto.names_nodup
  refine ⟨hmerged, ?_⟩
  rw [hmerged]
  exact namedElements_array (hinto.isNamedList_mergeItems (isNamedList_namedElements target))

theorem HasDistinctParts.merge_array_again_iff {target : Json} (h : (array items).HasDistinctParts)
    (ht : target.HasDistinctKeys) :
    (target.merge (array items)).merge (array items) = target.merge (array items) ↔
      (isNamedList items = true → ∀ item ∈ items,
        (mergedElement target.namedElements item).merge item =
          mergedElement target.namedElements item) := by
  by_cases hreplaced : items = [] ∨ isNamedList items = false
  · rw [merge_array_replaced _ hreplaced, merge_array_replaced _ hreplaced]
    refine iff_of_true rfl fun hnamed => ?_
    rcases hreplaced with rfl | hunnamed
    · nofun
    · rw [hunnamed] at hnamed
      cases hnamed
  · obtain ⟨hne, hnamed⟩ := not_or.mp hreplaced
    rw [Bool.not_eq_false] at hnamed
    have hinto := h.mergesInto hnamed ht.namedElements
    have hagain := h.mergesInto hnamed (ht.merge h.keys).namedElements
    obtain ⟨hmerged, helements⟩ := h.namedElements_merge ht hne hnamed
    rw [helements] at hagain
    rw [merge_array_named (target.merge (array items)) hne hnamed hinto.names_nodup, helements,
      hmerged, Json.array.injEq, imp_iff_right hnamed]
    exact hagain.mergeItems_eq_self_iff fun item hitem => hinto.counterpart?_mergeItems hitem

end Items

/-! ### Repeated patches -/

theorem patched?_self_iff {value : Json} :
    patched? (some value) (some value) = some value ↔ value ≠ null ∧ value.merge value = value := by
  by_cases hvalue : value = null
  · subst hvalue
    simp [patched?]
  · rw [patched?_of_ne_null _ hvalue, Option.getD_some, Option.some.injEq]
    exact (and_iff_right hvalue).symm

theorem patched?_patched?_iff {old : Option Json} {value : Json} :
    patched? (patched? old (some value)) (some value) = patched? old (some value) ↔
      (value ≠ null → ((old.getD null).merge value).merge value = (old.getD null).merge value) := by
  by_cases hvalue : value = null
  · subst hvalue
    simp [patched?]
  · rw [patched?_of_ne_null _ hvalue, patched?_of_ne_null _ hvalue, Option.getD_some,
      Option.some.injEq, imp_iff_right hvalue]

/-- A document absorbs itself as a patch if and only if it holds no removals. -/
theorem merge_self_iff {p : Json} (h : p.HasDistinctParts) : p.merge p = p ↔ p.HasNoRemovals := by
  induction p using byParts with
  | scalar p hobject harray =>
    refine iff_of_true (merge_scalar hobject harray p) ?_
    cases p with
    | object members => cases hobject
    | array items => cases harray
    | _ => trivial
  | list items ih =>
    have hagain := h.merge_array_again_iff (show null.HasDistinctKeys from trivial)
    rw [show null.merge (array items) = array items from rfl] at hagain
    rw [hagain, hasNoRemovals_array]
    refine imp_congr_right fun hnamed => forall₂_congr fun item hitem => ?_
    obtain ⟨name, hname⟩ := exists_name_of_mem hnamed hitem
    rw [mergedElement, counterpart?_eq hname]
    exact ih item hitem (h.item hitem)
  | map members ih =>
    have hnodup := (hasDistinctKeys_object.mp h.keys).1
    rw [hasNoRemovals_object]
    show object (mergeMembers members members) = _ ↔ _
    rw [Json.object.injEq, mergeMembers_eq_self_iff hnodup hnodup]
    refine forall₂_congr fun e he => ?_
    rw [(Members.get?_eq_some_iff hnodup).mpr he, patched?_self_iff, ih e he (h.member he)]

/-- Applying the patch again changes nothing if and only if it adds no removals. -/
theorem merge_merge_self_iff {target p : Json} (ht : target.HasDistinctKeys)
    (h : p.HasDistinctParts) :
    (target.merge p).merge p = target.merge p ↔ target.AddsNoRemovals p := by
  induction p using byParts generalizing target with
  | scalar p hobject harray =>
    refine iff_of_true ?_ (addsNoRemovals_scalar hobject harray target)
    rw [merge_scalar hobject harray, merge_scalar hobject harray]
  | list items ih =>
    rw [h.merge_array_again_iff ht, addsNoRemovals_array]
    refine imp_congr_right fun hnamed => forall₂_congr fun item hitem => ?_
    rw [mergedElement]
    -- An element that was added meets itself, any other is merged a second time.
    cases hold : counterpart? target.namedElements item with
    | none => exact merge_self_iff (h.item hitem)
    | some old =>
      exact ih item hitem (ht.namedElements old (mem_of_counterpart? hold)) (h.item hitem)
  | map fields ih =>
    have hnodup := (hasDistinctKeys_object.mp h.keys).1
    have hms := ht.members.1
    have hmerged := mergeMembers_keys_nodup hms fields
    rw [addsNoRemovals_object]
    show object (mergeMembers (mergeMembers (target.asObject?.getD []) fields) fields) =
      object (mergeMembers (target.asObject?.getD []) fields) ↔ _
    rw [Json.object.injEq, mergeMembers_eq_self_iff hmerged hnodup]
    refine forall₂_congr fun e he => ?_
    have hget := get?_mergeMembers_distinct hms hnodup e.1
    rw [(Members.get?_eq_some_iff hnodup).mpr he, ← get?_eq_asObject?] at hget
    rw [hget, patched?_patched?_iff, ih e he (ht.getD e.1) (h.member he)]
    refine ⟨fun hadds => ?_, fun hadds _ => hadds⟩
    by_cases hvalue : e.2 = null
    · rw [hvalue]
      trivial
    · exact hadds hvalue

/-- A document has all the elements that it has as a patch. -/
theorem addsNoRemovals_self {p : Json} (h : p.HasDistinctParts) : p.AddsNoRemovals p := by
  induction p using byParts with
  | scalar p hobject harray => exact addsNoRemovals_scalar hobject harray p
  | list items ih =>
    refine addsNoRemovals_array.mpr fun hnamed item hitem => ?_
    obtain ⟨name, hname⟩ := exists_name_of_mem hnamed hitem
    have hnodup := (hasDistinctNames_array.mp h.names).1 hnamed
    rw [namedElements_array hnamed, counterpart?_eq hname, findNamed?_of_mem hnodup hitem hname]
    exact ih item hitem (h.item hitem)
  | map members ih =>
    refine addsNoRemovals_object.mpr fun e he => ?_
    have hget : (object members).get? e.1 = some e.2 :=
      (Members.get?_eq_some_iff h.keys.members.1).mpr he
    rw [hget]
    exact ih e he (h.member he)

/-- Once a patch is applied, nothing in it is new. -/
theorem addsNoRemovals_merge {target p : Json} (ht : target.HasDistinctKeys)
    (h : p.HasDistinctParts) : (target.merge p).AddsNoRemovals p := by
  induction p using byParts generalizing target with
  | scalar p hobject harray => exact addsNoRemovals_scalar hobject harray _
  | list items ih =>
    refine addsNoRemovals_array.mpr fun hnamed item hitem => ?_
    have hinto := h.mergesInto hnamed ht.namedElements
    rw [(h.namedElements_merge ht (List.ne_nil_of_mem hitem) hnamed).2,
      hinto.counterpart?_mergeItems hitem, mergedElement]
    cases hold : counterpart? target.namedElements item with
    | none => exact addsNoRemovals_self (h.item hitem)
    | some old =>
      exact ih item hitem (ht.namedElements old (mem_of_counterpart? hold)) (h.item hitem)
  | map fields ih =>
    refine addsNoRemovals_object.mpr fun e he => ?_
    by_cases hvalue : e.2 = null
    · rw [hvalue]
      trivial
    · have hnodup := (hasDistinctKeys_object.mp h.keys).1
      have hget : (target.merge (object fields)).get? e.1 =
          patched? (target.get? e.1) (some e.2) := by
        rw [get?_eq_asObject? target, ← (Members.get?_eq_some_iff hnodup).mpr he]
        exact get?_mergeMembers_distinct ht.members.1 hnodup e.1
      rw [hget, patched?_of_ne_null _ hvalue, Option.getD_some]
      exact ih e he (ht.getD e.1) (h.member he)

/-- A patch that is applied a second time changes nothing if and only if it adds no removals, and
applied a third time it changes nothing. -/
theorem merge_repeated {target p : Json} (ht : target.HasDistinctKeys)
    (hkeys : p.HasDistinctKeys) (hnames : p.HasDistinctNames) :
    ((target.merge p).merge p = target.merge p ↔ target.AddsNoRemovals p) ∧
      ((target.merge p).merge p).merge p = (target.merge p).merge p := by
  have h : p.HasDistinctParts := ⟨hkeys, hnames⟩
  refine ⟨merge_merge_self_iff ht h, ?_⟩
  exact (merge_merge_self_iff (ht.merge hkeys) h).mpr (addsNoRemovals_merge ht h)

/-- A pod of one container. -/
def podDocument : Json := .object [("containers", .array [
  .object [("name", .string "app"), ("image", .string "app:1"), ("tty", .bool true)]])]

/-- One container loses a member and another is added. -/
def sidecarPatch : Json := .object [("containers", .array [
  .object [("name", .string "app"), ("tty", .null)],
  .object [("name", .string "proxy"), ("args", .array [.null])]])]

theorem sidecarPatch_repeated :
    podDocument.HasDistinctKeys ∧ sidecarPatch.HasDistinctKeys ∧ sidecarPatch.HasDistinctNames ∧
    podDocument.merge sidecarPatch = .object [("containers", .array [
      .object [("name", .string "app"), ("image", .string "app:1")],
      .object [("name", .string "proxy"), ("args", .array [.null])]])] ∧
    (podDocument.merge sidecarPatch).merge sidecarPatch = podDocument.merge sidecarPatch := by
  have ht : podDocument.HasDistinctKeys := by decide
  have hkeys : sidecarPatch.HasDistinctKeys := by decide
  have hnames : sidecarPatch.HasDistinctNames := by
    refine ⟨⟨fun _ => by decide, ?_⟩, trivial⟩
    exact ⟨⟨trivial, trivial, trivial⟩,
      ⟨trivial, ⟨fun _ => by decide, trivial, trivial⟩, trivial⟩, trivial⟩
  have hadds : podDocument.AddsNoRemovals sidecarPatch := by
    refine ⟨fun _ => ⟨?_, ?_, trivial⟩, trivial⟩
    · exact ⟨trivial, trivial, trivial⟩
    · exact ⟨⟨by decide, trivial⟩, ⟨by decide, (nomatch ·)⟩, trivial⟩
  exact ⟨ht, hkeys, hnames, by decide, (merge_repeated ht hkeys hnames).1.mpr hadds⟩

/-- A container that is added with a removal in it. -/
def cleanedSidecarPatch : Json := .object [("containers", .array [
  .object [("name", .string "proxy"), ("image", .null)]])]

/-- The removal stands in the document until the patch is applied again. -/
theorem cleanedSidecarPatch_changes :
    podDocument.HasDistinctKeys ∧ podDocument.HasDistinctNames ∧
    cleanedSidecarPatch.HasDistinctKeys ∧ cleanedSidecarPatch.HasDistinctNames ∧
    podDocument.merge cleanedSidecarPatch = .object [("containers", .array [
      .object [("name", .string "app"), ("image", .string "app:1"), ("tty", .bool true)],
      .object [("name", .string "proxy"), ("image", .null)]])] ∧
    (podDocument.merge cleanedSidecarPatch).merge cleanedSidecarPatch =
      .object [("containers", .array [
        .object [("name", .string "app"), ("image", .string "app:1"), ("tty", .bool true)],
        .object [("name", .string "proxy")]])] ∧
    (podDocument.merge cleanedSidecarPatch).merge cleanedSidecarPatch ≠
      podDocument.merge cleanedSidecarPatch := by
  refine ⟨by decide, ?_, by decide, ?_, by decide, by decide, by decide⟩
  · exact ⟨⟨fun _ => by decide, ⟨trivial, trivial, trivial, trivial⟩, trivial⟩, trivial⟩
  · exact ⟨⟨fun _ => by decide, ⟨trivial, trivial, trivial⟩, trivial⟩, trivial⟩

end WorkloadTuning.Json
