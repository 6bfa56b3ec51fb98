import WorkloadTuning.Proofs.Json.Members
import WorkloadTuning.Proofs.Template.Placeholder

/-! Locations in documents and the structural merge seen from one location. A patch that has lists
of named elements and objects where the location passes through it decides what is there as far as
it reaches, and where it does not reach, the target stays as it is. -/

namespace WorkloadTuning

/-- A step into a document: to the member under a key, or to the list element of a name. -/
inductive Step where
  | member (key : String)
  | named (name : String)
deriving DecidableEq, Repr

abbrev Location := List Step

/-! ### Members under merging -/

namespace Members

/-- Keys do not repeat and nothing is `null`, so merging the members sets each of them once. -/
structure IsPlain (ms : Members) : Prop where
  keys_nodup : ms.keys.Nodup
  ne_null : ∀ e ∈ ms, e.2 ≠ Json.null

variable {ms fields : Members}

theorem keys_set (key : String) (value : Json) (ms : Members) :
    (set key value ms).keys = if key ∈ ms.keys then ms.keys else ms.keys ++ [key] := by
  induction ms with
  | nil => simp [set, keys]
  | cons m rest ih =>
    unfold keys at ih
    rw [set_cons]
    split
    · next heq => simp [keys, heq]
    · next hne =>
      by_cases hmem : key ∈ rest.map Prod.fst
      · simp [keys, ih, hmem]
      · simp [keys, ih, hmem, Ne.symm hne]

theorem IsPlain.set (h : ms.IsPlain) {value : Json} (key : String) (hvalue : value ≠ .null) :
    (Members.set key value ms).IsPlain where
  keys_nodup := by
    rw [keys_set]
    split
    · exact h.keys_nodup
    · next hnew => exact List.nodup_append_comm.mp (List.nodup_cons.mpr ⟨hnew, h.keys_nodup⟩)
  ne_null := by
    intro e he
    rcases mem_set he with rfl | he
    · exact hvalue
    · exact h.ne_null e he

theorem IsPlain.tail {e : String × Json} (h : IsPlain (e :: fields)) : IsPlain fields where
  keys_nodup := (List.nodup_cons.mp h.keys_nodup).2
  ne_null := fun x hx => h.ne_null x (List.mem_cons_of_mem _ hx)

theorem IsPlain.head_isNull {e : String × Json} (h : IsPlain (e :: fields)) :
    e.2.isNull = false := by
  have hne := h.ne_null e List.mem_cons_self
  cases hvalue : e.2 <;> first | rfl | exact absurd hvalue hne

theorem IsPlain.get?_head {e : String × Json} (h : IsPlain (e :: fields)) :
    fields.get? e.1 = none := by
  rw [get?, List.lookup_eq_none_iff]
  intro p hp
  have hnot := (List.nodup_cons.mp h.keys_nodup).1
  rw [bne_iff_ne]
  exact fun heq => hnot (heq ▸ List.mem_map_of_mem hp)

end Members

namespace Json

theorem merge_ne_null (target : Json) {patch : Json} (h : patch ≠ .null) :
    target.merge patch ≠ .null := by
  cases patch with
  | null => exact absurd rfl h
  | array items =>
    simp only [merge]
    split
    · split <;> simp
    · simp
  | _ => simp [merge]

/-- Merging plain members merges what is under each key. -/
theorem get?_mergeMembers {ms fields : Members} (h : fields.IsPlain) (key : String) :
    (mergeMembers ms fields).get? key =
      match fields.get? key with
      | none => ms.get? key
      | some value => some (merge ((ms.get? key).getD null) value) := by
  induction fields generalizing ms with
  | nil => rfl
  | cons e rest ih =>
    obtain ⟨k, v⟩ := e
    have hv : v.isNull = false := h.head_isNull
    have hk : Members.get? rest k = none := h.get?_head
    rw [mergeMembers_cons_ite, hv, ih h.tail, Members.get?_cons]
    by_cases hkey : key = k
    · subst hkey
      simp only [hk, Bool.false_eq_true, if_false, if_true]
      exact Members.get?_set_self _ _ _
    · simp only [Bool.false_eq_true, if_false, if_neg hkey, Members.get?_set_ne _ _ hkey]

theorem mergeMembers_isPlain {ms fields : Members} (hms : ms.IsPlain) (h : fields.IsPlain) :
    (mergeMembers ms fields).IsPlain := by
  induction fields generalizing ms with
  | nil => exact hms
  | cons e rest ih =>
    obtain ⟨k, v⟩ := e
    have hv : v.isNull = false := h.head_isNull
    have hne : v ≠ null := h.ne_null (k, v) List.mem_cons_self
    rw [mergeMembers_cons_ite, hv]
    exact ih (hms.set k (merge_ne_null _ hne)) h.tail

/-- An object with plain members. -/
def IsPlainObject (json : Json) : Prop :=
  ∃ ms : Members, json = object ms ∧ ms.IsPlain

theorem get?_eq_asObject? (json : Json) (key : String) :
    json.get? key = (json.asObject?.getD []).get? key := by
  cases json <;> rfl

theorem get?_merge {patch : Json} (target : Json) (h : patch.IsPlainObject) (key : String) :
    (target.merge patch).get? key =
      match patch.get? key with
      | none => target.get? key
      | some value => some (merge ((target.get? key).getD null) value) := by
  obtain ⟨fields, rfl, hfields⟩ := h
  rw [get?_eq_asObject? target]
  exact get?_mergeMembers hfields key

theorem merge_isPlainObject {target patch : Json} (ht : target = null ∨ target.IsPlainObject)
    (h : patch.IsPlainObject) : (target.merge patch).IsPlainObject := by
  obtain ⟨fields, rfl, hfields⟩ := h
  refine ⟨_, rfl, mergeMembers_isPlain ?_ hfields⟩
  rcases ht with rfl | ⟨ms, rfl, hms⟩
  · exact ⟨List.nodup_nil, by simp [asObject?]⟩
  · exact hms

/-! ### Named elements under merging -/

theorem name?_eq_some_iff {json : Json} {name : String} :
    json.name? = some name ↔ json.get? mergeKey = some (string name) := by
  rw [name?, Option.bind_eq_some_iff]
  constructor
  · rintro ⟨value, hvalue, hname⟩
    cases value with
    | string s =>
      obtain rfl := Option.some.inj hname
      exact hvalue
    | _ => cases hname
  · intro h
    exact ⟨_, h, rfl⟩

theorem name?_merge {target patch : Json} {name : String} (h : patch.IsPlainObject)
    (hname : patch.name? = some name) : (target.merge patch).name? = some name := by
  rw [name?_eq_some_iff] at hname ⊢
  rw [get?_merge target h, hname]
  rfl

theorem exists_name_of_mem {items : List Json} {item : Json} (h : isNamedList items = true)
    (hitem : item ∈ items) : ∃ name, item.name? = some name :=
  Option.isSome_iff_exists.mp (List.all_eq_true.mp h item hitem)

/-- Where all elements have names, no two have the same if no name occurs twice. -/
theorem nodup_map_name? {items : List Json} (hnamed : isNamedList items = true)
    (hnodup : (items.filterMap name?).Nodup) : (items.map name?).Nodup := by
  have hsome : items.map name? = (items.filterMap name?).map some := by
    clear hnodup
    induction items with
    | nil => rfl
    | cons item rest ih =>
      simp only [isNamedList, List.all_cons, Bool.and_eq_true] at hnamed
      obtain ⟨name, hname⟩ := Option.isSome_iff_exists.mp hnamed.1
      rw [List.map_cons, List.filterMap_cons_some hname, List.map_cons, ih hnamed.2, hname]
  rw [hsome]
  exact hnodup.map (Option.some_injective String)

/-- The first list element of that name. -/
def findNamed? (items : List Json) (name : String) : Option Json :=
  items.find? fun item => item.name? = some name

theorem findNamed?_cons (item : Json) (rest : List Json) (name : String) :
    findNamed? (item :: rest) name =
      if item.name? = some name then some item else findNamed? rest name := by
  simp only [findNamed?, List.find?_cons]
  split
  · next h => rw [if_pos (by simpa using h)]
  · next h => rw [if_neg (by simpa using h)]

theorem name?_of_findNamed? {items : List Json} {name : String} {item : Json}
    (h : findNamed? items name = some item) : item.name? = some name := by
  simpa using List.find?_some h

theorem mem_of_findNamed? {items : List Json} {name : String} {item : Json}
    (h : findNamed? items name = some item) : item ∈ items :=
  List.mem_of_find?_eq_some h

theorem findNamed?_isSome_iff {items : List Json} {name : String} :
    (findNamed? items name).isSome ↔ some name ∈ items.map name? := by
  rw [findNamed?, List.find?_isSome, List.mem_map]
  constructor
  · rintro ⟨item, hitem, h⟩
    exact ⟨item, hitem, by simpa using h⟩
  · rintro ⟨item, hitem, h⟩
    exact ⟨item, hitem, by simpa using h⟩

/-- With distinct names each element is the one that is found. -/
theorem findNamed?_of_mem {items : List Json} {item : Json} {name : String}
    (hnodup : (items.map name?).Nodup) (hitem : item ∈ items) (hname : item.name? = some name) :
    findNamed? items name = some item := by
  have hsome : (findNamed? items name).isSome :=
    findNamed?_isSome_iff.mpr (hname ▸ List.mem_map_of_mem hitem)
  obtain ⟨found, hfound⟩ := Option.isSome_iff_exists.mp hsome
  have hsame := List.inj_on_of_nodup_map hnodup (mem_of_findNamed? hfound) hitem
    ((name?_of_findNamed? hfound).trans hname.symm)
  rw [hfound, hsame]

section UpdateNamed
variable {name : String} {f : Json → Json} {fresh : Json} {items : List Json}

theorem findNamed?_updateNamed
    (hf : ∀ found, findNamed? items name = some found → (f found).name? = some name)
    (hfresh : fresh.name? = some name) (other : String) :
    findNamed? (updateNamed (some name) f fresh items) other =
      if other = name then
        some (match findNamed? items name with
          | none => fresh
          | some found => f found)
      else findNamed? items other := by
  induction items with
  | nil =>
    rw [updateNamed_nil, findNamed?_cons, hfresh]
    by_cases h : other = name
    · rw [if_pos (by rw [h]), if_pos h]
      rfl
    · rw [if_neg (by simpa using Ne.symm h), if_neg h]
  | cons item rest ih =>
    rw [updateNamed_cons]
    rw [findNamed?_cons] at hf
    by_cases hitem : item.name? = some name
    · rw [if_pos hitem] at hf
      rw [if_pos hitem, findNamed?_cons, findNamed?_cons, findNamed?_cons, hf item rfl, hitem]
      by_cases h : other = name
      · simp [h]
      · simp [h, Ne.symm h]
    · rw [if_neg hitem] at hf
      rw [if_neg hitem, findNamed?_cons, ih hf, findNamed?_cons, findNamed?_cons, if_neg hitem]
      by_cases h : other = name
      · rw [if_neg (by rw [h]; exact hitem), if_pos h, if_pos h]
      · rw [if_neg h, if_neg h]

theorem names_updateNamed
    (hf : ∀ found, findNamed? items name = some found → (f found).name? = some name)
    (hfresh : fresh.name? = some name) : (updateNamed (some name) f fresh items).map name? =
      if some name ∈ items.map name? then items.map name? else items.map name? ++ [some name] := by
  induction items with
  | nil => simp [updateNamed_nil, hfresh]
  | cons item rest ih =>
    rw [updateNamed_cons]
    rw [findNamed?_cons] at hf
    split
    · next h =>
      rw [if_pos h] at hf
      simp [h, hf item rfl]
    · next h =>
      rw [if_neg h] at hf
      simp only [List.map_cons, ih hf, List.mem_cons, Ne.symm h, false_or]
      split <;> rfl

theorem mem_updateNamed {key : Option String} {e : Json}
    (h : e ∈ updateNamed key f fresh items) :
    e = fresh ∨ e ∈ items ∨ ∃ item ∈ items, e = f item := by
  induction items with
  | nil => exact .inl (List.mem_singleton.mp h)
  | cons item rest ih =>
    rw [updateNamed_cons] at h
    split at h
    · rcases List.mem_cons.mp h with rfl | h
      · exact .inr (.inr ⟨item, List.mem_cons_self, rfl⟩)
      · exact .inr (.inl (List.mem_cons_of_mem _ h))
    · rcases List.mem_cons.mp h with rfl | h
      · exact .inr (.inl List.mem_cons_self)
      · rcases ih h with h | h | ⟨x, hx, h⟩
        · exact .inl h
        · exact .inr (.inl (List.mem_cons_of_mem _ h))
        · exact .inr (.inr ⟨x, List.mem_cons_of_mem _ hx, h⟩)

theorem updateNamed_of_findNamed? {child : Json} (hchild : findNamed? items name = some child)
    (hf : f child = child) :
    updateNamed (some name) f fresh items = items := by
  induction items with
  | nil => cases hchild
  | cons item rest ih =>
    rw [findNamed?_cons] at hchild
    rw [updateNamed_cons]
    split at hchild
    · next hname => rw [if_pos hname, Option.some.inj hchild, hf]
    · next hname => rw [if_neg hname, ih hchild]

end UpdateNamed

theorem mergeItems_of_findNamed? {existing items : List Json} (h : ∀ item ∈ items,
    ∃ name child, item.name? = some name ∧ findNamed? existing name = some child ∧
      child.merge item = child) : mergeItems existing items = existing := by
  induction items with
  | nil => rfl
  | cons item rest ih =>
    obtain ⟨name, child, hname, hchild, hsame⟩ := h item List.mem_cons_self
    rw [mergeItems_cons, hname, updateNamed_of_findNamed? hchild hsame]
    exact ih fun item hitem => h item (List.mem_cons_of_mem _ hitem)

/-- What holds of all elements, and is kept by the merges into them, holds of the merged
elements. -/
theorem forall_mergeItems {P : Json → Prop} {existing items : List Json}
    (hexisting : ∀ x ∈ existing, P x) (hitems : ∀ x ∈ items, P x)
    (hmerge : ∀ x ∈ items, ∀ old : Json, P old → P (old.merge x)) :
    ∀ x ∈ mergeItems existing items, P x := by
  induction items generalizing existing with
  | nil => exact hexisting
  | cons item rest ih =>
    obtain ⟨hitem, hrest⟩ := List.forall_mem_cons.mp hitems
    obtain ⟨hhead, htail⟩ := List.forall_mem_cons.mp hmerge
    rw [mergeItems_cons]
    refine ih (fun x hx => ?_) hrest htail
    rcases mem_updateNamed hx with rfl | hx | ⟨found, hfound, rfl⟩
    · exact hitem
    · exact hexisting x hx
    · exact hhead found (hexisting found hfound)

/-- List elements that merge by name: objects of plain members, and names that are told apart and
that rendering leaves as they are. -/
structure IsNamedPatch (items : List Json) : Prop where
  names_nodup : (items.map name?).Nodup
  plain : ∀ item ∈ items, item.IsPlainObject
  literal : ∀ item ∈ items, ∃ name, item.name? = some name ∧ Template.IsLiteral name

namespace IsNamedPatch

variable {items : List Json}

theorem isNamedList (h : IsNamedPatch items) : isNamedList items = true := by
  rw [Json.isNamedList, List.all_eq_true]
  intro item hitem
  obtain ⟨name, hname, -⟩ := h.literal item hitem
  rw [hname]
  rfl

theorem tail {item : Json} (h : IsNamedPatch (item :: items)) : IsNamedPatch items where
  names_nodup := (List.nodup_cons.mp h.names_nodup).2
  plain := fun x hx => h.plain x (List.mem_cons_of_mem _ hx)
  literal := fun x hx => h.literal x (List.mem_cons_of_mem _ hx)

end IsNamedPatch

/-- Elements of distinct names that they keep when they are merged into the list. -/
structure MergesInto (items existing : List Json) : Prop where
  names_nodup : (items.map name?).Nodup
  named : isNamedList items = true
  keeps_name : ∀ item ∈ items, ∀ name, item.name? = some name → ∀ found,
    findNamed? existing name = some found → (found.merge item).name? = some name

theorem IsNamedPatch.mergesInto {items : List Json} (h : IsNamedPatch items)
    (existing : List Json) : MergesInto items existing :=
  ⟨h.names_nodup, h.isNamedList, fun item hitem _ hname _ _ =>
    name?_merge (h.plain item hitem) hname⟩

namespace MergesInto

variable {item : Json} {items existing : List Json}

theorem head_name (h : MergesInto (item :: items) existing) :
    ∃ name, item.name? = some name ∧ findNamed? items name = none := by
  obtain ⟨name, hname⟩ := exists_name_of_mem h.named List.mem_cons_self
  refine ⟨name, hname, ?_⟩
  rw [← Option.not_isSome_iff_eq_none, findNamed?_isSome_iff, ← hname]
  exact (List.nodup_cons.mp h.names_nodup).1

theorem update_name {name : String} (h : MergesInto (item :: items) existing)
    (hname : item.name? = some name) :
    ∀ found, findNamed? existing name = some found → (found.merge item).name? = some name :=
  h.keeps_name item List.mem_cons_self name hname

/-- The other elements have other names, under which nothing has changed. -/
theorem tail {name : String} (h : MergesInto (item :: items) existing)
    (hname : item.name? = some name) :
    MergesInto items (updateNamed (some name) (fun found => found.merge item) item existing) where
  names_nodup := (List.nodup_cons.mp h.names_nodup).2
  named := by
    rw [isNamedList, List.all_eq_true]
    exact fun x hx => List.all_eq_true.mp h.named x (List.mem_cons_of_mem _ hx)
  keeps_name := by
    intro x hx own hown found hfound
    have hne : own ≠ name := by
      rintro rfl
      refine (List.nodup_cons.mp h.names_nodup).1 ?_
      rw [hname, ← hown]
      exact List.mem_map_of_mem hx
    rw [findNamed?_updateNamed (h.update_name hname) hname, if_neg hne] at hfound
    exact h.keeps_name x (List.mem_cons_of_mem _ hx) own hown found hfound

end MergesInto

theorem isNamedList_iff {items : List Json} :
    isNamedList items = true ↔ none ∉ items.map name? := by
  simp only [isNamedList, List.all_eq_true, List.mem_map, not_exists, not_and,
    ← Option.isSome_iff_ne_none]

/-- The names of the old elements come first, and the new names behind them. -/
theorem MergesInto.names_mergeItems {existing items : List Json} (h : MergesInto items existing) :
    (mergeItems existing items).map name? =
      existing.map name? ++ (items.map name?).filter (· ∉ existing.map name?) := by
  induction items generalizing existing with
  | nil => simp [mergeItems_nil]
  | cons item rest ih =>
    obtain ⟨name, hname, hlater⟩ := h.head_name
    have hnames := names_updateNamed (h.update_name hname) hname
    rw [mergeItems_cons, hname, ih (h.tail hname), hnames, List.map_cons, hname]
    by_cases hmem : some name ∈ existing.map name?
    · rw [if_pos hmem, List.filter_cons_of_neg (by simpa using hmem)]
    · rw [if_neg hmem, List.filter_cons_of_pos (by simpa using hmem), List.append_assoc,
        List.singleton_append]
      -- The rest of the patch has no element of the name that has just been added.
      have hother : ∀ other ∈ rest.map name?, other ≠ some name := by
        rintro other hother rfl
        have hsome := findNamed?_isSome_iff.mpr hother
        rw [hlater] at hsome
        cases hsome
      congr 2
      refine List.filter_congr fun other hmem => ?_
      simp [hother other hmem]

theorem MergesInto.nodup_names_mergeItems {existing items : List Json}
    (h : MergesInto items existing) (hexisting : (existing.map name?).Nodup) :
    ((mergeItems existing items).map name?).Nodup := by
  rw [h.names_mergeItems, List.nodup_append]
  refine ⟨hexisting, h.names_nodup.filter _, ?_⟩
  rintro name hold other hnew rfl
  simpa [hold] using List.of_mem_filter hnew

/-- A list of named elements stays one. -/
theorem MergesInto.isNamedList_mergeItems {existing items : List Json}
    (h : MergesInto items existing) (hexisting : isNamedList existing = true) :
    isNamedList (mergeItems existing items) = true := by
  rw [isNamedList_iff, h.names_mergeItems, List.mem_append, not_or]
  refine ⟨isNamedList_iff.mp hexisting, fun hnew => ?_⟩
  exact isNamedList_iff.mp h.named (List.mem_filter.mp hnew).1

theorem findNamed?_mergeItems {existing items : List Json} (h : MergesInto items existing)
    (name : String) :
    findNamed? (mergeItems existing items) name =
      match findNamed? items name with
      | none => findNamed? existing name
      | some item =>
        some (match findNamed? existing name with
          | none => item
          | some found => found.merge item) := by
  induction items generalizing existing with
  | nil => rfl
  | cons item rest ih =>
    obtain ⟨own, hown, hnone⟩ := h.head_name
    rw [mergeItems_cons, hown, ih (h.tail hown), findNamed?_updateNamed (h.update_name hown) hown,
      findNamed?_cons, hown]
    by_cases hname : name = own
    · subst hname
      simp only [hnone, if_true]
    · rw [if_neg hname, if_neg (by simpa using Ne.symm hname)]

theorem names_mergeItems_of_subset {existing items : List Json} (h : IsNamedPatch items)
    (hsub : ∀ item ∈ items, item.name? ∈ existing.map name?) :
    (mergeItems existing items).map name? = existing.map name? := by
  have hnone : (items.map name?).filter (· ∉ existing.map name?) = [] := by
    rw [List.filter_eq_nil_iff]
    intro name hname
    obtain ⟨item, hitem, rfl⟩ := List.mem_map.mp hname
    simpa using hsub item hitem
  rw [(h.mergesInto existing).names_mergeItems, hnone, List.append_nil]

theorem mergeItems_isNamedPatch {existing items : List Json} (he : IsNamedPatch existing)
    (h : IsNamedPatch items) : IsNamedPatch (mergeItems existing items) where
  names_nodup := (h.mergesInto existing).nodup_names_mergeItems he.names_nodup
  plain := forall_mergeItems he.plain h.plain fun x hx _ hold =>
    merge_isPlainObject (.inr hold) (h.plain x hx)
  literal := by
    refine forall_mergeItems he.literal h.literal fun x hx _ _ => ?_
    obtain ⟨name, hname, hliteral⟩ := h.literal x hx
    exact ⟨name, name?_merge (h.plain x hx) hname, hliteral⟩

theorem mergeItems_ne_nil {existing items : List Json} (h : existing ≠ [] ∨ items ≠ []) :
    mergeItems existing items ≠ [] := by
  have hupdate : ∀ key f fresh (l : List Json), updateNamed key f fresh l ≠ [] := by
    intro key f fresh l
    cases l with
    | nil => exact List.cons_ne_nil _ _
    | cons x rest =>
      rw [updateNamed_cons]
      split <;> simp
  induction items generalizing existing with
  | nil => simpa [mergeItems_nil] using h
  | cons item rest ih =>
    rw [mergeItems_cons]
    exact ih (.inl (hupdate _ _ _ _))

theorem merge_array_array {existing items : List Json} (hne : items ≠ [])
    (h : isNamedList items = true) (he : isNamedList existing = true) :
    (array existing).merge (array items) = array (mergeItems existing items) := by
  have hempty : items.isEmpty = false := by simpa using hne
  simp [merge, hempty, h, he]

theorem eq_array_of_asArray? {json : Json} {items : List Json} (h : json.asArray? = some items) :
    json = array items := by
  cases json <;> cases h
  rfl

theorem merge_array (target : Json) (items : List Json) :
    target.merge (array items) = match target.asArray? with
      | some existing =>
        if !items.isEmpty && isNamedList items && isNamedList existing then
          array (mergeItems existing items)
        else array items
      | none => array items := by
  cases target <;> rfl

theorem merge_array_replaced {items : List Json} (target : Json)
    (h : items = [] ∨ isNamedList items = false) : target.merge (array items) = array items := by
  cases target with
  | array existing =>
    rcases h with rfl | h
    · rfl
    · simp [merge, h]
  | _ => rfl

theorem merge_array_of_not_array {target : Json} {items : List Json}
    (h : target.asArray? = none) : target.merge (array items) = array items := by
  cases target <;> first | rfl | cases h

/-! ### One step into merged documents -/

def enter? (json : Json) : Step → Option Json
  | .member key => json.get? key
  | .named name => json.asArray?.bind (findNamed? · name)

/-- The value at a location. -/
def reach? (json : Json) : Location → Option Json
  | [] => some json
  | step :: rest => (json.enter? step).bind (reach? · rest)

/-- The patch has the shape that the step asks for. -/
def Suits (patch : Json) : Step → Prop
  | .member _ => patch.IsPlainObject
  | .named _ => ∃ items, patch = array items ∧ items ≠ [] ∧ IsNamedPatch items

/-- A list that is entered by name has names throughout; without them it would be replaced. -/
def Admits (target : Json) : Step → Prop
  | .member _ => True
  | .named _ => ∀ items, target = array items → isNamedList items = true

theorem Suits.admits {patch : Json} {step : Step} (h : patch.Suits step) : patch.Admits step := by
  cases step with
  | member key => trivial
  | named name =>
    obtain ⟨items, rfl, -, hitems⟩ := h
    rintro _ ⟨⟩
    exact hitems.isNamedList

theorem enter?_merge_none {target patch : Json} {step : Step} (h : patch.Suits step)
    (ht : target.Admits step) (hnone : patch.enter? step = none) :
    (target.merge patch).enter? step = target.enter? step := by
  cases step with
  | member key =>
    have hget := get?_merge target h key
    rw [show patch.get? key = none from hnone] at hget
    exact hget
  | named name =>
    obtain ⟨items, rfl, hne, hitems⟩ := h
    have hfind : findNamed? items name = none := hnone
    cases hexisting : target.asArray? with
    | none =>
      rw [merge_array_of_not_array hexisting]
      simp only [enter?, hexisting, Option.bind_none]
      exact hfind
    | some existing =>
      obtain rfl := eq_array_of_asArray? hexisting
      rw [merge_array_array hne hitems.isNamedList (ht existing rfl)]
      show findNamed? (mergeItems existing items) name = findNamed? existing name
      rw [findNamed?_mergeItems (hitems.mergesInto existing), hfind]

/-- Where the patch enters, its value is merged with the target's; a list element that the target
does not have is taken over as it is. -/
theorem enter?_merge_some {target patch value : Json} {step : Step} (h : patch.Suits step)
    (ht : target.Admits step) (hvalue : patch.enter? step = some value) :
    (target.enter? step = none ∧ (target.merge patch).enter? step = some value) ∨
      (target.merge patch).enter? step = some (merge ((target.enter? step).getD null) value) := by
  cases step with
  | member key =>
    right
    have hget := get?_merge target h key
    rw [show patch.get? key = some value from hvalue] at hget
    exact hget
  | named name =>
    obtain ⟨items, rfl, hne, hitems⟩ := h
    have hfind : findNamed? items name = some value := hvalue
    cases hexisting : target.asArray? with
    | none =>
      left
      rw [merge_array_of_not_array hexisting]
      exact ⟨by simp only [enter?, hexisting, Option.bind_none], hfind⟩
    | some existing =>
      obtain rfl := eq_array_of_asArray? hexisting
      rw [merge_array_array hne hitems.isNamedList (ht existing rfl)]
      have hmerged : findNamed? (mergeItems existing items) name = _ :=
        findNamed?_mergeItems (hitems.mergesInto existing) name
      rw [hfind] at hmerged
      cases hfound : findNamed? existing name with
      | none =>
        rw [hfound] at hmerged
        exact .inl ⟨hfound, hmerged⟩
      | some found =>
        rw [hfound] at hmerged
        right
        show findNamed? (mergeItems existing items) name =
          some (merge ((findNamed? existing name).getD null) value)
        rw [hmerged, hfound]
        rfl

theorem merge_suits {old patch : Json} {step : Step} (hold : old = null ∨ old.Suits step)
    (h : patch.Suits step) : (old.merge patch).Suits step := by
  cases step with
  | member key => exact merge_isPlainObject hold h
  | named name =>
    obtain ⟨items, rfl, hne, hitems⟩ := h
    rcases hold with rfl | ⟨existing, rfl, _, hexisting⟩
    · exact ⟨items, rfl, hne, hitems⟩
    · rw [merge_array_array hne hitems.isNamedList hexisting.isNamedList]
      exact ⟨_, rfl, mergeItems_ne_nil (.inr hne), mergeItems_isNamedPatch hexisting hitems⟩

/-! ### Locations in merged documents -/

/-- The patch has the right shape all along the location, as far as it reaches. -/
def Overlays (patch : Json) : Location → Prop
  | [] => True
  | step :: rest => patch.Suits step ∧ ∀ value, patch.enter? step = some value → value.Overlays rest

/-- Lists that are entered by name along the location have names throughout. -/
def AdmitsAlong (target : Json) : Location → Prop
  | [] => True
  | step :: rest =>
    target.Admits step ∧ ∀ value, target.enter? step = some value → value.AdmitsAlong rest

theorem Overlays.admitsAlong {patch : Json} {location : Location} (h : patch.Overlays location) :
    patch.AdmitsAlong location := by
  induction location generalizing patch with
  | nil => trivial
  | cons step rest ih => exact ⟨h.1.admits, fun value hvalue => ih (h.2 value hvalue)⟩

theorem overlays_append {patch : Json} {first second : Location} :
    patch.Overlays (first ++ second) ↔ patch.Overlays first ∧
      ∀ value, patch.reach? first = some value → value.Overlays second := by
  induction first generalizing patch with
  | nil =>
    constructor
    · intro h
      refine ⟨trivial, fun value hvalue => ?_⟩
      obtain rfl : patch = value := Option.some.inj hvalue
      exact h
    · exact fun h => h.2 patch rfl
  | cons step rest ih =>
    constructor
    · rintro ⟨hsuits, hbelow⟩
      refine ⟨⟨hsuits, fun value hvalue => (ih.mp (hbelow value hvalue)).1⟩, ?_⟩
      intro value hvalue
      obtain ⟨entered, hentered, hrest⟩ := Option.bind_eq_some_iff.mp hvalue
      exact (ih.mp (hbelow entered hentered)).2 value hrest
    · rintro ⟨⟨hsuits, hbelow⟩, hend⟩
      refine ⟨hsuits, fun entered hentered => ih.mpr ⟨hbelow entered hentered, ?_⟩⟩
      intro value hvalue
      exact hend value (Option.bind_eq_some_iff.mpr ⟨entered, hentered, hvalue⟩)

theorem admitsAlong_append {target : Json} {first second : Location}
    (h : target.AdmitsAlong first)
    (hend : ∀ value, target.reach? first = some value → value.AdmitsAlong second) :
    target.AdmitsAlong (first ++ second) := by
  induction first generalizing target with
  | nil => exact hend target rfl
  | cons step rest ih =>
    refine ⟨h.1, fun entered hentered => ih (h.2 entered hentered) fun value hvalue => ?_⟩
    exact hend value (Option.bind_eq_some_iff.mpr ⟨entered, hentered, hvalue⟩)

theorem reach?_append (json : Json) (first second : Location) :
    json.reach? (first ++ second) = (json.reach? first).bind (reach? · second) := by
  induction first generalizing json with
  | nil => rfl
  | cons step rest ih =>
    simp only [List.cons_append, reach?]
    cases json.enter? step with
    | none => rfl
    | some value => exact ih value

theorem enter?_null (step : Step) : null.enter? step = none := by
  cases step <;> rfl

theorem admitsAlong_null (location : Location) : null.AdmitsAlong location := by
  cases location with
  | nil => trivial
  | cons step rest =>
    refine ⟨?_, fun value hvalue => ?_⟩
    · cases step with
      | member key => trivial
      | named name => rintro _ ⟨⟩
    · rw [enter?_null] at hvalue
      cases hvalue

/-- What a step finds, or `null`, admits the rest of the location. -/
theorem AdmitsAlong.getD {target : Json} {step : Step} {rest : Location}
    (h : target.AdmitsAlong (step :: rest)) :
    ((target.enter? step).getD null).AdmitsAlong rest := by
  cases hvalue : target.enter? step with
  | none => exact admitsAlong_null rest
  | some value => exact h.2 value hvalue

/-- A location that the patch does not reach keeps its value. -/
theorem reach?_merge_none {target patch : Json} {location : Location}
    (h : patch.Overlays location) (ht : target.AdmitsAlong location)
    (hnone : patch.reach? location = none) :
    (target.merge patch).reach? location = target.reach? location := by
  induction location generalizing target patch with
  | nil => cases hnone
  | cons step rest ih =>
    simp only [reach?] at hnone ⊢
    cases hvalue : patch.enter? step with
    | none => rw [enter?_merge_none h.1 ht.1 hvalue]
    | some value =>
      rw [hvalue, Option.bind_some] at hnone
      have hbelow := h.2 value hvalue
      rcases enter?_merge_some h.1 ht.1 hvalue with ⟨htarget, hmerged⟩ | hmerged
      · rw [hmerged, htarget]
        exact hnone
      · rw [hmerged, Option.bind_some, ih hbelow ht.getD hnone]
        cases htarget : target.enter? step with
        | some found => rfl
        | none =>
          -- The rest of the location is not empty, or the patch would reach its end.
          cases rest with
          | nil => cases hnone
          | cons next rest => simp [reach?, enter?_null]

/-- A location that the patch reaches has the patch's value merged into it. -/
theorem reach?_merge_some {target patch value : Json} {location : Location}
    (h : patch.Overlays location) (ht : target.AdmitsAlong location)
    (hvalue : patch.reach? location = some value) :
    (target.reach? location = none ∧ (target.merge patch).reach? location = some value) ∨
      (target.merge patch).reach? location =
        some (merge ((target.reach? location).getD null) value) := by
  induction location generalizing target patch with
  | nil =>
    obtain rfl : patch = value := Option.some.inj hvalue
    exact .inr rfl
  | cons step rest ih =>
    simp only [reach?] at hvalue ⊢
    obtain ⟨entered, hentered, hbelow⟩ := Option.bind_eq_some_iff.mp hvalue
    rcases enter?_merge_some h.1 ht.1 hentered with ⟨htarget, hmerged⟩ | hmerged
    · rw [hmerged, htarget]
      exact .inl ⟨rfl, hbelow⟩
    · rw [hmerged, Option.bind_some]
      have hlater := ih (h.2 entered hentered) ht.getD hbelow
      cases htarget : target.enter? step with
      | some found =>
        rw [htarget] at hlater
        exact hlater
      | none =>
        rw [htarget] at hlater
        cases rest with
        | nil =>
          rcases hlater with ⟨hnone, -⟩ | hlater
          · cases hnone
          · exact .inr hlater
        | cons next rest =>
          have hnull : null.reach? (next :: rest) = none := by
            simp [reach?, enter?_null]
          rcases hlater with ⟨-, hlater⟩ | hlater
          · exact .inl ⟨rfl, hlater⟩
          · right
            rw [Option.getD_none, hnull] at hlater
            exact hlater

/-- Patches of the right shape merge to one of the right shape. -/
theorem merge_overlays {old patch : Json} {location : Location}
    (hold : old = null ∨ old.Overlays location) (h : patch.Overlays location) :
    (old.merge patch).Overlays location := by
  induction location generalizing old patch with
  | nil => trivial
  | cons step rest ih =>
    have hsuits : old = null ∨ old.Suits step := hold.imp id And.left
    have hadmits : old.Admits step := by
      rcases hsuits with rfl | hsuits
      · exact (admitsAlong_null [step]).1
      · exact hsuits.admits
    have hbelow : ∀ value, old.enter? step = some value → value.Overlays rest := by
      intro value hvalue
      rcases hold with rfl | hold
      · rw [enter?_null] at hvalue
        cases hvalue
      · exact hold.2 value hvalue
    refine ⟨merge_suits hsuits h.1, fun merged hmerged => ?_⟩
    cases hentered : patch.enter? step with
    | none =>
      rw [enter?_merge_none h.1 hadmits hentered] at hmerged
      exact hbelow merged hmerged
    | some value =>
      have hvalue := h.2 value hentered
      rcases enter?_merge_some h.1 hadmits hentered with ⟨-, hnew⟩ | hnew
      · obtain rfl : value = merged := Option.some.inj (hnew.symm.trans hmerged)
        exact hvalue
      · obtain rfl := Option.some.inj (hnew.symm.trans hmerged)
        refine ih ?_ hvalue
        cases hfound : old.enter? step with
        | none => exact .inl rfl
        | some found => exact .inr (hbelow found hfound)

end Json

end WorkloadTuning
