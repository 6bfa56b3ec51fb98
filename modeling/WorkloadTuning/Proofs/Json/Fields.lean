import WorkloadTuning.Proofs.Json.Location
import WorkloadTuning.Proofs.Json.Records

/-! Fields of records under patches. A field is read from the member of its name, so a record that
is written, patched and read again has the old value in a field that the patch says nothing of, the
default in one that it removes, and in any other what is read of the old value with the patch's
merged into it. -/

namespace WorkloadTuning

namespace Members

variable {ms fields : Members} {key : String} {value : Json}

theorem get?_eq_some_iff (h : ms.keys.Nodup) : ms.get? key = some value ↔ (key, value) ∈ ms :=
  ⟨mem_of_get?, Dict.lookup_of_mem h⟩

theorem get?_eq_none_iff : ms.get? key = none ↔ key ∉ ms.keys := by
  rw [get?, List.lookup_eq_none_iff, keys, List.mem_map]
  constructor
  · rintro h ⟨e, he, rfl⟩
    exact (bne_iff_ne.mp (h e he)) rfl
  · intro h e he
    exact bne_iff_ne.mpr fun heq => h ⟨e, he, heq.symm⟩

/-- Without repeated keys, erasing a key takes away its one member. -/
theorem erase_perm (h : ms.keys.Nodup) : (erase key ms).Perm (ms.filter fun e => e.1 != key) := by
  induction ms with
  | nil => exact .nil
  | cons m rest ih =>
    obtain ⟨hnew, hrest⟩ := List.nodup_cons.mp h
    unfold erase
    by_cases hkey : m.1 = key
    · have hkept : (rest.filter fun e => e.1 != key) = rest := List.filter_eq_self.mpr fun e he =>
        bne_iff_ne.mpr fun heq => hnew (hkey ▸ heq ▸ List.mem_map_of_mem he)
      rw [if_pos hkey, List.filter_cons_of_neg (by simp [hkey]), hkept]
      split
      · next hlast => rw [List.getLast?_eq_none_iff.mp hlast]
      · next last hlast =>
        have hsplit : rest.dropLast ++ [last] = rest := List.dropLast_append_getLast? last hlast
        have hmoved := (List.perm_append_singleton last rest.dropLast).symm
        rwa [hsplit] at hmoved
    · rw [if_neg hkey, List.filter_cons_of_pos (by simpa using hkey)]
      exact (ih hrest).cons m

theorem keys_erase_nodup (h : ms.keys.Nodup) (key : String) : (erase key ms).keys.Nodup := by
  refine ((erase_perm h).map Prod.fst).nodup_iff.mpr ?_
  exact h.sublist (List.filter_sublist.map Prod.fst)

theorem get?_erase (h : ms.keys.Nodup) (key other : String) :
    (erase key ms).get? other = if other = key then none else ms.get? other := by
  ext value
  rw [get?_eq_some_iff (keys_erase_nodup h key), (erase_perm h).mem_iff, List.mem_filter]
  split
  · next heq => simp [heq]
  · next hne => simp [hne, get?_eq_some_iff h]

theorem keys_set_nodup (h : ms.keys.Nodup) (key : String) (value : Json) :
    (set key value ms).keys.Nodup := by
  rw [keys_set]
  split
  · exact h
  · next hnew => exact List.nodup_append_comm.mp (List.nodup_cons.mpr ⟨hnew, h⟩)

theorem erase_of_get?_none (h : ms.get? key = none) : erase key ms = ms := by
  induction ms with
  | nil => rfl
  | cons m rest ih =>
    obtain ⟨k, v⟩ := m
    rw [get?_cons] at h
    split at h
    · cases h
    · next hne => rw [erase, if_neg (Ne.symm hne), ih h]

end Members

namespace Json

variable {ms fields : Members} {key : String}

/-- What a patch leaves under one key: nothing where it has `null` there. -/
def patched? (old : Option Json) : Option Json → Option Json
  | none => old
  | some null => none
  | some value => some ((old.getD null).merge value)

theorem patched?_of_ne_null (old : Option Json) {value : Json} (h : value ≠ null) :
    patched? old (some value) = some ((old.getD null).merge value) := by
  cases value <;> first | rfl | exact absurd rfl h

/-- One member of a patch: `null` removes what is there, any other value is overlaid on it. -/
def overlayMember (f : Json → Json → Json) (ms : Members) (key : String) (value : Json) : Members :=
  if value.isNull then ms.erase key else ms.set key (f ((ms.get? key).getD null) value)

theorem overlayMember_keys_nodup (f : Json → Json → Json) (h : ms.keys.Nodup) (key : String)
    (value : Json) : (overlayMember f ms key value).keys.Nodup := by
  unfold overlayMember
  split
  · exact Members.keys_erase_nodup h key
  · exact Members.keys_set_nodup h key _

theorem get?_overlayMember (f : Json → Json → Json) (h : ms.keys.Nodup) (key other : String)
    (value : Json) :
    (overlayMember f ms key value).get? other =
      if other = key then
        if value.isNull then none else some (f ((ms.get? key).getD null) value)
      else ms.get? other := by
  unfold overlayMember
  split
  · exact Members.get?_erase h key other
  · split
    · next heq => rw [heq, Members.get?_set_self]
    · next hne => exact Members.get?_set_ne _ _ hne

/-- One member of a patch. -/
def patchMember (ms : Members) (key : String) (value : Json) : Members :=
  if value.isNull then ms.erase key else ms.set key (((ms.get? key).getD null).merge value)

theorem patchMember_keys_nodup (h : ms.keys.Nodup) (key : String) (value : Json) :
    (patchMember ms key value).keys.Nodup :=
  overlayMember_keys_nodup merge h key value

theorem get?_patchMember (h : ms.keys.Nodup) (key other : String) (value : Json) :
    (patchMember ms key value).get? other =
      if other = key then patched? (ms.get? key) (some value) else ms.get? other := by
  refine (get?_overlayMember merge h key other value).trans ?_
  cases value <;> rfl

/-- Where the member leaves what is there, it leaves all as it is. -/
theorem patchMember_eq_self {value : Json}
    (h : patched? (ms.get? key) (some value) = ms.get? key) : patchMember ms key value = ms := by
  by_cases hvalue : value = null
  · subst hvalue
    exact Members.erase_of_get?_none h.symm
  · rw [patched?_of_ne_null _ hvalue] at h
    have hnull : value.isNull = false := by
      cases value <;> first | rfl | exact absurd rfl hvalue
    rw [patchMember, hnull]
    exact Members.set_of_get? h.symm

theorem mergeMembers_keys_nodup (h : ms.keys.Nodup) (fields : List (String × Json)) :
    (Members.keys (mergeMembers ms fields)).Nodup := by
  induction fields generalizing ms with
  | nil => exact h
  | cons e rest ih => exact ih (patchMember_keys_nodup h e.1 e.2)

/-- Members whose keys do not repeat are merged under each key apart. -/
theorem get?_mergeMembers_distinct (hms : ms.keys.Nodup) (hfields : fields.keys.Nodup)
    (key : String) :
    (mergeMembers ms fields).get? key = patched? (ms.get? key) (fields.get? key) := by
  induction fields generalizing ms with
  | nil => rfl
  | cons e rest ih =>
    obtain ⟨k, v⟩ := e
    obtain ⟨hnew, hrest⟩ := List.nodup_cons.mp hfields
    show (mergeMembers (patchMember ms k v) rest).get? key = _
    rw [ih (patchMember_keys_nodup hms k v) hrest, get?_patchMember hms, Members.get?_cons]
    split
    · next heq =>
      have hnone : Members.get? rest key = none := Members.get?_eq_none_iff.mpr (heq ▸ hnew)
      rw [hnone, heq]
      rfl
    · rfl

/-- Members are merged into what has them already, and into nothing else without a change. -/
theorem mergeMembers_eq_self_iff (hms : ms.keys.Nodup) (hfields : fields.keys.Nodup) :
    mergeMembers ms fields = ms ↔
      ∀ e ∈ fields, patched? (ms.get? e.1) (some e.2) = ms.get? e.1 := by
  constructor
  · intro h e he
    have hget := get?_mergeMembers_distinct hms hfields e.1
    rw [h, (Members.get?_eq_some_iff hfields).mpr he] at hget
    exact hget.symm
  · intro h
    clear hfields
    induction fields with
    | nil => rfl
    | cons e rest ih =>
      show mergeMembers (patchMember ms e.1 e.2) rest = ms
      rw [patchMember_eq_self (h e List.mem_cons_self)]
      exact ih fun x hx => h x (List.mem_cons_of_mem _ hx)

/-! ### Patches along a path of fields -/

mutual

/-- No object of the document holds a key twice. -/
def HasDistinctKeys : Json → Prop
  | object members => (Members.keys members).Nodup ∧ HasDistinctKeysMembers members
  | array items => HasDistinctKeysItems items
  | _ => True

def HasDistinctKeysMembers : List (String × Json) → Prop
  | [] => True
  | (_, value) :: rest => HasDistinctKeys value ∧ HasDistinctKeysMembers rest

def HasDistinctKeysItems : List Json → Prop
  | [] => True
  | item :: rest => HasDistinctKeys item ∧ HasDistinctKeysItems rest

end

mutual

def decideDistinctKeys : (json : Json) → Decidable json.HasDistinctKeys
  | object members =>
    have := decideDistinctKeysMembers members
    inferInstanceAs (Decidable ((Members.keys members).Nodup ∧ HasDistinctKeysMembers members))
  | array items => decideDistinctKeysItems items
  | null => isTrue trivial
  | bool _ => isTrue trivial
  | number _ => isTrue trivial
  | string _ => isTrue trivial

def decideDistinctKeysMembers :
    (members : List (String × Json)) → Decidable (HasDistinctKeysMembers members)
  | [] => isTrue trivial
  | (_, value) :: rest =>
    have := decideDistinctKeys value
    have := decideDistinctKeysMembers rest
    inferInstanceAs (Decidable (HasDistinctKeys value ∧ HasDistinctKeysMembers rest))

def decideDistinctKeysItems : (items : List Json) → Decidable (HasDistinctKeysItems items)
  | [] => isTrue trivial
  | item :: rest =>
    have := decideDistinctKeys item
    have := decideDistinctKeysItems rest
    inferInstanceAs (Decidable (HasDistinctKeys item ∧ HasDistinctKeysItems rest))

end

instance : DecidablePred HasDistinctKeys := decideDistinctKeys

theorem hasDistinctKeys_object {members : Members} :
    (object members).HasDistinctKeys ↔
      members.keys.Nodup ∧ ∀ e ∈ members, e.2.HasDistinctKeys := by
  have hmembers : HasDistinctKeysMembers members ↔ ∀ e ∈ members, e.2.HasDistinctKeys := by
    induction members with
    | nil => simp [HasDistinctKeysMembers]
    | cons e rest ih => simp [HasDistinctKeysMembers, ih]
  rw [HasDistinctKeys, hmembers]

theorem hasDistinctKeys_array {items : List Json} :
    (array items).HasDistinctKeys ↔ ∀ item ∈ items, item.HasDistinctKeys := by
  rw [HasDistinctKeys]
  induction items with
  | nil => simp [HasDistinctKeysItems]
  | cons item rest ih => simp [HasDistinctKeysItems, ih]

theorem HasDistinctKeys.get? {json value : Json} (h : json.HasDistinctKeys)
    (hvalue : json.get? key = some value) : value.HasDistinctKeys := by
  cases json with
  | object members => exact (hasDistinctKeys_object.mp h).2 _ (Members.mem_of_get? hvalue)
  | _ => cases hvalue

/-- The patch puts no list where the path goes on. -/
def Follows (patch : Json) : List String → Prop
  | [] => True
  | key :: rest => patch.asArray? = none ∧ ∀ value, patch.get? key = some value → value.Follows rest

/-- At its last key the path may turn to another. -/
theorem Follows.turn {patch : Json} (path : List String) {rest : List String}
    (h : patch.Follows (path ++ key :: rest)) (other : String) :
    patch.Follows (path ++ [other]) := by
  induction path generalizing patch with
  | nil => exact ⟨h.1, fun _ _ => trivial⟩
  | cons first path ih => exact ⟨h.1, fun value hvalue => ih (h.2 value hvalue)⟩

/-- The patch removes nothing along the path, and what it has at the end of it passes. -/
def Keeps (passes : Json → Prop) (patch : Json) : List String → Prop
  | [] => passes patch
  | key :: rest => ∀ value, patch.get? key = some value → value ≠ null ∧ value.Keeps passes rest

/-- A list that is merged into anything leaves a list, and an empty one only if it is empty. -/
theorem merge_array_eq (target : Json) (items : List Json) :
    ∃ merged, target.merge (array items) = array merged ∧ (merged = [] ↔ items = []) := by
  cases target with
  | array existing =>
    by_cases hitems : items = []
    · exact ⟨items, by rw [hitems]; rfl, Iff.rfl⟩
    · rw [Json.merge]
      split
      · exact ⟨_, rfl, iff_of_false (mergeItems_ne_nil (.inr hitems)) hitems⟩
      · exact ⟨_, rfl, Iff.rfl⟩
  | _ => exact ⟨items, rfl, Iff.rfl⟩

end Json

namespace Record

open Json

/-! ### Reading a field -/

variable {α β : Type} [Record β] {take : α → String → Json → Decoded α} {key : String}
  {part : α → β}

/-- The field is read from the members of its name, and from no others. -/
structure IsField (take : α → String → Json → Decoded α) (key : String) (part : α → β) :
    Prop where
  own : ∀ {r s value}, take r key value = .ok s → ofJson value = .ok (part s)
  other : ∀ {r s name value}, name ≠ key → take r name value = .ok s → part s = part r

section Take
variable {γ : Type} {value : Json} {put : β → α} {r s : α}

theorem exists_of_take (h : (do return put (← ofJson value) : Decoded α) = .ok s) :
    ∃ b, ofJson value = .ok b ∧ s = put b := by
  obtain ⟨b, hb, hs⟩ := bind_eq_ok.mp h
  exact ⟨b, hb, (Except.ok.inj hs).symm⟩

theorem own_of_take (h : (do return put (← ofJson value) : Decoded α) = .ok s)
    (hput : ∀ b, part (put b) = b) : ofJson value = .ok (part s) := by
  obtain ⟨b, hb, rfl⟩ := exists_of_take h
  rwa [hput b]

theorem other_of_take {part : α → γ} (h : (do return put (← ofJson value) : Decoded α) = .ok s)
    (hput : ∀ b, part (put b) = part r) : part s = part r := by
  obtain ⟨b, -, rfl⟩ := exists_of_take h
  exact hput b

end Take

/-- A field is read from the member of its name; without one it stays. -/
def IsReadFrom (start : α) (part : α → β) (r : α) : Option Json → Prop
  | none => part r = part start
  | some value => ofJson value = .ok (part r)

theorem IsField.of_reads (hfield : IsField take key part) {members : Members}
    (hkeys : members.keys.Nodup) {start r : α} (h : Reads take members start r) :
    IsReadFrom start part r (members.get? key) := by
  induction members generalizing start with
  | nil =>
    obtain rfl : start = r := Except.ok.inj h
    exact rfl
  | cons e rest ih =>
    obtain ⟨k, v⟩ := e
    obtain ⟨hnew, hrest⟩ := List.nodup_cons.mp hkeys
    obtain ⟨next, hnext, hlater⟩ := bind_eq_ok.mp h
    have hread := ih hrest hlater
    rw [Members.get?_cons]
    split
    · next heq =>
      subst heq
      -- No later member has the name, so the field stays as it is read here.
      rw [Members.get?_eq_none_iff.mpr hnew] at hread
      have hvalue := hfield.own hnext
      rwa [← show part r = part next from hread] at hvalue
    · next hne =>
      have hsame : part next = part start := hfield.other (Ne.symm hne) hnext
      revert hread
      cases Members.get? rest key with
      | none => exact fun hread => Eq.trans hread hsame
      | some value => exact id

/-- Documents that are no lists are read member by member. -/
def IsReadWith [Record α] (take : α → String → Json → Decoded α) (start : α) : Prop :=
  ∀ {json : Json} {r : α}, ofJson json = .ok r → json.asArray? = none →
    ∃ members, json = .object members ∧ Reads take members start r

theorem reads_of_readOpen {start r : α} {required : List String} {json : Json}
    (h : readOpen take start required json = .ok r) :
    ∃ members, json = .object members ∧ Reads take members start r := by
  obtain ⟨members, hobject, hread⟩ := bind_eq_ok.mp h
  obtain ⟨s, hs, hall⟩ := bind_eq_ok.mp hread
  split at hall
  · obtain rfl := Except.ok.inj hall
    cases json with
    | object ms => exact ⟨ms, rfl, Except.ok.inj hobject ▸ hs⟩
    | _ => cases hobject
  · cases hall

theorem reads_of_read {start r : α} {names required : List String} {json : Json}
    (h : read take start names required json = .ok r) (hlist : json.asArray? = none) :
    ∃ members, json = .object members ∧ Reads take members start r := by
  cases json with
  | object members =>
    have hopen : readOpen take start required (.object members) = .ok r := h
    exact reads_of_readOpen hopen
  | array items => cases hlist
  | _ => cases h

/-! ### Records read from patched documents -/

/-- Whether the value comes out fine when it is patched and read again, is told by what the patch
does along the path. -/
def Decides (old : Json) (fine : β → Prop) (passes : Json → Prop) (path : List String) : Prop :=
  ∀ (patch : Json) (b : β), patch.HasDistinctKeys → patch.Follows path → patch ≠ .null →
    ofJson (old.merge patch) = .ok b → (fine b ↔ patch.Keeps passes path)

section Decides
variable {ms : Members} {old : Json} {fine : β → Prop} {passes : Json → Prop} {path : List String}

/-- A patch that says nothing leaves a record as it is written. -/
theorem Decides.kept (h : Decides (.object ms) fine passes (key :: path)) {b : β}
    (hb : ofJson (Json.object ms) = .ok b) : fine b := by
  have hnothing : ∀ name, (Json.object []).get? name = none := fun _ => rfl
  refine (h (.object []) b ⟨List.nodup_nil, trivial⟩ ⟨rfl, fun value hvalue => ?_⟩
    (by simp) hb).mpr fun value hvalue => ?_
  · rw [hnothing] at hvalue
    cases hvalue
  · rw [hnothing] at hvalue
    cases hvalue

/-- What is decided of a field is decided of the record, one step further out. -/
theorem Decides.field [Record α] {start : α} (hfield : IsField take key part)
    (hread : IsReadWith take start) (hms : ms.keys.Nodup) (hold : ms.get? key = some old)
    (hdefault : ¬ fine (part start)) (hkept : ∀ {b}, ofJson old = .ok b → fine b)
    (h : Decides old fine passes path) :
    Decides (.object ms) (fun r => fine (part r)) passes (key :: path) := by
  intro patch r hkeys hfollows _ hr
  cases patch with
  | object fields =>
    obtain ⟨members, heq, hreads⟩ := hread hr rfl
    obtain rfl : mergeMembers ms fields = members := Json.object.inj heq
    have hmember := hfield.of_reads (mergeMembers_keys_nodup hms fields) hreads
    rw [get?_mergeMembers_distinct hms hkeys.1, hold] at hmember
    rw [Keeps]
    cases hvalue : (Json.object fields).get? key with
    | none =>
      rw [show Members.get? fields key = none from hvalue] at hmember
      simp [hkept hmember]
    | some value =>
      rw [show Members.get? fields key = some value from hvalue] at hmember
      by_cases hnull : value = .null
      · subst hnull
        have hreset : part r = part start := hmember
        simp [hreset, hdefault]
      · rw [patched?_of_ne_null _ hnull] at hmember
        have hinner := h value (part r) (hkeys.get? hvalue) (hfollows.2 value hvalue) hnull hmember
        simp [hinner, hnull]
  | array items => cases hfollows.1
  | _ =>
    obtain ⟨members, heq, -⟩ := hread hr rfl
    cases heq

end Decides

/-! ### Fields that are something -/

theorem isSome_of_ofJson {α : Type} [Record α] {json : Json} {o : Option α} (hne : json ≠ .null)
    (h : ofJson json = .ok o) : o.isSome := by
  rw [ofJson_option_of_ne_null hne] at h
  obtain ⟨a, -, rfl⟩ := map_eq_ok.mp h
  rfl

theorem eq_string_of_ofJson {json : Json} {s : String} (h : ofJson json = .ok s) :
    json = .string s := by
  cases json <;> cases h
  rfl

theorem eq_array_of_ofJson {α : Type} [Record α] {json : Json} {l : List α}
    (h : ofJson json = .ok l) : ∃ items, json = .array items ∧ (l = [] ↔ items = []) := by
  obtain ⟨items, hitems, hl⟩ := bind_eq_ok.mp h
  cases json with
  | array others =>
    obtain rfl : others = items := Except.ok.inj hitems
    refine ⟨others, rfl, ?_⟩
    rw [← List.length_eq_zero_iff, ← List.length_eq_zero_iff, (mapM_eq_ok.mp hl).length_eq]
  | _ => cases hitems

/-- Whatever is merged into an optional field, it holds something. -/
theorem decides_option {α : Type} [Record α] (old : Json) :
    Decides old (fun o : Option α => o.isSome) (fun _ => True) [] := by
  intro patch o _ _ hpatch ho
  exact iff_of_true (isSome_of_ofJson (Json.merge_ne_null old hpatch) ho) trivial

/-- A text is replaced by what the patch has for it. -/
theorem decides_text (old : Json) :
    Decides old (fun text : String => text ≠ "") (fun value => value ≠ .string "") [] := by
  intro patch text _ _ _ htext
  have hmerged := eq_string_of_ofJson htext
  cases patch with
  | string s =>
    obtain rfl : s = text := Json.string.inj hmerged
    simp [Json.Keeps]
  | array items =>
    obtain ⟨merged, heq, -⟩ := old.merge_array_eq items
    cases heq.symm.trans hmerged
  | _ => cases hmerged

/-- A list is emptied by the empty list, and by no list that is merged into it. -/
theorem decides_list {α : Type} [Record α] (old : Json) :
    Decides old (fun l : List α => l ≠ []) (fun value => value ≠ .array []) [] := by
  intro patch l _ _ _ hl
  obtain ⟨merged, hmerged, hempty⟩ := eq_array_of_ofJson hl
  refine not_congr (hempty.trans ?_)
  cases patch with
  | array items =>
    obtain ⟨others, heq, hothers⟩ := old.merge_array_eq items
    obtain rfl : others = merged := Json.array.inj (heq.symm.trans hmerged)
    rw [hothers, Json.array.injEq]
  | _ => cases hmerged

/-! ### Members that may be left out -/

/-- A member that may be left out is passed over in the search for another. -/
theorem get?_memberUnless {other : String} (hne : other ≠ key) (omitted : Bool) (b : β)
    (rest : Members) :
    Members.get? (memberUnless omitted key b ++ rest) other = rest.get? other := by
  cases omitted with
  | true => rfl
  | false => exact (Members.get?_cons key (toJson b) rest other).trans (if_neg hne)

theorem get?_textMember (key : String) {text : String} (h : text ≠ "") (rest : Members) :
    Members.get? (textMember key text ++ rest) key = some (.string text) := by
  rw [textMember, memberUnless, if_neg (by simpa using h)]
  exact (Members.get?_cons key (.string text) rest key).trans (if_pos rfl)

end Record

end WorkloadTuning
