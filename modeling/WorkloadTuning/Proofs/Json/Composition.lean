import WorkloadTuning.Proofs.Json.Location

/-! Merging patches into one. Applying the merged patch is applying the patches one after another,
to any document and with everything in the same order, as long as the later patch has no shape other
than the earlier one where both say something. -/

namespace WorkloadTuning

namespace Members

variable {ms : Members} {key other : String}

theorem set_set_self (key : String) (value old : Json) (ms : Members) :
    set key value (set key old ms) = set key value ms := by
  induction ms with
  | nil => simp [set]
  | cons m rest ih =>
    by_cases h : m.1 = key
    · simp [set, h]
    · simp [set, h, ih]

theorem set_fresh (value : Json) (hnew : key ∉ ms.keys) : set key value ms = ms ++ [(key, value)] := by
  induction ms with
  | nil => rfl
  | cons m rest ih =>
    obtain ⟨hne, hrest⟩ := not_or.mp fun h => hnew (List.mem_cons.mpr h)
    simp [set, Ne.symm hne, ih hrest]

/-- A key that is there already keeps its place, so other keys are set before or after it alike. -/
theorem set_set_comm (value new : Json) (hmem : key ∈ ms.keys) (hne : other ≠ key) :
    set key value (set other new ms) = set other new (set key value ms) := by
  induction ms with
  | nil => simp [keys] at hmem
  | cons m rest ih =>
    by_cases hkey : m.1 = key
    · simp [set, hkey, Ne.symm hne]
    · have hrest : key ∈ keys rest := by
        rcases List.mem_cons.mp hmem with h | h
        · exact absurd h.symm hkey
        · exact h
      by_cases hother : m.1 = other
      · simp [set, hother, hne]
      · simp [set, hkey, hother, ih hrest]

/-- The value merged into what is under the key. -/
def overlay (key : String) (value : Json) (ms : Members) : Members :=
  ms.set key (Json.merge ((ms.get? key).getD .null) value)

theorem mem_keys_overlay (key : String) (value : Json) (ms : Members) :
    key ∈ (ms.overlay key value).keys := by
  rw [overlay, keys_set]
  split
  · assumption
  · simp

theorem overlay_cons_self (value old : Json) (rest : Members) :
    overlay key value ((key, old) :: rest) = (key, old.merge value) :: rest := by
  simp [overlay, set, get?_cons]

theorem overlay_cons_ne (value old : Json) (rest : Members) (hne : other ≠ key) :
    overlay key value ((other, old) :: rest) = (other, old) :: overlay key value rest := by
  simp [overlay, set, get?_cons, hne, Ne.symm hne]

theorem overlay_comm (value new : Json) (hmem : key ∈ ms.keys) (hne : other ≠ key) :
    overlay key value (overlay other new ms) = overlay other new (overlay key value ms) := by
  rw [overlay, overlay, overlay, overlay, get?_set_ne _ _ (Ne.symm hne), get?_set_ne _ _ hne,
    set_set_comm _ _ hmem hne]

end Members

namespace Json

/-! ### Patches that compose -/

/-- Merging the patches into one and applying that is applying the one and then the other. -/
def Composes (first second : Json) : Prop :=
  ∀ target : Json, target.merge (first.merge second) = (target.merge first).merge second

section Members
variable {ms fields : Members} {key : String} {value : Json}

theorem ne_null_iff {json : Json} : json ≠ null ↔ json.isNull = false := by
  cases json <;> simp [isNull]

theorem mergeMembers_cons (ms rest : Members) (key : String) (h : value ≠ null) :
    mergeMembers ms ((key, value) :: rest) = mergeMembers (ms.overlay key value) rest := by
  rw [mergeMembers, ne_null_iff.mp h]
  rfl

/-- A key that the fields do not set can be merged before or after them, once it is there. -/
theorem overlay_mergeMembers (hfields : fields.IsPlain) (hmem : key ∈ ms.keys)
    (hnew : key ∉ fields.keys) (value : Json) :
    (mergeMembers ms fields).overlay key value = mergeMembers (ms.overlay key value) fields := by
  induction fields generalizing ms with
  | nil => rfl
  | cons e rest ih =>
    obtain ⟨k, v⟩ := e
    have hv : v ≠ null := hfields.ne_null (k, v) List.mem_cons_self
    obtain ⟨hne, hrest⟩ := not_or.mp fun h => hnew (List.mem_cons.mpr h)
    have hstays : key ∈ (ms.overlay k v).keys := by
      rw [Members.overlay, Members.keys_set]
      split
      · exact hmem
      · exact List.mem_append_left _ hmem
    rw [mergeMembers_cons _ _ _ hv, mergeMembers_cons _ _ _ hv, ih hfields.tail hstays hrest,
      Members.overlay_comm _ _ hmem (Ne.symm hne)]

theorem Composes.overlay {old : Json} (h : Composes old value) (key : String) (ms : Members) :
    ms.overlay key (old.merge value) = (ms.overlay key old).overlay key value := by
  rw [Members.overlay, Members.overlay, Members.overlay, Members.get?_set_self,
    Members.set_set_self, h]
  rfl

/-- Merging a value into the fields first or into the outcome of their merge is the same. -/
theorem mergeMembers_overlay (hfields : fields.IsPlain) (hvalue : value ≠ null)
    (hfresh : null.merge value = value)
    (h : ∀ old, fields.get? key = some old → Composes old value) (target : Members) :
    mergeMembers target (fields.overlay key value) =
      (mergeMembers target fields).overlay key value := by
  induction fields generalizing target with
  | nil =>
    have hsingle : Members.overlay key value [] = [(key, value)] := by
      simp [Members.overlay, Members.set, Members.get?, hfresh]
    rw [hsingle, mergeMembers_cons _ _ _ hvalue]
    rfl
  | cons e rest ih =>
    obtain ⟨k, old⟩ := e
    have hold : old ≠ null := hfields.ne_null (k, old) List.mem_cons_self
    by_cases hkey : k = key
    · subst hkey
      have hcompose := h old (by rw [Members.get?_cons, if_pos rfl])
      rw [Members.overlay_cons_self, mergeMembers_cons _ _ _ (merge_ne_null old hvalue),
        mergeMembers_cons _ _ _ hold, hcompose.overlay,
        overlay_mergeMembers hfields.tail (Members.mem_keys_overlay _ _ _)
          (List.nodup_cons.mp hfields.keys_nodup).1]
    · rw [Members.overlay_cons_ne _ _ _ hkey, mergeMembers_cons _ _ _ hold,
        mergeMembers_cons _ _ _ hold]
      refine ih hfields.tail (fun w hw => h w ?_) _
      have hfound : key ≠ k := Ne.symm hkey
      rw [Members.get?_cons, if_neg hfound]
      exact hw

theorem mergeMembers_mergeMembers (hms : ms.IsPlain) (hfields : fields.IsPlain)
    (hfresh : ∀ e ∈ fields, null.merge e.2 = e.2)
    (h : ∀ e ∈ fields, ∀ old, ms.get? e.1 = some old → Composes old e.2) (target : Members) :
    mergeMembers target (mergeMembers ms fields) = mergeMembers (mergeMembers target ms) fields := by
  induction fields generalizing ms target with
  | nil => rfl
  | cons e rest ih =>
    obtain ⟨k, v⟩ := e
    have hv : v ≠ null := hfields.ne_null (k, v) List.mem_cons_self
    have hhead := hfresh (k, v) List.mem_cons_self
    have hplain : (ms.overlay k v).IsPlain := hms.set k (merge_ne_null _ hv)
    rw [mergeMembers_cons _ _ _ hv, mergeMembers_cons _ _ _ hv,
      ih hplain hfields.tail (fun e he => hfresh e (List.mem_cons_of_mem _ he)),
      mergeMembers_overlay hms hv hhead (h (k, v) List.mem_cons_self)]
    -- Later fields have other keys, under which nothing has changed.
    intro e he old hold
    refine h e (List.mem_cons_of_mem _ he) old ?_
    have hmem : e.1 ∈ Members.keys rest := List.mem_map_of_mem he
    have hne : e.1 ≠ k := fun heq => (List.nodup_cons.mp hfields.keys_nodup).1 (heq ▸ hmem)
    rwa [Members.overlay, Members.get?_set_ne _ _ hne] at hold

theorem Composes.object (hms : ms.IsPlain) (hfields : fields.IsPlain)
    (hfresh : ∀ e ∈ fields, null.merge e.2 = e.2)
    (h : ∀ e ∈ fields, ∀ old, ms.get? e.1 = some old → Composes old e.2) :
    Composes (object ms) (object fields) :=
  fun _ => congrArg Json.object (mergeMembers_mergeMembers hms hfields hfresh h _)

end Members

/-! ### Lists of named elements -/

/-- List elements that merge by name, each name once. -/
structure IsNamedOnce (items : List Json) : Prop where
  names_nodup : (items.map name?).Nodup
  plain : ∀ item ∈ items, item.IsPlainObject
  named : ∀ item ∈ items, ∃ name, item.name? = some name

/-- The element merged into the one of its name. -/
def place (item : Json) (items : List Json) : List Json :=
  updateNamed item.name? (fun found => found.merge item) item items

section Items
variable {items existing : List Json} {item other : Json} {name : String}

theorem IsNamedOnce.tail (h : IsNamedOnce (item :: items)) : IsNamedOnce items where
  names_nodup := (List.nodup_cons.mp h.names_nodup).2
  plain := fun x hx => h.plain x (List.mem_cons_of_mem _ hx)
  named := fun x hx => h.named x (List.mem_cons_of_mem _ hx)

theorem IsNamedOnce.isNamedList (h : IsNamedOnce items) : isNamedList items = true := by
  rw [Json.isNamedList, List.all_eq_true]
  intro item hitem
  obtain ⟨name, hname⟩ := h.named item hitem
  rw [hname]
  rfl

theorem place_cons_same (rest : List Json) (h : other.name? = item.name?) :
    place item (other :: rest) = other.merge item :: rest := by
  rw [place, updateNamed, if_pos h]

theorem place_cons_ne (rest : List Json) (h : other.name? ≠ item.name?) :
    place item (other :: rest) = other :: place item rest := by
  rw [place, updateNamed, if_neg h]
  rfl

theorem names_place (hplain : item.IsPlainObject) (hname : item.name? = some name)
    (items : List Json) : (place item items).map name? =
      if some name ∈ items.map name? then items.map name? else items.map name? ++ [some name] := by
  rw [place, hname]
  exact names_updateNamed (fun _ _ => name?_merge hplain hname) hname

/-- An element that is there already keeps its place, so others are placed before or after it
alike. -/
theorem place_comm (hplain : item.IsPlainObject) (hname : item.name? = some name)
    (hother : other.IsPlainObject) (hnamed : other.name?.isSome)
    (hne : other.name? ≠ some name) (hmem : some name ∈ items.map name?) :
    place item (place other items) = place other (place item items) := by
  obtain ⟨otherName, hotherName⟩ := Option.isSome_iff_exists.mp hnamed
  induction items with
  | nil => simp at hmem
  | cons x rest ih =>
    by_cases hx : x.name? = some name
    · have hmerged : (x.merge item).name? = some name := name?_merge hplain hname
      rw [place_cons_ne rest (by rw [hx]; exact Ne.symm hne), place_cons_same _ (hx.trans hname.symm),
        place_cons_same _ (hx.trans hname.symm),
        place_cons_ne rest (by rw [hmerged]; exact Ne.symm hne)]
    · have hrest : some name ∈ rest.map name? := by
        rcases List.mem_cons.mp hmem with h | h
        · exact absurd h.symm hx
        · exact h
      have hxitem : x.name? ≠ item.name? := by rwa [hname]
      by_cases hxother : x.name? = other.name?
      · have hmerged : (x.merge other).name? = other.name? := by
          rw [hotherName]
          exact name?_merge hother hotherName
        rw [place_cons_same _ hxother, place_cons_ne _ hxitem, place_cons_same _ hxother,
          place_cons_ne _ (by rw [hmerged, hname]; exact hne)]
      · rw [place_cons_ne _ hxother, place_cons_ne _ hxitem, place_cons_ne _ hxitem,
          place_cons_ne _ hxother, ih hrest]

theorem place_mergeItems (hitems : IsNamedOnce items) (hplain : item.IsPlainObject)
    (hname : item.name? = some name) (hmem : some name ∈ existing.map name?)
    (hnew : some name ∉ items.map name?) :
    place item (mergeItems existing items) = mergeItems (place item existing) items := by
  induction items generalizing existing with
  | nil => rfl
  | cons x rest ih =>
    obtain ⟨xName, hxName⟩ := hitems.named x List.mem_cons_self
    have hx := hitems.plain x List.mem_cons_self
    obtain ⟨hne, hrest⟩ := not_or.mp fun h => hnew (List.mem_cons.mpr h)
    have hstays : some name ∈ (place x existing).map name? := by
      rw [names_place hx hxName]
      split
      · exact hmem
      · exact List.mem_append_left _ hmem
    show place item (mergeItems (place x existing) rest) = mergeItems (place x (place item existing)) rest
    rw [ih hitems.tail hstays hrest,
      place_comm hplain hname hx (by rw [hxName]; rfl) (Ne.symm hne) hmem]

theorem Composes.place {old : Json} (h : Composes old item) (hold : old.IsPlainObject)
    (hplain : item.IsPlainObject) (hname : item.name? = some name) (hsame : old.name? = some name)
    (items : List Json) : place (old.merge item) items = Json.place item (Json.place old items) := by
  have hmerged : (old.merge item).name? = some name := name?_merge hplain hname
  induction items with
  | nil =>
    show [old.merge item] = Json.place item [old]
    rw [place_cons_same _ (hsame.trans hname.symm)]
  | cons x rest ih =>
    by_cases hx : x.name? = some name
    · have hkept : (x.merge old).name? = some name := name?_merge hold hsame
      rw [place_cons_same _ (hx.trans hmerged.symm), place_cons_same _ (hx.trans hsame.symm),
        place_cons_same _ (hkept.trans hname.symm), h]
    · rw [place_cons_ne _ (by rwa [hmerged]), place_cons_ne _ (by rwa [hsame]),
        place_cons_ne _ (by rwa [hname]), ih]

/-- Merging an element into the list first or into the outcome of its merge is the same. -/
theorem mergeItems_place (hitems : IsNamedOnce items) (hplain : item.IsPlainObject)
    (hname : item.name? = some name)
    (h : ∀ old ∈ items, old.name? = some name → Composes old item) (target : List Json) :
    mergeItems target (place item items) = place item (mergeItems target items) := by
  induction items generalizing target with
  | nil => rfl
  | cons x rest ih =>
    have hx := hitems.plain x List.mem_cons_self
    obtain ⟨hfresh, -⟩ := List.nodup_cons.mp hitems.names_nodup
    show _ = place item (mergeItems (place x target) rest)
    by_cases hsame : x.name? = some name
    · have hcompose := h x List.mem_cons_self hsame
      have hmem : some name ∈ (place x target).map name? := by
        rw [names_place hx hsame]
        split
        · assumption
        · simp
      rw [place_cons_same _ (hsame.trans hname.symm)]
      show mergeItems (place (x.merge item) target) rest = _
      rw [hcompose.place hx hplain hname hsame,
        place_mergeItems hitems.tail hplain hname hmem (hsame ▸ hfresh)]
    · rw [place_cons_ne _ (by rwa [hname])]
      exact ih hitems.tail (fun old hold => h old (List.mem_cons_of_mem _ hold)) _

theorem IsNamedOnce.place (hitems : IsNamedOnce items) (hplain : item.IsPlainObject)
    (hname : item.name? = some name) : IsNamedOnce (Json.place item items) where
  names_nodup := by
    rw [names_place hplain hname]
    split
    · exact hitems.names_nodup
    · next hnew =>
      exact List.nodup_append_comm.mp (List.nodup_cons.mpr ⟨hnew, hitems.names_nodup⟩)
  plain := by
    intro x hx
    rcases mem_updateNamed hx with rfl | hx | ⟨found, hfound, rfl⟩
    · exact hplain
    · exact hitems.plain x hx
    · exact merge_isPlainObject (.inr (hitems.plain found hfound)) hplain
  named := by
    intro x hx
    rcases mem_updateNamed hx with rfl | hx | ⟨found, hfound, rfl⟩
    · exact ⟨name, hname⟩
    · exact hitems.named x hx
    · exact ⟨name, name?_merge hplain hname⟩

theorem mergeItems_isNamedOnce (hexisting : IsNamedOnce existing) (hitems : IsNamedOnce items) :
    IsNamedOnce (mergeItems existing items) := by
  induction items generalizing existing with
  | nil => exact hexisting
  | cons item rest ih =>
    obtain ⟨name, hname⟩ := hitems.named item List.mem_cons_self
    exact ih (hexisting.place (hitems.plain item List.mem_cons_self) hname) hitems.tail

theorem IsNamedOnce.mergesInto (hitems : IsNamedOnce items) (existing : List Json) :
    MergesInto items existing :=
  ⟨hitems.names_nodup, hitems.isNamedList, fun item hitem _ hname _ _ =>
    name?_merge (hitems.plain item hitem) hname⟩

theorem mergeItems_mergeItems (hexisting : IsNamedOnce existing) (hitems : IsNamedOnce items)
    (h : ∀ item ∈ items, ∀ old ∈ existing, old.name? = item.name? → Composes old item)
    (target : List Json) :
    mergeItems target (mergeItems existing items) =
      mergeItems (mergeItems target existing) items := by
  induction items generalizing existing target with
  | nil => rfl
  | cons item rest ih =>
    obtain ⟨name, hname⟩ := hitems.named item List.mem_cons_self
    have hplain := hitems.plain item List.mem_cons_self
    obtain ⟨hfresh, -⟩ := List.nodup_cons.mp hitems.names_nodup
    show mergeItems target (mergeItems (place item existing) rest) =
      mergeItems (place item (mergeItems target existing)) rest
    rw [ih (hexisting.place hplain hname) hitems.tail,
      mergeItems_place hexisting hplain hname
        (fun old hold hsame => h item List.mem_cons_self old hold (hsame.trans hname.symm))]
    -- Later elements have other names, under which nothing has changed.
    intro x hx old hold hsame
    have hne : x.name? ≠ some name := fun heq => hfresh (hname ▸ heq ▸ List.mem_map_of_mem hx)
    refine h x (List.mem_cons_of_mem _ hx) old ?_ hsame
    rcases mem_updateNamed hold with rfl | hold | ⟨found, -, rfl⟩
    · exact absurd (hsame.symm.trans hname) hne
    · exact hold
    · exact absurd (hsame.symm.trans (name?_merge hplain hname)) hne

theorem merge_array_of_unnamed {target : Json} (items : List Json)
    (h : ∀ existing, target = array existing → isNamedList existing = false) :
    target.merge (array items) = array items := by
  cases target with
  | array existing => simp [merge, h existing rfl]
  | _ => rfl

theorem Composes.named (hne : items ≠ []) (hexistingNe : existing ≠ [])
    (hexisting : IsNamedOnce existing) (hitems : IsNamedOnce items)
    (h : ∀ item ∈ items, ∀ old ∈ existing, old.name? = item.name? → Composes old item) :
    Composes (array existing) (array items) := by
  intro target
  have hmerged := mergeItems_isNamedOnce hexisting hitems
  have hmergedNe : mergeItems existing items ≠ [] := mergeItems_ne_nil (.inl hexistingNe)
  rw [merge_array_array hne hitems.isNamedList hexisting.isNamedList]
  -- Named elements are merged into a list of named elements, and they replace anything else.
  by_cases ht : ∃ ts, target = .array ts ∧ Json.isNamedList ts = true
  · obtain ⟨ts, rfl, hts⟩ := ht
    have hboth := (hexisting.mergesInto ts).isNamedList_mergeItems hts
    rw [merge_array_array hmergedNe hmerged.isNamedList hts,
      merge_array_array hexistingNe hexisting.isNamedList hts,
      merge_array_array hne hitems.isNamedList hboth, mergeItems_mergeItems hexisting hitems h]
  · have hunnamed : ∀ ts, target = .array ts → Json.isNamedList ts = false := by
      intro ts hts
      rw [← Bool.not_eq_true]
      exact fun hnamed => ht ⟨ts, hts, hnamed⟩
    rw [merge_array_of_unnamed _ hunnamed, merge_array_of_unnamed _ hunnamed,
      merge_array_array hne hitems.isNamedList hexisting.isNamedList]

end Items

/-! ### Patches that may be merged -/

mutual

/-- Keys do not repeat, no member is `null`, and a list of named elements has each name once. -/
def IsTidy : Json → Prop
  | object members => (Members.keys members).Nodup ∧ IsTidyMembers members
  | array items => (isNamedList items = true → (items.map name?).Nodup) ∧ IsTidyItems items
  | _ => True

def IsTidyMembers : List (String × Json) → Prop
  | [] => True
  | (_, value) :: rest => (value ≠ null ∧ IsTidy value) ∧ IsTidyMembers rest

def IsTidyItems : List Json → Prop
  | [] => True
  | item :: rest => IsTidy item ∧ IsTidyItems rest

end

mutual

/-- Objects of the second patch meet objects of the first, and lists of named elements meet lists of
named elements, wherever both patches have a value: under equal keys and in elements of one name. -/
def ShapesMeet (first : Json) : Json → Prop
  | object fields => ∃ ms, first = object ms ∧ ShapesMeetMembers ms fields
  | array items => items ≠ [] → isNamedList items = true → ∃ existing, first = array existing ∧
      existing ≠ [] ∧ isNamedList existing = true ∧ ShapesMeetItems existing items
  | _ => True

def ShapesMeetMembers (ms : Members) : List (String × Json) → Prop
  | [] => True
  | (key, value) :: rest =>
    (∀ old, ms.get? key = some old → ShapesMeet old value) ∧ ShapesMeetMembers ms rest

def ShapesMeetItems (existing : List Json) : List Json → Prop
  | [] => True
  | item :: rest =>
    (∀ old ∈ existing, old.name? = item.name? → ShapesMeet old item) ∧
      ShapesMeetItems existing rest

end

theorem isTidyMembers_iff {members : Members} :
    IsTidyMembers members ↔ ∀ e ∈ members, e.2 ≠ null ∧ e.2.IsTidy := by
  induction members with
  | nil => simp [IsTidyMembers]
  | cons e rest ih => simp [IsTidyMembers, ih]

theorem isTidyItems_iff {items : List Json} : IsTidyItems items ↔ ∀ item ∈ items, item.IsTidy := by
  induction items with
  | nil => simp [IsTidyItems]
  | cons item rest ih => simp [IsTidyItems, ih]

theorem IsTidy.isPlain {members : Members} (h : (object members).IsTidy) : members.IsPlain where
  keys_nodup := h.1
  ne_null := fun e he => (isTidyMembers_iff.mp h.2 e he).1

theorem IsTidy.member {members : Members} (h : (object members).IsTidy) {e : String × Json}
    (he : e ∈ members) : e.2.IsTidy :=
  (isTidyMembers_iff.mp h.2 e he).2

theorem IsTidy.item {items : List Json} (h : (array items).IsTidy) {item : Json}
    (hitem : item ∈ items) : item.IsTidy :=
  isTidyItems_iff.mp h.2 item hitem

/-- Only objects have names. -/
theorem IsTidy.isNamedOnce {items : List Json} (h : (array items).IsTidy)
    (hnamed : isNamedList items = true) : IsNamedOnce items where
  names_nodup := h.1 hnamed
  plain := by
    intro item hitem
    have hname := List.all_eq_true.mp hnamed item hitem
    have htidy := h.item hitem
    cases item with
    | object members => exact ⟨members, rfl, htidy.isPlain⟩
    | _ => cases hname
  named := fun item hitem => exists_name_of_mem hnamed hitem

/-- Members that each are their own merge into nothing are so together, where their keys are new. -/
theorem mergeMembers_fresh {ms fields : Members} (hfields : fields.IsPlain)
    (hnew : ∀ key ∈ fields.keys, key ∉ ms.keys) (hfresh : ∀ e ∈ fields, null.merge e.2 = e.2) :
    mergeMembers ms fields = ms ++ fields := by
  induction fields generalizing ms with
  | nil => rw [List.append_nil]; rfl
  | cons e rest ih =>
    obtain ⟨key, value⟩ := e
    have hkey : key ∉ ms.keys := hnew key List.mem_cons_self
    have hnone : ms.get? key = none := by
      rw [Members.get?, List.lookup_eq_none_iff]
      intro m hm
      rw [bne_iff_ne]
      exact fun heq => hkey (heq ▸ List.mem_map_of_mem hm)
    have hset : ms.overlay key value = ms ++ [(key, value)] := by
      rw [Members.overlay, hnone, Option.getD_none, hfresh (key, value) List.mem_cons_self,
        Members.set_fresh _ hkey]
    rw [mergeMembers_cons _ _ _ (hfields.ne_null (key, value) List.mem_cons_self), hset,
      ih hfields.tail, List.append_assoc]
    · rfl
    · intro other hother hmem
      rw [Members.keys, List.map_append, List.mem_append] at hmem
      rcases hmem with hmem | hmem
      · exact hnew other (List.mem_cons_of_mem _ hother) hmem
      · obtain rfl := List.mem_singleton.mp hmem
        exact (List.nodup_cons.mp hfields.keys_nodup).1 hother
    · exact fun e he => hfresh e (List.mem_cons_of_mem _ he)

mutual

/-- A tidy patch is its own merge into nothing. -/
theorem null_merge : (patch : Json) → patch.IsTidy → null.merge patch = patch
  | .object members, h => by
    have hmembers : mergeMembers [] members = [] ++ members :=
      mergeMembers_fresh h.isPlain (fun _ _ => List.not_mem_nil) (null_mergeMembers members h.2)
    exact congrArg Json.object hmembers
  | .array _, _ => rfl
  | .string _, _ => rfl
  | .number _, _ => rfl
  | .bool _, _ => rfl
  | .null, _ => rfl

theorem null_mergeMembers : (members : List (String × Json)) → IsTidyMembers members →
    ∀ e ∈ members, null.merge e.2 = e.2
  | [], _ => by simp
  | (_, value) :: rest, ⟨⟨_, hvalue⟩, hrest⟩ => by
    intro e he
    rcases List.mem_cons.mp he with rfl | he
    · exact null_merge value hvalue
    · exact null_mergeMembers rest hrest e he

end

mutual

theorem composes_of_shapesMeet {first : Json} (hfirst : first.IsTidy) :
    (second : Json) → second.IsTidy → ShapesMeet first second → Composes first second
  | .object fields, hsecond, h => by
    obtain ⟨ms, rfl, hmembers⟩ := h
    exact .object hfirst.isPlain hsecond.isPlain (null_mergeMembers fields hsecond.2)
      (composes_members (fun e he => hfirst.member he) fields hsecond.2 hmembers)
  | .array items, hsecond, h => by
    by_cases hreplaced : items = [] ∨ isNamedList items = false
    · intro target
      rw [merge_array_replaced _ hreplaced, merge_array_replaced _ hreplaced,
        merge_array_replaced _ hreplaced]
    · obtain ⟨hne, hnamed⟩ := not_or.mp hreplaced
      rw [Bool.not_eq_false] at hnamed
      obtain ⟨existing, rfl, hexisting, hexistingNamed, hitems⟩ := h hne hnamed
      exact .named hne hexisting (hfirst.isNamedOnce hexistingNamed) (hsecond.isNamedOnce hnamed)
        (composes_items (fun item hitem => hfirst.item hitem) items hsecond.2 hitems)
  | .string _, _, _ => fun _ => rfl
  | .number _, _, _ => fun _ => rfl
  | .bool _, _, _ => fun _ => rfl
  | .null, _, _ => fun _ => rfl

theorem composes_members {ms : Members} (hms : ∀ e ∈ ms, e.2.IsTidy) :
    (fields : List (String × Json)) → IsTidyMembers fields → ShapesMeetMembers ms fields →
      ∀ e ∈ fields, ∀ old, ms.get? e.1 = some old → Composes old e.2
  | [], _, _ => by simp
  | (_, value) :: rest, ⟨⟨_, hvalue⟩, hrest⟩, ⟨hmeet, hlater⟩ => by
    intro e he old hold
    rcases List.mem_cons.mp he with rfl | he
    · exact composes_of_shapesMeet (hms _ (Members.mem_of_get? hold)) value hvalue (hmeet old hold)
    · exact composes_members hms rest hrest hlater e he old hold

theorem composes_items {existing : List Json} (hexisting : ∀ item ∈ existing, item.IsTidy) :
    (items : List Json) → IsTidyItems items → ShapesMeetItems existing items →
      ∀ item ∈ items, ∀ old ∈ existing, old.name? = item.name? → Composes old item
  | [], _, _ => by simp
  | item :: rest, ⟨hitem, hrest⟩, ⟨hmeet, hlater⟩ => by
    intro x hx old hold hsame
    rcases List.mem_cons.mp hx with heq | hx
    · rw [heq] at hsame ⊢
      exact composes_of_shapesMeet (hexisting old hold) item hitem (hmeet old hold hsame)
    · exact composes_items hexisting rest hrest hlater x hx old hold hsame

end

/-- Applying the merge of two patches is applying them one after another. -/
theorem merge_merge {first second : Json} (hfirst : first.IsTidy) (hsecond : second.IsTidy)
    (h : ShapesMeet first second) (target : Json) :
    target.merge (first.merge second) = (target.merge first).merge second :=
  composes_of_shapesMeet hfirst second hsecond h target

/-- A variable of the first container. -/
def variablePatch : Json := .object [("containers", .array [
  .object [("name", .string "app"), ("env", .array [
    .object [("name", .string "A"), ("value", .string "1")]])]])]

/-- A new container, and one more variable of the first. -/
def containersPatch : Json := .object [("replicas", .number (.int 2)), ("containers", .array [
  .object [("name", .string "proxy"), ("image", .string "proxy:1")],
  .object [("env", .array [.object [("name", .string "B"), ("value", .string "2")]]),
    ("name", .string "app")]])]

/-- The name of the container occurs twice, and only the first is patched. -/
def repeatedContainers : Json := .object [("containers", .array [
  .object [("name", .string "app"), ("env", .null)], .object [("name", .string "app")]])]

theorem merge_merge_containers : variablePatch.IsTidy ∧ containersPatch.IsTidy ∧
    ShapesMeet variablePatch containersPatch ∧
    repeatedContainers.merge (variablePatch.merge containersPatch) =
      (repeatedContainers.merge variablePatch).merge containersPatch := by
  have hfirst : variablePatch.IsTidy := by
    simp +decide [variablePatch, IsTidy, IsTidyMembers, IsTidyItems]
  have hsecond : containersPatch.IsTidy := by
    simp +decide [containersPatch, IsTidy, IsTidyMembers, IsTidyItems]
  have hmeet : ShapesMeet variablePatch containersPatch := by
    simp +decide [variablePatch, containersPatch, ShapesMeet, ShapesMeetMembers, ShapesMeetItems,
      Members.get?_cons, name?, get?, asObject?, asString?]
  exact ⟨hfirst, hsecond, hmeet, merge_merge hfirst hsecond hmeet repeatedContainers⟩

end Json

end WorkloadTuning
