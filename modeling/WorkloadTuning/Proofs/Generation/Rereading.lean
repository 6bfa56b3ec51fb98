import WorkloadTuning.Proofs.Generation.Places
import WorkloadTuning.Proofs.Resource.Application
import WorkloadTuning.Proofs.Selection.Rereading

/-! Finding the fields of a resource again after its patch has been applied with the baselines: every
selector finds the settled fields, in the same order. -/

namespace WorkloadTuning

open Json
open FieldPath (Lists lists_merge)
open Template (IsData IsLiteral)
open Selector (replicasKeys containersKeys)

section Fields
variable [RegexEngine] {matchers : List (Matcher × Selector)} {r : Resource} {found : List TunableField}
  {items : List Json} (hcustom : IsCustomaryMatchers matchers)
  (h : Generator.fieldsOf matchers r = .ok found)
include hcustom h

/-- A field that belongs to a container belongs to one of the list. -/
theorem exists_item_of_mem (hlist : r.HasContainerList) {f : TunableField} (hf : f ∈ found)
    {path : FieldPath} (hpath : f.element? = some path) : ∃ items, r.HasContainers items ∧
      ∃ item ∈ items, ∃ name, item.name? = some name ∧ path = .ofElement containersKeys name := by
  cases f with
  | replicas f => cases hpath
  | container f =>
    obtain ⟨m, hm, s, l, hs, hl, hmem⟩ := exists_containerSelector h hf
    have hdefault := hcustom.isDefault hm hs
    have hread := (ContainerSelector.fields_eq_ok hdefault).mp hl
    obtain ⟨items, hr⟩ := hread.hasContainers hlist
    obtain ⟨item, hitem, name, hname, hfield⟩ := hread.exists_element hr hmem
    obtain ⟨-, hplace⟩ := ContainerSelector.fieldAt_eq_some hfield
    exact ⟨items, hr, item, hitem, name, hname, (Option.some.inj hpath).symm.trans hplace⟩
  | envVar f =>
    obtain ⟨m, hm, s, l, hs, hl, hmem⟩ := exists_variableSelector h hf
    have hdefault := hcustom.isDefault hm hs
    obtain ⟨-, hread⟩ := VariableSelector.isRead_of_mem hdefault.1 hl hmem
    obtain ⟨items, hr⟩ := hread.hasContainers hlist
    obtain ⟨item, hitem, name, hname, hfield⟩ := hread.exists_element hr hmem
    obtain ⟨-, hplace, -⟩ := VariableSelector.fieldAt_eq_some hfield
    exact ⟨items, hr, item, hitem, name, hname, (Option.some.inj hpath).symm.trans hplace⟩

theorem isPlaced_of_mem (hlist : r.HasContainerList) {f : TunableField} (hf : f ∈ found) :
    f.IsPlaced := by
  cases f with
  | replicas f =>
    obtain ⟨m, hm, s, _, hs, -, -⟩ := exists_replicaSelector h hf
    have hfield := fieldAt_of_mem_replicas hcustom h hf hm hs
    exact (ReplicaSelector.fieldAt_eq_some hfield).2
  | container f =>
    obtain ⟨items, hr, item, hitem, name, hname, hpath⟩ :=
      exists_item_of_mem hcustom h hlist hf rfl
    exact ⟨name, hpath, hr.names_literal item hitem name hname⟩
  | envVar f =>
    obtain ⟨items, hr, item, hitem, name, hname, hpath⟩ :=
      exists_item_of_mem hcustom h hlist hf rfl
    obtain ⟨m, hm, s, l, hs, hl, hmem⟩ := exists_variableSelector h hf
    have hdefault := hcustom.isDefault hm hs
    obtain ⟨_, _, _, _, -, -, -, hfield⟩ := VariableSelector.exists_of_mem_fields hl hmem
    obtain ⟨-, -, hsame, -⟩ := VariableSelector.fieldAt_eq_some hfield
    refine ⟨name, hpath, hr.names_literal item hitem name hname, ?_⟩
    rw [hsame]
    exact hdefault.2

/-- What a selector reads at a place is one field. -/
theorem onePerPlace (hlist : r.HasContainerList) : OnePerPlace found where
  replicas := by
    intro f g hf hg
    obtain ⟨m, hm, s, _, hs, -, -⟩ := exists_replicaSelector h hf
    have hfield := fieldAt_of_mem_replicas hcustom h hf hm hs
    have hother := fieldAt_of_mem_replicas hcustom h hg hm hs
    exact Option.some.inj (Except.ok.inj (hfield.symm.trans hother))
  container := by
    intro f g hf hg hsame
    obtain ⟨m, hm, s, _, hs, -, -⟩ := exists_containerSelector h hf
    obtain ⟨items, hr, item, hitem, name, hname, hpath⟩ :=
      exists_item_of_mem hcustom h hlist hf rfl
    have hfield := fieldAt_of_mem_container hcustom h hr hf hm hs hitem hname hpath
    have hother := fieldAt_of_mem_container hcustom h hr hg hm hs hitem hname (hsame ▸ hpath)
    exact Option.some.inj (Except.ok.inj (hfield.symm.trans hother))
  envVar := by
    intro f g hf hg hsame hvar
    obtain ⟨m, hm, s, l, hs, hl, hmem⟩ := exists_variableSelector h hf
    obtain ⟨_, _, _, _, -, -, -, hown⟩ := VariableSelector.exists_of_mem_fields hl hmem
    obtain ⟨-, -, hownName, -⟩ := VariableSelector.fieldAt_eq_some hown
    obtain ⟨items, hr, item, hitem, name, hname, hpath⟩ :=
      exists_item_of_mem hcustom h hlist hf rfl
    have hfield := fieldAt_of_mem_envVar hcustom h hr hf hm hs hownName hitem hname hpath
    have hother := fieldAt_of_mem_envVar hcustom h hr hg hm hs (hvar.symm.trans hownName) hitem
      hname (hsame ▸ hpath)
    exact Option.some.inj (Except.ok.inj (hfield.symm.trans hother))

end Fields

/-! ### Rereading the list of containers -/

/-- The elements that are found by name admit what each of them admits. -/
theorem Resource.HasContainers.admitsAlong {r : Resource} {items : List Json}
    (hr : r.HasContainers items) {rest : Location} (hrest : ∀ item ∈ items, item.AdmitsAlong rest)
    (name : String) : r.tree.AdmitsAlong (members containersKeys ++ .named name :: rest) := by
  apply admitsAlong_append (admitsAlong_members _ _)
  intro value hvalue
  rw [← follow?_eq_reach?] at hvalue
  rcases hr.lists with ⟨hnone, -⟩ | hitems
  · rw [hvalue] at hnone
    cases value with
    | null => exact admitsAlong_null _
    | _ => cases hnone
  · obtain rfl : array items = value := Option.some.inj (hitems.symm.trans hvalue)
    refine ⟨?_, fun item hitem => hrest item (mem_of_findNamed? hitem)⟩
    rintro _ ⟨⟩
    exact hr.named

theorem forall₂_map_name? {α : Type} {R : Json → Option α → Prop} {settle : α → α}
    {items merged : List Json} {fields : List (Option α)} (h : List.Forall₂ R items fields)
    (hnames : merged.map name? = items.map name?)
    (hstep : ∀ item ∈ items, ∀ next ∈ merged, next.name? = item.name? → ∀ field?,
      R item field? → R next (field?.map settle)) :
    List.Forall₂ R merged (fields.map (Option.map settle)) := by
  induction h generalizing merged with
  | nil =>
    obtain rfl : merged = [] := by simpa using hnames
    exact .nil
  | cons hhead _ ih =>
    cases merged with
    | nil => simp at hnames
    | cons next rest =>
      obtain ⟨hname, hrest⟩ := List.cons.inj hnames
      refine .cons (hstep _ List.mem_cons_self next List.mem_cons_self hname _ hhead) (ih hrest ?_)
      exact fun item hitem next hnext => hstep item (List.mem_cons_of_mem _ hitem) next
        (List.mem_cons_of_mem _ hnext)

theorem filterMap_map_map {α : Type} (settle : α → α) (fields : List (Option α)) :
    (fields.map (Option.map settle)).filterMap id = (fields.filterMap id).map settle := by
  rw [List.filterMap_map, List.map_filterMap]
  rfl

theorem IsRead.mem_of_read {α : Type} {read : FieldPath → Json → Outcome (Option α)}
    {r : Resource} {items : List Json} {l : List α}
    (hread : IsRead read r.tree containersKeys l) (hr : r.HasContainers items) {item : Json}
    {name : String} (hitem : item ∈ items) (hname : item.name? = some name) {field : α}
    (hfield : read (.ofElement containersKeys name) item = .ok (some field)) : field ∈ l := by
  obtain ⟨-, others, fields, hlists, hfields, rfl⟩ := hread
  obtain rfl := lists_unique hlists hr.lists
  obtain ⟨field?, hmem, own, hown, hsame⟩ := exists_right_of_mem hfields hitem
  obtain rfl : own = name := Option.some.inj (hown.symm.trans hname)
  obtain rfl : some field = field? := Except.ok.inj (hfield.symm.trans hsame)
  exact List.mem_filterMap.mpr ⟨some field, hmem, rfl⟩

section Merge
variable [RegexEngine] {matchers : List (Matcher × Selector)} {r : Resource} {found : List TunableField}
  {items : List Json} {namer : Namer} {bindings : Bindings} {data : Json}
  (hcustom : IsCustomaryMatchers matchers) (h : Generator.fieldsOf matchers r = .ok found)
  (hlist : r.HasContainerList) (hpatch : IsBaselinePatch namer bindings found data)
  {m : Matcher × Selector}
include hcustom h hlist hpatch

/-- Where each element is read as settled after the merge, so is the whole list. -/
theorem IsRead.merge {α : Type} {read : FieldPath → Json → Outcome (Option α)} {settle : α → α}
    {l : List α} (hread : IsRead read r.tree containersKeys l) (hr : r.HasContainers items)
    (hstep : ∀ item ∈ items, ∀ name next, item.name? = some name →
      (∀ rest, r.tree.reach? (members containersKeys ++ .named name :: rest) = item.reach? rest) →
      (∀ rest, (r.tree.merge data).reach? (members containersKeys ++ .named name :: rest) =
        next.reach? rest) →
      ∀ field?, read (.ofElement containersKeys name) item = .ok field? →
        read (.ofElement containersKeys name) next = .ok (field?.map settle)) :
    IsRead read (r.tree.merge data) containersKeys (l.map settle) := by
  obtain ⟨hpass, others, fields, hlists, hfields, rfl⟩ := hread
  obtain rfl := lists_unique hlists hr.lists
  have helement : ∀ name, data.Overlays (members containersKeys ++ [.named name]) :=
    fun name => hpatch.overlays (.element name)
  have hnames : ∀ name, data.reach? (members containersKeys ++ [.named name]) ≠ none →
      some name ∈ others.map name? := by
    intro name hreach
    by_contra hnew
    refine hreach (hpatch.reach?_element fun f hf hown => hnew ?_)
    obtain ⟨items, hitems, item, hitem, own, hownName, hpath⟩ :=
      exists_item_of_mem hcustom h hlist hf hown
    obtain rfl := lists_unique hitems.lists hr.lists
    obtain rfl := FieldPath.ofElement_inj hpath
    exact hownName ▸ List.mem_map_of_mem hitem
  obtain ⟨merged, hmerged, hsame⟩ := lists_merge hr.lists hr.named helement hnames
  refine ⟨hpass.merge (overlays_append.mp (helement "")).1, merged,
    fields.map (Option.map settle), hmerged, ?_, (filterMap_map_map settle fields).symm⟩
  refine forall₂_map_name? hfields hsame ?_
  rintro item hitem next hnext hname field? ⟨name, hown, hfield⟩
  refine ⟨name, hname.trans hown, hstep item hitem name next hown (fun rest => ?_) (fun rest => ?_)
    field? hfield⟩
  · rw [FieldPath.reach?_element hr.lists, findNamed?_of_mem hr.names_nodup hitem hown]
    rfl
  · rw [FieldPath.reach?_element hmerged,
      findNamed?_of_mem (hsame ▸ hr.names_nodup) hnext (hname.trans hown)]
    rfl

omit hlist in
theorem replicas_merge (hm : m ∈ matchers) (hselects : m.1.selects r = true) {s : ReplicaSelector}
    (hs : m.2 = .replicas s) {l : List ReplicaField} (hl : s.fields r = .ok l) :
    s.fields (r.merge data) = .ok (l.map ReplicaField.settled) := by
  have hdefault := hcustom.isDefault hm hs
  obtain ⟨hpass, field?, hfield, rfl⟩ := (ReplicaSelector.fields_eq_ok hdefault).mp hl
  have hfields : m.2.fields r = .ok (field?.toList.map .replicas) := by
    rw [hs]
    exact map_eq_ok.mpr ⟨_, hl, rfl⟩
  have hadmits : r.tree.AdmitsAlong Spot.replicas.location := admitsAlong_members _ _
  have hmap : field?.toList.map ReplicaField.settled =
      (field?.map ReplicaField.settled).toList := by
    cases field? <;> rfl
  refine (ReplicaSelector.fields_eq_ok hdefault).mpr ⟨hpass.merge (hpatch.overlays .replicas),
    field?.map ReplicaField.settled, ReplicaSelector.fieldAt_settled hfield ?_ ?_, hmap⟩
  · intro f hf count hbaseline
    have hmem : TunableField.replicas f ∈ found := by
      refine mem_of_mem_fields h hm hselects hfields ?_ ?_
      · rw [Option.mem_def.mp hf]
        exact List.mem_cons_self
      · simp [TunableField.suffixes, ReplicaField.suffixes, hbaseline]
    obtain ⟨written, hwritten, hreach⟩ := hpatch.reach?_replicas hadmits hmem
    obtain rfl := Option.some.inj (hwritten.symm.trans hbaseline)
    rw [follow?_eq_reach?]
    exact hreach
  · intro hnone
    rw [follow?_eq_reach?, follow?_eq_reach?]
    refine hpatch.reach?_kept .replicas hadmits trivial fun f hf => ?_
    cases htext : f.textAt namer .replicas with
    | none => rfl
    | some text =>
      obtain ⟨field, rfl⟩ := TunableField.textAt_replicas htext
      have hread := fieldAt_of_mem_replicas hcustom h hf hm hs
      obtain rfl := Except.ok.inj (hread.symm.trans hfield)
      have htunable := hpatch.tunable _ hf
      simp [TunableField.suffixes, ReplicaField.suffixes, hnone field rfl] at htunable

theorem containers_merge (hm : m ∈ matchers) (hselects : m.1.selects r = true)
    {s : ContainerSelector} (hs : m.2 = .containers s) {l : List ContainerField}
    (hl : s.fields r = .ok l) :
    s.fields (r.merge data) = .ok (l.map ContainerField.settled) := by
  have hdefault := hcustom.isDefault hm hs
  have hread := (ContainerSelector.fields_eq_ok hdefault).mp hl
  obtain ⟨items, hr⟩ := hread.hasContainers hlist
  have hfields : m.2.fields r = .ok (l.map .container) := by
    rw [hs]
    exact map_eq_ok.mpr ⟨_, hl, rfl⟩
  have hadmits : ∀ name requested suffix,
      r.tree.AdmitsAlong (Spot.resource name requested suffix).location :=
    fun name requested suffix => hr.admitsAlong (fun item _ => admitsAlong_members item _) name
  refine (ContainerSelector.fields_eq_ok hdefault).mpr
    (hread.merge hcustom h hlist hpatch hr fun item hitem name next hname hbefore hafter field?
      hfield => ContainerSelector.fieldAt_settled hfield ⟨?_, ?_⟩)
  · intro f hf suffix b hb requested
    obtain rfl := Option.mem_def.mp hf
    obtain ⟨-, hpath⟩ := ContainerSelector.fieldAt_eq_some hfield
    have htunable : (TunableField.container f).suffixes ≠ [] :=
      List.ne_nil_of_mem (List.mem_map_of_mem (List.mem_of_find?_eq_some hb))
    have hmem := mem_of_mem_fields h hm hselects hfields
      (List.mem_map_of_mem (hread.mem_of_read hr hitem hname hfield)) htunable
    rw [ContainerSelector.declaredAt, follow?_eq_reach?, ← hafter]
    exact hpatch.reach?_resource (hadmits name requested suffix) hmem hpath hb
  · intro suffix hnone requested
    rw [ContainerSelector.declaredAt, ContainerSelector.declaredAt, follow?_eq_reach?,
      follow?_eq_reach?, ← hafter, ← hbefore]
    refine hpatch.reach?_kept (.resource name requested suffix)
      (hadmits name requested suffix) trivial fun f hf => ?_
    cases htext : f.textAt namer (.resource name requested suffix) with
    | none => rfl
    | some text =>
      obtain ⟨field, b, rfl, hpath, hb⟩ := TunableField.textAt_resource htext
      have hown := fieldAt_of_mem_container hcustom h hr hf hm hs hitem hname hpath
      obtain rfl := Except.ok.inj (hown.symm.trans hfield)
      exact absurd hb (by simp [hnone field rfl])

theorem variables_merge (hm : m ∈ matchers) (hselects : m.1.selects r = true)
    {s : VariableSelector} (hs : m.2 = .envVar s) {l : List VariableField}
    (hl : s.fields r = .ok l) :
    s.fields (r.merge data) = .ok (l.map VariableField.settled) := by
  have hdefault := hcustom.isDefault hm hs
  have hfields : m.2.fields r = .ok (l.map .envVar) := by
    rw [hs]
    exact map_eq_ok.mpr ⟨_, hl, rfl⟩
  obtain ⟨hname, hcases⟩ := (VariableSelector.fields_eq_ok hdefault.1).mp hl
  refine (VariableSelector.fields_eq_ok hdefault.1).mpr ⟨hname, ?_⟩
  rcases hcases with ⟨hvalues, rfl⟩ | ⟨hvalues, hread⟩
  · exact .inl ⟨hvalues, rfl⟩
  · right
    obtain ⟨items, hr⟩ := hread.hasContainers hlist
    have henv : ∀ item ∈ items, ∀ rest : List String,
        item.AdmitsAlong (.member "env" :: .named s.name :: members rest) := by
      intro item hitem rest
      refine ⟨trivial, fun env henv => ⟨?_, fun entry _ => admitsAlong_members entry rest⟩⟩
      rintro entries rfl
      exact hr.env_named item hitem entries henv
    refine ⟨hvalues, hread.merge hcustom h hlist hpatch hr fun item hitem name next hname hbefore
      hafter field? hfield => ?_⟩
    cases field? with
    | none =>
      apply VariableSelector.fieldAt_kept hfield
      rw [← hafter, ← hbefore]
      refine hpatch.reach?_entry_kept (hr.admitsAlong (fun item hitem => henv item hitem []) name)
        fun f hf hpath hvar => ?_
      have hown := fieldAt_of_mem_envVar hcustom h hr hf hm hs hvar hitem hname hpath
      cases hown.symm.trans hfield
    | some f =>
      obtain ⟨-, hpath, hvar, hsame⟩ := VariableSelector.fieldAt_eq_some hfield
      have htunable : (TunableField.envVar f).suffixes ≠ [] := by
        have hne : f.values.isEmpty = false := by simpa [hsame] using hvalues
        simp [TunableField.suffixes, VariableField.suffixes, hne]
      have hmem := mem_of_mem_fields h hm hselects hfields
        (List.mem_map_of_mem (hread.mem_of_read hr hitem hname hfield)) htunable
      have hadmits : r.tree.AdmitsAlong (Spot.value name f.name).location := by
        rw [hvar]
        exact hr.admitsAlong (fun item hitem => henv item hitem ["value"]) name
      obtain ⟨text, hsettled, hreach⟩ := hpatch.reach?_value hadmits hmem hpath
      apply VariableSelector.fieldAt_settled hfield hsettled
      rw [← hafter, ← hvar]
      exact hreach

/-- A selector finds the settled fields in the patched resource. -/
theorem fields_merge (hm : m ∈ matchers) (hselects : m.1.selects r = true)
    {fields : List TunableField} (hfields : m.2.fields r = .ok fields) :
    m.2.fields (r.merge data) = .ok (fields.map TunableField.settled) := by
  cases hs : m.2 with
  | replicas s =>
    rw [hs] at hfields
    obtain ⟨l, hl, rfl⟩ := map_eq_ok.mp hfields
    have hmerged := replicas_merge hcustom h hpatch hm hselects hs hl
    exact map_eq_ok.mpr ⟨_, hmerged, by simp [TunableField.settled, Function.comp_def]⟩
  | containers s =>
    rw [hs] at hfields
    obtain ⟨l, hl, rfl⟩ := map_eq_ok.mp hfields
    have hmerged := containers_merge hcustom h hlist hpatch hm hselects hs hl
    exact map_eq_ok.mpr ⟨_, hmerged, by simp [TunableField.settled, Function.comp_def]⟩
  | envVar s =>
    rw [hs] at hfields
    obtain ⟨l, hl, rfl⟩ := map_eq_ok.mp hfields
    have hmerged := variables_merge hcustom h hlist hpatch hm hselects hs hl
    exact map_eq_ok.mpr ⟨_, hmerged, by simp [TunableField.settled, Function.comp_def]⟩

theorem tunableFields_merge (hm : m ∈ matchers) (hselects : m.1.selects r = true)
    {fields : List TunableField} (hfields : Generator.tunableFields r m.2 = .ok fields) :
    Generator.tunableFields (r.merge data) m.2 = .ok (fields.map TunableField.settled) := by
  obtain ⟨all, hall, rfl⟩ := map_eq_ok.mp hfields
  refine map_eq_ok.mpr ⟨_, fields_merge hcustom h hlist hpatch hm hselects hall, ?_⟩
  rw [List.filter_map]
  congr 1
  apply List.filter_congr
  intro f _
  rw [Function.comp_apply, f.suffixes_settled]

omit hcustom h hlist in
/-- Neither the reference nor the labels of a resource are patched. -/
theorem selects_merge (matcher : Matcher) : matcher.selects (r.merge data) = matcher.selects r := by
  have hmetadata : (r.tree.merge data).get? "metadata" = r.tree.get? "metadata" := by
    have hkept := hpatch.reach?_kept .metadata
      (admitsAlong_members r.tree ["metadata"]) trivial fun f _ => by cases f <;> rfl
    have hsingle : ∀ json : Json, json.reach? Spot.metadata.location = json.get? "metadata" :=
      fun json => Option.bind_fun_some _
    rwa [hsingle, hsingle] at hkept
  have hlabels : (r.merge data).labels = r.labels := by
    have hfollow : ∀ json : Json, json.follow? ["metadata", "labels"] =
        (json.get? "metadata").bind (follow? · ["labels"]) := fun _ => rfl
    simp only [Resource.labels, Resource.merge, hfollow, hmetadata]
  simp only [Matcher.selects, hlabels]
  rfl

/-- The fields of the patched resource are the settled fields. -/
theorem fieldsOf_merge :
    Generator.fieldsOf matchers (r.merge data) = .ok (found.map TunableField.settled) := by
  have hchosen : (matchers.filter fun m => m.1.selects (r.merge data)) =
      matchers.filter fun m => m.1.selects r :=
    List.filter_congr fun m _ => selects_merge hpatch m.1
  obtain ⟨parts, hparts, hfound⟩ := bind_eq_ok.mp h
  obtain rfl := Except.ok.inj hfound
  rw [Generator.fieldsOf, hchosen]
  refine bind_eq_ok.mpr ⟨parts.map (List.map TunableField.settled), mapM_eq_ok.mpr ?_, ?_⟩
  · have hmem : ∀ m ∈ matchers.filter fun m => m.1.selects r,
        m ∈ matchers ∧ m.1.selects r = true := fun m hm => List.mem_filter.mp hm
    rw [List.forall₂_map_right_iff]
    refine ((List.forall₂_and_left _ _).mpr ⟨hmem, mapM_eq_ok.mp hparts⟩).imp ?_
    rintro m part ⟨⟨hm, hselects⟩, hpart⟩
    exact tunableFields_merge hcustom h hlist hpatch hm hselects hpart
  · rw [← List.map_flatten]
    rfl

end Merge

end WorkloadTuning
