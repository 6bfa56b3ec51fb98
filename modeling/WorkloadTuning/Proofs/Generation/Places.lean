import Mathlib.Data.List.Pairwise
import WorkloadTuning.Proofs.Generation.Written
import WorkloadTuning.Proofs.Selection.Reading

/-! The places of fields. With selectors that look for different things at the default paths, and
containers whose names differ, every field of a resource has a place of its own: what a selector reads
there is that field. -/

namespace WorkloadTuning

open Json
open FieldPath (Lists)
open Template (IsLiteral)
open Selector (replicasKeys containersKeys)

/-! ### Selectors -/

namespace Selector

/-- The two look for different kinds of fields, or for different variables. -/
def Apart : Selector → Selector → Prop
  | replicas _, replicas _ => False
  | containers _, containers _ => False
  | envVar s, envVar t => s.name ≠ t.name
  | _, _ => True

instance : Std.Symm Apart where
  symm s t h := by
    cases s <;> cases t <;> first | exact h | exact Ne.symm h

/-- The selector looks at the default path of its kind; a variable has a literal name. -/
def IsDefault : Selector → Prop
  | replicas s => s.path = defaultReplicasPath
  | containers s => s.path = defaultContainersPath
  | envVar s => s.path = defaultContainersPath ∧ IsLiteral s.name

end Selector

/-- The selectors of a generator are at the default paths, and no two look for the same. -/
structure Generator.IsCustomary (g : Generator) : Prop where
  apart : g.selectors.Pairwise Selector.Apart
  default_path : ∀ s ∈ g.selectors, s.IsDefault

/-! ### Containers -/

/-- Containers are told apart by names without placeholders, and the entries of an environment have
names. -/
structure IsContainerList (items : List Json) : Prop where
  names_nodup : (items.filterMap name?).Nodup
  names_literal : ∀ item ∈ items, ∀ name, item.name? = some name → IsLiteral name
  env_named : ∀ item ∈ items, ∀ env, item.get? "env" = some (array env) → isNamedList env = true

namespace Resource

/-- What is at the default path of the containers is such a list, if it is a list at all. -/
def HasContainerList (r : Resource) : Prop :=
  ∀ items, r.tree.follow? containersKeys = some (array items) → IsContainerList items

/-- The containers of a resource in which all of them have a name. -/
structure HasContainers (r : Resource) (items : List Json) : Prop where
  lists : Lists r.tree containersKeys items
  named : isNamedList items = true
  names_nodup : (items.map name?).Nodup
  names_literal : ∀ item ∈ items, ∀ name, item.name? = some name → IsLiteral name
  env_named : ∀ item ∈ items, ∀ env, item.get? "env" = some (array env) → isNamedList env = true

end Resource

theorem lists_unique {tree : Json} {keys : List String} {items others : List Json}
    (h : Lists tree keys items) (hothers : Lists tree keys others) : items = others := by
  rcases h with ⟨hnone, rfl⟩ | hitems
  · rcases hothers with ⟨-, rfl⟩ | hothers
    · rfl
    · rw [hothers] at hnone
      cases hnone
  · rcases hothers with ⟨hnone, rfl⟩ | hothers
    · rw [hitems] at hnone
      cases hnone
    · rw [hitems] at hothers
      exact Json.array.inj (Option.some.inj hothers)

section Reading
variable {r : Resource} {items : List Json}

/-- Elements can only be read where all of them have a name. -/
theorem IsRead.hasContainers {α : Type} {read : FieldPath → Json → Outcome (Option α)}
    {found : List α} (h : IsRead read r.tree containersKeys found) (hr : r.HasContainerList) :
    ∃ items, r.HasContainers items := by
  obtain ⟨-, items, fields, hlists, hfields, -⟩ := h
  have hnamed : isNamedList items = true := by
    rw [isNamedList, List.all_eq_true]
    intro item hitem
    obtain ⟨_, -, name, hname, -⟩ := exists_right_of_mem hfields hitem
    rw [hname]
    rfl
  have hlist : IsContainerList items := by
    rcases hlists with ⟨-, rfl⟩ | hitems
    · exact ⟨List.nodup_nil, by simp, by simp⟩
    · exact hr items hitems
  exact ⟨items, hlists, hnamed, nodup_map_name? hnamed hlist.names_nodup, hlist.names_literal,
    hlist.env_named⟩

/-- A field that was read is that of an element of its path. -/
theorem IsRead.exists_element {α : Type} {read : FieldPath → Json → Outcome (Option α)}
    {found : List α} (h : IsRead read r.tree containersKeys found) (hr : r.HasContainers items)
    {field : α} (hfield : field ∈ found) : ∃ item ∈ items, ∃ name, item.name? = some name ∧
      read (.ofElement containersKeys name) item = .ok (some field) := by
  obtain ⟨-, others, fields, hlists, hfields, rfl⟩ := h
  obtain rfl := lists_unique hlists hr.lists
  obtain ⟨field?, hmem, heq⟩ := List.mem_filterMap.mp hfield
  obtain rfl : field? = some field := heq
  exact exists_left_of_mem hfields hmem

/-- Two elements of one name are the same. -/
theorem Resource.HasContainers.eq_of_name? (hr : r.HasContainers items) {item other : Json}
    {name : String} (hitem : item ∈ items) (hother : other ∈ items)
    (hname : item.name? = some name) (hsame : other.name? = some name) : item = other :=
  List.inj_on_of_nodup_map hr.names_nodup hitem hother (hname.trans hsame.symm)

/-- A variable that was read has values, and its container is an element. -/
theorem VariableSelector.isRead_of_mem {s : VariableSelector}
    (hpath : s.path = Selector.defaultContainersPath) {l : List VariableField}
    (hl : s.fields r = .ok l) {f : VariableField} (hf : f ∈ l) :
    s.values ≠ [] ∧ IsRead (s.fieldAt r.target) r.tree containersKeys l := by
  rcases ((VariableSelector.fields_eq_ok hpath).mp hl).2 with ⟨-, rfl⟩ | h
  · simp at hf
  · exact h

end Reading

/-! ### The fields of a resource -/

/-- The selectors of a generator with their criteria read. -/
structure IsCustomaryMatchers [RegexEngine] (matchers : List (Matcher × Selector)) : Prop where
  apart : ∀ m ∈ matchers, ∀ n ∈ matchers, m.2 ≠ n.2 → m.2.Apart n.2
  default_path : ∀ m ∈ matchers, m.2.IsDefault

theorem IsCustomaryMatchers.isDefault [RegexEngine] {matchers : List (Matcher × Selector)}
    (h : IsCustomaryMatchers matchers) {m : Matcher × Selector} (hm : m ∈ matchers) {s : Selector}
    (hs : m.2 = s) : s.IsDefault :=
  hs ▸ h.default_path m hm

theorem Generator.IsCustomary.matchers [RegexEngine] {g : Generator} (h : g.IsCustomary)
    {matchers : List (Matcher × Selector)} (hmatchers : g.matchers = .ok matchers) :
    IsCustomaryMatchers matchers := by
  have hselector : ∀ m ∈ matchers, m.2 ∈ g.selectors := by
    intro m hm
    obtain ⟨s, hs, hmatcher⟩ := exists_of_mem_mapM hmatchers hm
    obtain ⟨_, -, rfl⟩ := map_eq_ok.mp hmatcher
    exact hs
  refine ⟨fun m hm n hn hne => ?_, fun m hm => h.default_path _ (hselector m hm)⟩
  exact h.apart.forall (hselector m hm) (hselector n hn) hne

section Fields
variable [RegexEngine] {matchers : List (Matcher × Selector)} {r : Resource} {found : List TunableField}
  {items : List Json}

theorem mem_of_mem_fields (h : Generator.fieldsOf matchers r = .ok found) {m : Matcher × Selector}
    (hm : m ∈ matchers) (hselects : m.1.selects r = true) {fields : List TunableField}
    (hfields : m.2.fields r = .ok fields) {f : TunableField} (hf : f ∈ fields)
    (htunable : f.suffixes ≠ []) : f ∈ found := by
  obtain ⟨lists, hlists, h⟩ := bind_eq_ok.mp h
  obtain rfl := Except.ok.inj h
  obtain ⟨part, hpart, htunables⟩ :=
    exists_right_of_mem (mapM_eq_ok.mp hlists) (List.mem_filter.mpr ⟨hm, hselects⟩)
  obtain ⟨all, hall, rfl⟩ := map_eq_ok.mp htunables
  obtain rfl := Except.ok.inj (hall.symm.trans hfields)
  exact List.mem_flatten.mpr ⟨_, hpart, List.mem_filter.mpr ⟨hf, by simpa using htunable⟩⟩

theorem tunable_of_mem (h : Generator.fieldsOf matchers r = .ok found) {f : TunableField}
    (hf : f ∈ found) : f.suffixes ≠ [] := by
  obtain ⟨-, -, -, htunable, -⟩ := Generator.exists_of_mem_fieldsOf h hf
  exact htunable

/-- A field is read by a selector of its kind. -/
theorem exists_replicaSelector (h : Generator.fieldsOf matchers r = .ok found) {f : ReplicaField}
    (hf : .replicas f ∈ found) : ∃ m ∈ matchers, ∃ s l, m.2 = .replicas s ∧
      s.fields r = .ok l ∧ f ∈ l := by
  obtain ⟨⟨matcher, selector⟩, hm, -, -, fields, hfields, hmem⟩ :=
    Generator.exists_of_mem_fieldsOf h hf
  cases selector with
  | replicas s =>
    obtain ⟨l, hl, rfl⟩ := map_eq_ok.mp hfields
    exact ⟨_, hm, s, l, rfl, hl, by simpa using hmem⟩
  | containers s =>
    obtain ⟨l, -, rfl⟩ := map_eq_ok.mp hfields
    simp at hmem
  | envVar s =>
    obtain ⟨l, -, rfl⟩ := map_eq_ok.mp hfields
    simp at hmem

theorem exists_containerSelector (h : Generator.fieldsOf matchers r = .ok found)
    {f : ContainerField} (hf : .container f ∈ found) : ∃ m ∈ matchers, ∃ s l,
      m.2 = .containers s ∧ s.fields r = .ok l ∧ f ∈ l := by
  obtain ⟨⟨matcher, selector⟩, hm, -, -, fields, hfields, hmem⟩ :=
    Generator.exists_of_mem_fieldsOf h hf
  cases selector with
  | replicas s =>
    obtain ⟨l, -, rfl⟩ := map_eq_ok.mp hfields
    simp at hmem
  | containers s =>
    obtain ⟨l, hl, rfl⟩ := map_eq_ok.mp hfields
    exact ⟨_, hm, s, l, rfl, hl, by simpa using hmem⟩
  | envVar s =>
    obtain ⟨l, -, rfl⟩ := map_eq_ok.mp hfields
    simp at hmem

theorem exists_variableSelector (h : Generator.fieldsOf matchers r = .ok found)
    {f : VariableField} (hf : .envVar f ∈ found) : ∃ m ∈ matchers, ∃ s l,
      m.2 = .envVar s ∧ s.fields r = .ok l ∧ f ∈ l := by
  obtain ⟨⟨matcher, selector⟩, hm, -, -, fields, hfields, hmem⟩ :=
    Generator.exists_of_mem_fieldsOf h hf
  cases selector with
  | replicas s =>
    obtain ⟨l, -, rfl⟩ := map_eq_ok.mp hfields
    simp at hmem
  | containers s =>
    obtain ⟨l, -, rfl⟩ := map_eq_ok.mp hfields
    simp at hmem
  | envVar s =>
    obtain ⟨l, hl, rfl⟩ := map_eq_ok.mp hfields
    exact ⟨_, hm, s, l, rfl, hl, by simpa using hmem⟩

theorem IsCustomaryMatchers.eq_of_not_apart (hcustom : IsCustomaryMatchers matchers)
    {m n : Matcher × Selector} (hm : m ∈ matchers) (hn : n ∈ matchers) (h : ¬ m.2.Apart n.2) :
    m.2 = n.2 := by
  by_contra hne
  exact h (hcustom.apart m hm n hn hne)

variable (hcustom : IsCustomaryMatchers matchers)
  (h : Generator.fieldsOf matchers r = .ok found) {m : Matcher × Selector}
include hcustom h

/-- The field for replicas is what the selector of replicas reads. -/
theorem fieldAt_of_mem_replicas {f : ReplicaField} (hf : .replicas f ∈ found) (hm : m ∈ matchers)
    {s : ReplicaSelector} (hs : m.2 = .replicas s) :
    s.fieldAt r.target (.ofFields replicasKeys) (r.tree.follow? replicasKeys) = .ok (some f) := by
  obtain ⟨n, hn, t, l, ht, hl, hmem⟩ := exists_replicaSelector h hf
  have hsame := hcustom.eq_of_not_apart hm hn (by rw [hs, ht]; exact id)
  rw [hs, ht] at hsame
  obtain rfl := Selector.replicas.inj hsame
  have hdefault := hcustom.isDefault hm hs
  obtain ⟨-, field?, hfield, rfl⟩ := (ReplicaSelector.fields_eq_ok hdefault).mp hl
  obtain rfl : field? = some f := by simpa using hmem
  exact hfield

variable (hr : r.HasContainers items)
include hr

/-- The field of a container is what the selector of containers reads there. -/
theorem fieldAt_of_mem_container {f : ContainerField} (hf : .container f ∈ found)
    (hm : m ∈ matchers) {s : ContainerSelector} (hs : m.2 = .containers s) {item : Json}
    {name : String} (hitem : item ∈ items) (hname : item.name? = some name)
    (hpath : f.path = .ofElement containersKeys name) :
    s.fieldAt r.target (.ofElement containersKeys name) item = .ok (some f) := by
  obtain ⟨n, hn, t, l, ht, hl, hmem⟩ := exists_containerSelector h hf
  have hsame := hcustom.eq_of_not_apart hm hn (by rw [hs, ht]; exact id)
  rw [hs, ht] at hsame
  obtain rfl := Selector.containers.inj hsame
  have hdefault := hcustom.isDefault hm hs
  obtain ⟨other, hother, own, hown, hfield⟩ :=
    ((ContainerSelector.fields_eq_ok hdefault).mp hl).exists_element hr hmem
  have hplace := (ContainerSelector.fieldAt_eq_some hfield).2
  obtain rfl : own = name := FieldPath.ofElement_inj (hplace.symm.trans hpath)
  rwa [hr.eq_of_name? hitem hother hname hown]

/-- The field of a variable in a container is what the selector of the variable reads there. -/
theorem fieldAt_of_mem_envVar {f : VariableField} (hf : .envVar f ∈ found)
    (hm : m ∈ matchers) {s : VariableSelector} (hs : m.2 = .envVar s) (hvar : f.name = s.name)
    {item : Json} {name : String} (hitem : item ∈ items) (hname : item.name? = some name)
    (hpath : f.path = .ofElement containersKeys name) :
    s.fieldAt r.target (.ofElement containersKeys name) item = .ok (some f) := by
  obtain ⟨n, hn, t, l, ht, hl, hmem⟩ := exists_variableSelector h hf
  have hdefault := hcustom.isDefault hn ht
  obtain ⟨-, hread⟩ := VariableSelector.isRead_of_mem hdefault.1 hl hmem
  obtain ⟨other, hother, own, hown, hfield⟩ := hread.exists_element hr hmem
  obtain ⟨-, hplace, hsameName, -⟩ := VariableSelector.fieldAt_eq_some hfield
  have hsame := hcustom.eq_of_not_apart hm hn (by
    rw [hs, ht]
    exact fun hne => hne (hvar.symm.trans hsameName))
  rw [hs, ht] at hsame
  obtain rfl := Selector.envVar.inj hsame
  obtain rfl : own = name := FieldPath.ofElement_inj (hplace.symm.trans hpath)
  rwa [hr.eq_of_name? hitem hother hname hown]

end Fields

end WorkloadTuning
