import WorkloadTuning.Proofs.Generation.Fragments
import WorkloadTuning.Proofs.Quantity.Whole

/-! How selectors at the default paths read a tree. The fields of a selector depend on the shape of
the tree down to the list of containers, on the names of the containers, and on what is found at the
spots of the fields. -/

namespace WorkloadTuning

open Json
open FieldPath (Lists)
open Selector (replicasKeys containersKeys)

/-! ### Reading one location, and reading the elements of a list -/

theorem ReplicaSelector.fields_eq_ok {s : ReplicaSelector}
    (hpath : s.path = Selector.defaultReplicasPath) {r : Resource} {found : List ReplicaField} :
    s.fields r = .ok found ↔ r.tree.Passable replicasKeys ∧ ∃ field?,
      s.fieldAt r.target (.ofFields replicasKeys) (r.tree.follow? replicasKeys) = .ok field? ∧
        found = field?.toList := by
  rw [fields, hpath, Selector.parse_defaultReplicasPath, bind_eq_ok]
  have hlist : ∀ field? : Option ReplicaField, [field?].filterMap id = field?.toList := by
    intro field?
    cases field? <;> rfl
  constructor
  · rintro ⟨_, ⟨⟩, h⟩
    obtain ⟨places, hplaces, h⟩ := bind_eq_ok.mp h
    obtain ⟨hpass, rfl⟩ := FieldPath.expand_ofFields.mp (mapError_eq_ok.mp hplaces)
    obtain ⟨fields, hfields, h⟩ := bind_eq_ok.mp h
    obtain rfl := Except.ok.inj h
    obtain ⟨field?, rest, hfield, hrest, rfl⟩ :=
      List.forall₂_cons_left_iff.mp (mapM_eq_ok.mp hfields)
    obtain rfl := List.forall₂_nil_left_iff.mp hrest
    exact ⟨hpass, field?, hfield, hlist field?⟩
  · rintro ⟨hpass, field?, hfield, rfl⟩
    refine ⟨_, rfl, bind_eq_ok.mpr ⟨_, mapError_eq_ok.mpr
      (FieldPath.expand_ofFields.mpr ⟨hpass, rfl⟩), bind_eq_ok.mpr ⟨[field?], ?_, ?_⟩⟩⟩
    · exact mapM_eq_ok.mpr (.cons hfield .nil)
    · rw [hlist]
      rfl

section Elements
variable {α : Type} {read : FieldPath → Json → Outcome (Option α)} {tree : Json}
  {keys : List String} {found : List α}

/-- What is read from the elements of the list under the keys. -/
def IsRead (read : FieldPath → Json → Outcome (Option α)) (tree : Json) (keys : List String)
    (found : List α) : Prop :=
  tree.Passable keys ∧ ∃ items fields, Lists tree keys items ∧
    List.Forall₂ (fun item field? => ∃ name, item.name? = some name ∧
      read (.ofElement keys name) item = .ok field?) items fields ∧ found = fields.filterMap id

theorem isRead_iff : IsRead read tree keys found ↔
    (do
      let places ← (((FieldPath.ofFields keys).push .wildcard).expand tree).mapError Error.path
      let fields ← places.mapM fun (path, item) => read path (item.getD .null)
      return fields.filterMap id) = Except.ok found := by
  rw [bind_eq_ok]
  constructor
  · rintro ⟨hpass, items, fields, hlists, hfields, rfl⟩
    have hnames : ∃ places : List (FieldPath × Option Json),
        List.Forall₂ (fun item place => ∃ name, item.name? = some name ∧
          place = (.ofElement keys name, some item)) items places ∧
        List.Forall₂ (fun place field? => read place.1 (place.2.getD .null) = .ok field?)
          places fields := by
      clear hlists
      induction hfields with
      | nil => exact ⟨[], .nil, .nil⟩
      | cons hhead _ ih =>
        obtain ⟨name, hname, hread⟩ := hhead
        obtain ⟨places, hplaces, hall⟩ := ih
        exact ⟨_ :: places, .cons ⟨name, hname, rfl⟩ hplaces, .cons hread hall⟩
    obtain ⟨places, hplaces, hall⟩ := hnames
    exact ⟨places, mapError_eq_ok.mpr (FieldPath.expand_elements.mpr ⟨hpass, items, hlists, hplaces⟩),
      bind_eq_ok.mpr ⟨fields, mapM_eq_ok.mpr hall, rfl⟩⟩
  · rintro ⟨places, hplaces, h⟩
    obtain ⟨hpass, items, hlists, hall⟩ := FieldPath.expand_elements.mp (mapError_eq_ok.mp hplaces)
    obtain ⟨fields, hfields, h⟩ := bind_eq_ok.mp h
    obtain rfl := Except.ok.inj h
    refine ⟨hpass, items, fields, hlists, forall₂_trans hall (mapM_eq_ok.mp hfields) ?_, rfl⟩
    rintro item _ field? ⟨name, hname, rfl⟩ hread
    exact ⟨name, hname, hread⟩

end Elements

theorem ContainerSelector.fields_eq_ok {s : ContainerSelector}
    (hpath : s.path = Selector.defaultContainersPath) {r : Resource}
    {found : List ContainerField} :
    s.fields r = .ok found ↔ IsRead (s.fieldAt r.target) r.tree containersKeys found := by
  rw [isRead_iff, fields, hpath, Selector.parse_defaultContainersPath]
  rfl

theorem VariableSelector.fields_eq_ok {s : VariableSelector}
    (hpath : s.path = Selector.defaultContainersPath) {r : Resource} {found : List VariableField} :
    s.fields r = .ok found ↔ s.name ≠ "" ∧ (s.values = [] ∧ found = [] ∨
      s.values ≠ [] ∧ IsRead (s.fieldAt r.target) r.tree containersKeys found) := by
  rw [isRead_iff, fields, hpath, Selector.parse_defaultContainersPath]
  by_cases hname : s.name = ""
  · have hempty : s.name.isEmpty = true := String.isEmpty_iff.mpr hname
    rw [if_pos hempty]
    constructor
    · intro h
      cases h
    · exact fun h => absurd hname h.1
  · have hempty : s.name.isEmpty = false := by simpa using hname
    rw [hempty]
    by_cases hvalues : s.values = []
    · have hnone : s.values.isEmpty = true := List.isEmpty_iff.mpr hvalues
      rw [hnone]
      constructor
      · intro h
        exact ⟨hname, .inl ⟨hvalues, (Except.ok.inj h).symm⟩⟩
      · rintro ⟨-, ⟨-, rfl⟩ | ⟨hne, -⟩⟩
        · rfl
        · exact absurd hvalues hne
    · have hnone : s.values.isEmpty = false := by simpa using hvalues
      rw [hnone]
      constructor
      · exact fun h => ⟨hname, .inr ⟨hvalues, h⟩⟩
      · rintro ⟨-, ⟨heq, -⟩ | ⟨-, h⟩⟩
        · exact absurd heq hvalues
        · exact h

end WorkloadTuning
