import WorkloadTuning.Proofs.Json.Fields
import WorkloadTuning.Proofs.Template.Overlay

/-! Rendering before or after merging. Rendering may turn a text into a number, but it leaves the
shape of a document and the names of list elements as they are where no name holds a placeholder,
and the merge goes by nothing else. So templates that render merge to one that does, and it renders
to the merged documents. -/

namespace WorkloadTuning

namespace Json

open Template (IsLiteral)

/-- A text under the merge key has no placeholder. -/
def IsLiteralUnder (key : String) : Json → Prop
  | string text => key = mergeKey → IsLiteral text
  | _ => True

mutual

/-- No text under the merge key has a placeholder, at any depth. -/
def HasLiteralNames : Json → Prop
  | object members => HasLiteralNamesMembers members
  | array items => HasLiteralNamesItems items
  | null | bool _ | number _ | string _ => True

def HasLiteralNamesMembers : List (String × Json) → Prop
  | [] => True
  | (key, value) :: rest =>
    (value.IsLiteralUnder key ∧ HasLiteralNames value) ∧ HasLiteralNamesMembers rest

def HasLiteralNamesItems : List Json → Prop
  | [] => True
  | item :: rest => HasLiteralNames item ∧ HasLiteralNamesItems rest

end

theorem hasLiteralNamesMembers_iff {members : List (String × Json)} :
    HasLiteralNamesMembers members ↔
      ∀ e ∈ members, e.2.IsLiteralUnder e.1 ∧ HasLiteralNames e.2 := by
  induction members with
  | nil => simp [HasLiteralNamesMembers]
  | cons e rest ih => simp [HasLiteralNamesMembers, ih]

theorem hasLiteralNamesItems_iff {items : List Json} :
    HasLiteralNamesItems items ↔ ∀ item ∈ items, HasLiteralNames item := by
  induction items with
  | nil => simp [HasLiteralNamesItems]
  | cons item rest ih => simp [HasLiteralNamesItems, ih]

/-- Merging gives a text only where the patch is that text. -/
theorem IsLiteralUnder.merge {key : String} {patch : Json} (h : patch.IsLiteralUnder key)
    (target : Json) : (target.merge patch).IsLiteralUnder key := by
  cases patch with
  | array items =>
    obtain ⟨merged, hmerged, -⟩ := merge_array_eq target items
    rw [hmerged]
    trivial
  | string text => exact h
  | _ => trivial

end Json

namespace Template

open Json

variable {bindings : Bindings}

/-- The template with literal names renders to the document. -/
structure Fills (bindings : Bindings) (template document : Json) : Prop where
  literal : template.HasLiteralNames
  renders : render bindings template = .ok document

/-- The same of a member, whose text is no template if it is a name. -/
structure FillsMember (bindings : Bindings) (template document : String × Json) : Prop where
  key : document.1 = template.1
  literal : template.2.IsLiteralUnder template.1
  fills : Fills bindings template.2 document.2

/-! ### Parts of filled templates -/

theorem fills_array {items : List Json} {document : Json} :
    Fills bindings (array items) document ↔
      ∃ rendered, document = array rendered ∧ List.Forall₂ (Fills bindings) items rendered := by
  constructor
  · intro h
    obtain ⟨rendered, rfl, hrendered⟩ := render_array h.renders
    refine ⟨rendered, rfl, ?_⟩
    have hboth := (List.forall₂_and_left _ _).mpr
      ⟨hasLiteralNamesItems_iff.mp h.literal, hrendered⟩
    exact hboth.imp fun _ _ hitem => ⟨hitem.1, hitem.2⟩
  · rintro ⟨rendered, rfl, hitems⟩
    constructor
    · refine hasLiteralNamesItems_iff.mpr fun item hitem => ?_
      obtain ⟨_, -, hfills⟩ := exists_right_of_mem hitems hitem
      exact hfills.literal
    · exact map_eq_ok.mpr ⟨rendered, renderItems_eq_ok.mpr (hitems.imp fun _ _ => Fills.renders), rfl⟩

theorem fills_object {members : Members} {document : Json} :
    Fills bindings (object members) document ↔
      ∃ rendered, document = object rendered ∧
        List.Forall₂ (FillsMember bindings) members rendered := by
  constructor
  · intro h
    obtain ⟨rendered, rfl, hrendered⟩ := render_object h.renders
    refine ⟨rendered, rfl, ?_⟩
    have hboth := (List.forall₂_and_left _ _).mpr
      ⟨hasLiteralNamesMembers_iff.mp h.literal, hrendered⟩
    exact hboth.imp fun _ _ he => ⟨he.2.1, he.1.1, he.1.2, he.2.2⟩
  · rintro ⟨rendered, rfl, hmembers⟩
    constructor
    · refine hasLiteralNamesMembers_iff.mpr fun e he => ?_
      obtain ⟨_, -, hfills⟩ := exists_right_of_mem hmembers he
      exact ⟨hfills.literal, hfills.fills.literal⟩
    · exact map_eq_ok.mpr ⟨rendered, renderMembers_eq_ok.mpr (hmembers.imp fun _ _ h =>
        ⟨h.key, h.fills.renders⟩), rfl⟩

theorem fills_null : Fills bindings null null := ⟨trivial, rfl⟩

section Fills
variable {p d : Json}

/-- A document is an object if and only if its template is one. -/
theorem Fills.members (h : Fills bindings p d) :
    List.Forall₂ (FillsMember bindings) (p.asObject?.getD []) (d.asObject?.getD []) := by
  cases p with
  | object members =>
    obtain ⟨rendered, rfl, hmembers⟩ := fills_object.mp h
    exact hmembers
  | array items =>
    obtain ⟨rendered, rfl, -⟩ := fills_array.mp h
    exact .nil
  | string text =>
    have hscalar := renderString_isScalar h.renders
    rw [hscalar.1]
    exact .nil
  | _ =>
    obtain rfl := Except.ok.inj h.renders
    exact .nil

/-- A document is a list if and only if its template is one. -/
theorem Fills.items (h : Fills bindings p d) :
    Option.Rel (List.Forall₂ (Fills bindings)) p.asArray? d.asArray? := by
  cases p with
  | array items =>
    obtain ⟨rendered, rfl, hitems⟩ := fills_array.mp h
    exact .some hitems
  | object members =>
    obtain ⟨rendered, rfl, -⟩ := fills_object.mp h
    exact .none
  | string text =>
    have hscalar := renderString_isScalar h.renders
    rw [hscalar.2]
    exact .none
  | _ =>
    obtain rfl := Except.ok.inj h.renders
    exact .none

theorem Fills.isNull_eq (h : Fills bindings p d) : d.isNull = p.isNull := by
  by_cases hp : p = null
  · subst hp
    obtain rfl := Except.ok.inj h.renders
    rfl
  · have hd := render_ne_null h.renders hp
    cases p <;> cases d <;> first | rfl | exact absurd rfl hp | exact absurd rfl hd

theorem FillsMember.asString?_eq {key : String} (h : FillsMember bindings (key, p) (key, d))
    (hkey : key = mergeKey) : d.asString? = p.asString? := by
  have hfills : Fills bindings p d := h.fills
  cases p with
  | string text =>
    have hrender : renderString bindings text = .ok d := hfills.renders
    rw [renderString_literal bindings (h.literal hkey)] at hrender
    rw [← Except.ok.inj hrender]
  | object members =>
    obtain ⟨rendered, rfl, -⟩ := fills_object.mp hfills
    rfl
  | array items =>
    obtain ⟨rendered, rfl, -⟩ := fills_array.mp hfills
    rfl
  | _ => rw [← Except.ok.inj hfills.renders]

end Fills

/-! ### Members -/

section Members
variable {ms ds : Members}

theorem get?_fills (h : List.Forall₂ (FillsMember bindings) ms ds) (key : String) :
    Option.Rel (fun v w => FillsMember bindings (key, v) (key, w)) (ms.get? key) (ds.get? key) := by
  induction h with
  | nil => exact .none
  | @cons e r _ _ hhead _ ih =>
    obtain ⟨k, v⟩ := e
    obtain ⟨own, w⟩ := r
    obtain rfl : own = k := hhead.key
    rw [Members.get?_cons, Members.get?_cons]
    split
    · next heq => exact .some (heq ▸ hhead)
    · exact ih

theorem getD_fills (h : List.Forall₂ (FillsMember bindings) ms ds) (key : String) :
    Fills bindings ((ms.get? key).getD null) ((ds.get? key).getD null) := by
  have hrel := get?_fills h key
  generalize ms.get? key = v at hrel
  generalize ds.get? key = w at hrel
  cases hrel with
  | none => exact fills_null
  | some hmember => exact hmember.fills

theorem set_fills (h : List.Forall₂ (FillsMember bindings) ms ds) {key : String} {v w : Json}
    (hmember : FillsMember bindings (key, v) (key, w)) :
    List.Forall₂ (FillsMember bindings) (Members.set key v ms) (Members.set key w ds) := by
  induction h with
  | nil => exact .cons hmember .nil
  | @cons e r _ _ hhead hrest ih =>
    obtain ⟨k, _⟩ := e
    obtain ⟨own, _⟩ := r
    obtain rfl : own = k := hhead.key
    simp only [Members.set]
    split
    · next heq => exact .cons (heq ▸ hmember) hrest
    · exact .cons hhead ih

theorem erase_fills (h : List.Forall₂ (FillsMember bindings) ms ds) (key : String) :
    List.Forall₂ (FillsMember bindings) (Members.erase key ms) (Members.erase key ds) := by
  induction h with
  | nil => exact .nil
  | @cons e r rest later hhead hrest ih =>
    obtain ⟨k, _⟩ := e
    obtain ⟨own, _⟩ := r
    obtain rfl : own = k := hhead.key
    simp only [Members.erase]
    split
    · -- The last member moves into the place of the erased one, on both sides.
      have hlast := forall₂_getLast? hrest
      generalize rest.getLast? = last at hlast
      generalize later.getLast? = final at hlast
      cases hlast with
      | none => exact .nil
      | some hmoved => exact .cons hmoved (forall₂_dropLast hrest)
    · exact .cons hhead ih

end Members

/-! ### Named elements -/

theorem Fills.name?_eq {p d : Json} (h : Fills bindings p d) : d.name? = p.name? := by
  have hrel := get?_fills h.members mergeKey
  rw [name?, name?, get?_eq_asObject?, get?_eq_asObject? p]
  generalize (p.asObject?.getD []).get? mergeKey = v at hrel
  generalize (d.asObject?.getD []).get? mergeKey = w at hrel
  cases hrel with
  | none => rfl
  | some hmember => exact hmember.asString?_eq rfl

section Items
variable {items rendered : List Json} (h : List.Forall₂ (Fills bindings) items rendered)
include h

theorem isNamedList_fills : isNamedList rendered = isNamedList items := by
  induction h with
  | nil => rfl
  | cons hhead _ ih =>
    simp only [isNamedList, List.all_cons] at ih ⊢
    rw [hhead.name?_eq, ih]

theorem updateNamed_fills (name : Option String) {f g : Json → Json} {v w : Json}
    (hf : ∀ p d, Fills bindings p d → Fills bindings (f p) (g d)) (hfresh : Fills bindings v w) :
    List.Forall₂ (Fills bindings) (updateNamed name f v items) (updateNamed name g w rendered) := by
  induction h with
  | nil => exact .cons hfresh .nil
  | cons hhead hrest ih =>
    simp only [updateNamed, hhead.name?_eq]
    split
    · exact .cons (hf _ _ hhead) hrest
    · exact .cons hhead ih

end Items

/-! ### Merging -/

mutual

/-- Filled templates merge as their templates do. -/
theorem Fills.merge {p d : Json} (h : Fills bindings p d) :
    (q : Json) → {e : Json} → Fills bindings q e → Fills bindings (p.merge q) (d.merge e)
  | .object fields, _, hq => by
    obtain ⟨rendered, rfl, hfields⟩ := fills_object.mp hq
    exact fills_object.mpr ⟨_, rfl, FillsMember.mergeMembers h.members fields hfields⟩
  | .array items, _, hq => by
    obtain ⟨rendered, rfl, hitems⟩ := fills_array.mp hq
    have hempty : rendered.isEmpty = items.isEmpty := by cases hitems <;> rfl
    have htarget := h.items
    rw [merge_array, merge_array, hempty, isNamedList_fills hitems]
    generalize p.asArray? = existing at htarget
    generalize d.asArray? = present at htarget
    cases htarget with
    | none => exact hq
    | some hexisting =>
      dsimp only
      rw [isNamedList_fills hexisting]
      split
      · exact fills_array.mpr ⟨_, rfl, Fills.mergeItems hexisting items hitems⟩
      · exact hq
  | .string text, _, hq => by
    have hsame := merge_renderString hq.renders d
    rw [hsame]
    exact hq
  | .null, _, hq => by
    obtain rfl := Except.ok.inj hq.renders
    exact hq
  | .bool _, _, hq => by
    obtain rfl := Except.ok.inj hq.renders
    exact hq
  | .number _, _, hq => by
    obtain rfl := Except.ok.inj hq.renders
    exact hq

theorem FillsMember.mergeMembers {ms ds : Members}
    (h : List.Forall₂ (FillsMember bindings) ms ds) :
    (fields : List (String × Json)) → {rendered : Members} →
      List.Forall₂ (FillsMember bindings) fields rendered →
        List.Forall₂ (FillsMember bindings) (mergeMembers ms fields) (mergeMembers ds rendered)
  | [], _, .nil => h
  | (key, value) :: rest, (own, w) :: later, .cons hhead hrest => by
    obtain rfl : own = key := hhead.key
    simp only [Json.mergeMembers, hhead.fills.isNull_eq]
    refine FillsMember.mergeMembers ?_ rest hrest
    split
    · exact erase_fills h own
    · exact set_fills h ⟨rfl, hhead.literal.merge _, (getD_fills h own).merge value hhead.fills⟩

theorem Fills.mergeItems {existing present : List Json}
    (h : List.Forall₂ (Fills bindings) existing present) :
    (items : List Json) → {rendered : List Json} →
      List.Forall₂ (Fills bindings) items rendered →
        List.Forall₂ (Fills bindings) (mergeItems existing items) (mergeItems present rendered)
  | [], _, .nil => h
  | item :: rest, _ :: _, .cons hhead hrest => by
    simp only [Json.mergeItems, hhead.name?_eq]
    refine Fills.mergeItems ?_ rest hrest
    exact updateNamed_fills h item.name? (fun _ _ hfound => hfound.merge item hhead) hhead

end

/-- Where no name holds a placeholder, rendering commutes with merging. -/
theorem render_merge {p q d e : Json} (hp : p.HasLiteralNames) (hq : q.HasLiteralNames)
    (hd : render bindings p = .ok d) (he : render bindings q = .ok e) :
    render bindings (p.merge q) = .ok (d.merge e) :=
  (Fills.merge ⟨hp, hd⟩ q ⟨hq, he⟩).renders

/-- A text that becomes a number, and a list of one named element. -/
def scaledTemplate : Json := .object [
  ("replicas", .string (placeholder "replicas")), ("paused", .bool true),
  ("containers", .array [.object [("name", .string "app"), ("cpu", .string "1")]])]

/-- A removal, an element that is there and one that is not. -/
def overlaidTemplate : Json := .object [
  ("paused", .null),
  ("containers", .array [
    .object [("name", .string "app"), ("cpu", .string (placeholder "cpu" ++ "m"))],
    .object [("name", .string "proxy")]])]

def scaledBindings : Bindings := Dict.ofList [("cpu", .int 500), ("replicas", .int 3)]

theorem scaled_render_merge : ∃ d e,
    render scaledBindings scaledTemplate = .ok d ∧
    render scaledBindings overlaidTemplate = .ok e ∧
    d.merge e = .object [
      ("replicas", .number (.int 3)),
      ("containers", .array [
        .object [("name", .string "app"), ("cpu", .string "500m")],
        .object [("name", .string "proxy")]])] ∧
    render scaledBindings (scaledTemplate.merge overlaidTemplate) = .ok (d.merge e) := by
  have hd : render scaledBindings scaledTemplate = .ok (.object [
      ("replicas", .number (.int 3)), ("paused", .bool true),
      ("containers", .array [.object [("name", .string "app"), ("cpu", .string "1")]])]) := by
    decide +kernel
  have he : render scaledBindings overlaidTemplate = .ok (.object [
      ("paused", .null),
      ("containers", .array [.object [("name", .string "app"), ("cpu", .string "500m")],
        .object [("name", .string "proxy")]])]) := by
    decide +kernel
  have hscaled : scaledTemplate.HasLiteralNames := by
    simp [scaledTemplate, HasLiteralNames, HasLiteralNamesMembers, HasLiteralNamesItems,
      IsLiteralUnder, mergeKey, show IsLiteral "app" by decide]
  have hoverlaid : overlaidTemplate.HasLiteralNames := by
    simp [overlaidTemplate, HasLiteralNames, HasLiteralNamesMembers, HasLiteralNamesItems,
      IsLiteralUnder, mergeKey, show IsLiteral "app" by decide, show IsLiteral "proxy" by decide]
  exact ⟨_, _, hd, he, by decide +kernel, render_merge hscaled hoverlaid hd he⟩

end Template

end WorkloadTuning
