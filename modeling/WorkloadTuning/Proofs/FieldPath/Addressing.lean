import WorkloadTuning.Proofs.FieldPath.Expansion
import WorkloadTuning.Proofs.Template.Restatement

/-! Paths that the structural merge can follow. A path may match list elements by any key and pass
through lists of any elements, but the merge tells elements by their names, in lists of named
elements only. Where the path keeps to that, its fragment is merged into the very value it has
found. -/

namespace WorkloadTuning

open Json
open Template (IsLiteral Restates)

/-- The step of a path that the merge takes this way. -/
def Step.segment : Step → Segment
  | member key => .field key
  | named name => .element mergeKey name

theorem Step.segment_injective : Function.Injective Step.segment := by
  intro a b h
  cases a with
  | member key =>
    cases b with
    | member other =>
      obtain rfl := Segment.field.inj h
      rfl
    | named name => cases h
  | named name =>
    cases b with
    | member key => cases h
    | named other =>
      obtain ⟨-, rfl⟩ := Segment.element.inj h
      rfl

namespace FieldPath

def ofLocation (location : Location) : FieldPath :=
  ⟨location.map Step.segment⟩

theorem ofLocation_injective : Function.Injective ofLocation := fun _ _ h =>
  List.map_injective_iff.mpr Step.segment_injective (FieldPath.mk.inj h)

/-- The fragment below an element match sets one member. -/
theorem fragmentFrom_object {whole walked : FieldPath} {location : Location} {leaf : Json}
    {fields : Members} (hleaf : leaf.asObject? = none)
    (h : fragmentFrom whole walked leaf (location.map Step.segment) = .ok (object fields)) :
    ∃ key rest inner, location = .member key :: rest ∧ fields = [(key, inner)] ∧
      fragmentFrom whole (walked.push (.field key)) leaf (rest.map Step.segment) = .ok inner := by
  cases location with
  | nil =>
    obtain rfl := Except.ok.inj h
    cases hleaf
  | cons step rest =>
    obtain ⟨inner, hinner, h⟩ := bind_eq_ok.mp h
    cases step with
    | member key =>
      obtain rfl := Json.object.inj (Except.ok.inj h)
      exact ⟨key, rest, inner, rfl, rfl, hinner⟩
    | named name =>
      cases inner with
      | object fields => cases Except.ok.inj h
      | _ => cases h

/-- The merge finds the value at the location, and rendering keeps the names on the way. -/
structure Holds (location : Location) (tree value : Json) : Prop where
  literal : ∀ name, .named name ∈ location → IsLiteral name
  admits : tree.AdmitsAlong location
  reach : tree.reach? location = some value

/-- The path leads to the value by steps that the merge takes too. -/
def LeadsTo (path : FieldPath) (tree value : Json) : Prop :=
  ∃ location, path = ofLocation location ∧ Holds location tree value

/-- Where the steps find an element, it is matched by its name, in a list of named elements, and the
name can be told apart and rendered. -/
def AddressesFrom (node : Json) : List Segment → Prop
  | [] => True
  | .field name :: rest => ∀ child, node.get? name = some child → AddressesFrom child rest
  | .element key value :: rest => ∀ items child, node = array items →
      findElement? key value items = some child →
        key = mergeKey ∧ isNamedList items = true ∧ IsLiteral value ∧ AddressesFrom child rest
  | .wildcard :: rest => ∀ items, node = array items → (items.map name?).Nodup ∧
      ∀ item ∈ items, ∀ name, item.name? = some name → IsLiteral name ∧ AddressesFrom item rest

def Addresses (path : FieldPath) (tree : Json) : Prop :=
  AddressesFrom tree path.segments

/-! ### What such a path finds -/

section Holds
variable {location : Location} {tree child value : Json} {step : Step}

theorem Holds.nil (value : Json) : Holds [] value value :=
  ⟨by simp, trivial, rfl⟩

theorem Holds.cons (h : Holds location child value)
    (hliteral : ∀ name, step = .named name → IsLiteral name) (hadmits : tree.Admits step)
    (hchild : tree.enter? step = some child) : Holds (step :: location) tree value where
  literal := by
    intro name hname
    rcases List.mem_cons.mp hname with heq | hname
    · exact hliteral name heq.symm
    · exact h.literal name hname
  admits := ⟨hadmits, fun found hfound => by
    obtain rfl := Option.some.inj (hchild.symm.trans hfound)
    exact h.admits⟩
  reach := by
    rw [reach?, hchild]
    exact h.reach

theorem Holds.tail (h : Holds (step :: location) tree value) :
    ∃ child, tree.enter? step = some child ∧ Holds location child value := by
  obtain ⟨child, hchild, hreach⟩ := Option.bind_eq_some_iff.mp h.reach
  exact ⟨child, hchild, fun name hname => h.literal name (List.mem_cons_of_mem _ hname),
    h.admits.2 child hchild, hreach⟩

theorem Holds.opens (h : Holds (step :: location) tree value) : tree.Opens step := by
  obtain ⟨child, hchild, -⟩ := h.tail
  cases step with
  | member key =>
    cases tree with
    | object ms => exact ⟨ms, rfl⟩
    | _ => cases hchild
  | named name =>
    cases tree with
    | array items => exact ⟨items, rfl, h.admits.1 items rfl⟩
    | _ => cases hchild

end Holds

theorem LeadsTo.unique {path : FieldPath} {tree value other : Json} (h : path.LeadsTo tree value)
    (hother : path.LeadsTo tree other) : value = other := by
  obtain ⟨location, rfl, h⟩ := h
  obtain ⟨same, heq, hother⟩ := hother
  obtain rfl := ofLocation_injective heq
  exact Option.some.inj (h.reach.symm.trans hother.reach)

section Expansion
variable {walked : FieldPath} {places : List (FieldPath × Option Json)}
  {place : FieldPath × Option Json}

/-- Nothing is found below what is missing. -/
theorem value_of_expandFrom_none {segments : List Segment}
    (h : expandFrom walked none segments = .ok places) (hplace : place ∈ places) :
    place.2 = none := by
  induction segments generalizing walked with
  | nil =>
    obtain rfl := Except.ok.inj h
    rw [List.mem_singleton.mp hplace]
  | cons segment rest ih =>
    cases segment with
    | field name => exact ih h
    | element key value => exact ih h
    | wildcard =>
      obtain rfl := Except.ok.inj h
      cases hplace

theorem expandFrom_holds {node value : Json} {segments : List Segment}
    (h : expandFrom walked (some node) segments = .ok places)
    (haddresses : AddressesFrom node segments) (hplace : place ∈ places)
    (hvalue : place.2 = some value) :
    ∃ location, place.1 = ⟨walked.segments ++ location.map Step.segment⟩ ∧
      Holds location node value := by
  induction segments generalizing walked node places with
  | nil =>
    obtain rfl := Except.ok.inj h
    obtain rfl := List.mem_singleton.mp hplace
    obtain rfl := Option.some.inj hvalue
    exact ⟨[], by simp, .nil _⟩
  | cons segment rest ih =>
    -- One step, and what the rest of the path finds below it.
    have hstep : ∀ (step : Step) {child : Json} {found : List (FieldPath × Option Json)},
        expandFrom (walked.push step.segment) (some child) rest = .ok found →
        AddressesFrom child rest → place ∈ found →
        (∀ name, step = .named name → IsLiteral name) → node.Admits step →
        node.enter? step = some child →
        ∃ location, place.1 = ⟨walked.segments ++ location.map Step.segment⟩ ∧
          Holds location node value := by
      intro step child found hfound hbelow hmem hliteral hadmits hchild
      obtain ⟨location, hpath, hholds⟩ := ih hfound hbelow hmem
      exact ⟨step :: location, by simp [hpath, push], hholds.cons hliteral hadmits hchild⟩
    have hmissing : ∀ {other : FieldPath}, expandFrom other none rest = .ok places → False := by
      intro other hnone
      rw [value_of_expandFrom_none hnone hplace] at hvalue
      cases hvalue
    cases segment with
    | field name =>
      have hbelow := expandFrom_concrete (by simp) h
      rw [Option.bind_some] at hbelow
      cases hchild : node.get? name with
      | none =>
        rw [stepDown?, hchild] at hbelow
        exact (hmissing hbelow).elim
      | some child =>
        rw [stepDown?, hchild] at hbelow
        exact hstep (.member name) hbelow (haddresses child hchild) hplace (by simp) trivial hchild
    | element key text =>
      have hbelow := expandFrom_concrete (by simp) h
      rw [Option.bind_some] at hbelow
      cases hchild : stepDown? node (.element key text) with
      | none =>
        rw [hchild] at hbelow
        exact (hmissing hbelow).elim
      | some child =>
        rw [hchild] at hbelow
        cases node with
        | array items =>
          obtain ⟨rfl, hnamed, hliteral, hrest⟩ := haddresses items child rfl hchild
          refine hstep (.named text) hbelow hrest hplace ?_ ?_ hchild
          · rintro _ ⟨⟩
            exact hliteral
          · rintro _ ⟨⟩
            exact hnamed
        | _ => cases hchild
    | wildcard =>
      rcases expandFrom_every h with ⟨-, rfl⟩ | ⟨items, found, hnode, hnamed, hfound, rfl⟩
      · cases hplace
      · obtain rfl := Option.some.inj hnode
        obtain ⟨part, hpart, hmem⟩ := List.mem_flatten.mp hplace
        obtain ⟨item, hitem, name, hname, hexpand⟩ := exists_left_of_mem hfound hpart
        obtain ⟨hnodup, hitems⟩ := haddresses items rfl
        obtain ⟨hliteral, hbelow⟩ := hitems item hitem name hname
        refine hstep (.named name) hexpand hbelow hmem ?_ ?_ (findNamed?_of_mem hnodup hitem hname)
        · rintro _ ⟨⟩
          exact hliteral
        · rintro _ ⟨⟩
          exact hnamed

theorem Addresses.leadsTo {path : FieldPath} {tree value : Json} (haddresses : path.Addresses tree)
    (h : path.expand tree = .ok places) (hplace : place ∈ places) (hvalue : place.2 = some value) :
    place.1.LeadsTo tree value := by
  obtain ⟨location, hpath, hholds⟩ := expandFrom_holds h haddresses hplace hvalue
  exact ⟨location, hpath, hholds⟩

end Expansion

end FieldPath

end WorkloadTuning
