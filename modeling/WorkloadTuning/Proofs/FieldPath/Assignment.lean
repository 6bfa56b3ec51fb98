import Mathlib.Data.List.Basic
import WorkloadTuning.Proofs.FieldPath.Addressing
import WorkloadTuning.Proofs.Json.Pointer

/-! Fragments as assignments. The fragment of a path is built from its end, the merge takes it apart
from the top, and the pointer counts elements where the merge compares names. All three go by the
first element of a name, so merging the fragment is the same as changing the value that the pointer
points to. -/

namespace WorkloadTuning

open Json

namespace Json

/-! ### The first element of a name -/

/-- After these elements, the first of that name. -/
structure IsFirstNamed (name : String) (before : List Json) (child : Json) : Prop where
  own : child.name? = some name
  earlier : ∀ item ∈ before, item.name? ≠ some name

section FirstNamed
variable {name : String} {before after : List Json} {child : Json}

theorem exists_of_findNamed? {items : List Json} (h : findNamed? items name = some child) :
    ∃ before after, items = before ++ child :: after ∧ IsFirstNamed name before child := by
  obtain ⟨hown, before, after, heq, hearlier⟩ := List.find?_eq_some_iff_append.mp h
  exact ⟨before, after, heq, by simpa using hown, fun item hitem => by simpa using hearlier item hitem⟩

theorem merge_single {key : String} (target : Json) {inner : Json} (hinner : inner ≠ null) :
    target.merge (object [(key, inner)]) = object (Members.set key
      (((target.get? key).getD null).merge inner) (target.asObject?.getD [])) := by
  have hnull : inner.isNull = false := by
    cases inner <;> first | rfl | exact absurd rfl hinner
  rw [merge, mergeMembers, hnull, get?_eq_asObject? target]
  rfl

/-- A member beside the name leaves it. -/
theorem name?_merge_single {key : String} (child : Json) {inner : Json} (hkey : key ≠ mergeKey)
    (hinner : inner ≠ null) : (child.merge (object [(key, inner)])).name? = child.name? := by
  have hget : (child.merge (object [(key, inner)])).get? mergeKey = child.get? mergeKey := by
    rw [merge_single child hinner, get?_eq_asObject? child mergeKey]
    exact Members.get?_set_ne _ _ (Ne.symm hkey)
  rw [name?, name?, hget]

/-- The name that an element was found by is there already. -/
theorem merge_found {child : Json} (fields : Members) (hname : child.name? = some name) :
    child.merge (object ((mergeKey, string name) :: fields)) = child.merge (object fields) := by
  have hfound := name?_eq_some_iff.mp hname
  rw [get?_eq_asObject?] at hfound
  rw [merge, merge, mergeMembers]
  simp only [isNull, Bool.false_eq_true, if_false]
  rw [show merge (((child.asObject?.getD []).get? mergeKey).getD null) (string name) =
    string name from rfl, Members.set_of_get? hfound]

namespace IsFirstNamed

theorem findNamed? (h : IsFirstNamed name before child) (after : List Json) :
    findNamed? (before ++ child :: after) name = some child := by
  rw [Json.findNamed?, List.find?_eq_some_iff_append]
  exact ⟨by simpa using h.own, before, after, rfl, fun item hitem => by simpa using h.earlier item hitem⟩

theorem findIdx? (h : IsFirstNamed name before child) (after : List Json) :
    (before ++ child :: after).findIdx? (fun item => item.name? = some name) =
      some before.length := by
  have hnone : before.findIdx? (fun item => item.name? = some name) = none :=
    List.findIdx?_eq_none_iff.mpr fun item hitem => by simpa using h.earlier item hitem
  rw [List.findIdx?_append, hnone, List.findIdx?_cons, if_pos (by simpa using h.own)]
  simp

theorem updateNamed (h : IsFirstNamed name before child) (f : Json → Json) (fresh : Json)
    (after : List Json) :
    updateNamed (some name) f fresh (before ++ child :: after) = before ++ f child :: after := by
  induction before with
  | nil => rw [List.nil_append, Json.updateNamed, if_pos h.own, List.nil_append]
  | cons item rest ih =>
    have hrest : IsFirstNamed name rest child :=
      ⟨h.own, fun item hitem => h.earlier item (List.mem_cons_of_mem _ hitem)⟩
    rw [List.cons_append, Json.updateNamed, if_neg (h.earlier item List.mem_cons_self), ih hrest,
      List.cons_append]

/-- An element that carries the name is merged into the first one of it. -/
theorem merge_element (h : IsFirstNamed name before child) (fields : Members) (after : List Json)
    (hnamed : isNamedList (before ++ child :: after) = true) :
    (array (before ++ child :: after)).merge
        (array [object ((mergeKey, string name) :: fields)]) =
      array (before ++ child.merge (object fields) :: after) := by
  have hname : (object ((mergeKey, string name) :: fields)).name? = some name :=
    name?_eq_some_iff.mpr rfl
  have hitems : isNamedList [object ((mergeKey, string name) :: fields)] = true := by
    simp [isNamedList, hname]
  rw [merge_array_array (List.cons_ne_nil _ _) hitems hnamed, mergeItems, mergeItems, hname,
    h.updateNamed, merge_found fields h.own]

end IsFirstNamed

end FirstNamed

/-- The lists that are entered along the location have indexes of 64 bits, as every list that fits
in memory has. -/
def IsIndexedAlong (tree : Json) : Location → Prop
  | [] => True
  | step :: rest => (∀ items, tree = array items → items.length ≤ 2 ^ 64) ∧
    ∀ value, tree.enter? step = some value → value.IsIndexedAlong rest

/-- Not a container, and no removal. -/
def IsScalar : Json → Prop
  | bool _ | number _ | string _ => True
  | null | array _ | object _ => False

end Json

/-- An element that was matched by its name is not renamed. -/
def Step.KeepsName (step next : Step) : Prop :=
  ∀ name, step = named name → next ≠ member mergeKey

namespace FieldPath

/-! ### Tokens -/

section Tokens
variable {node : Json} {tokens : List String} {rest : List Segment}

theorem tokensFrom?_field {key : String} :
    tokensFrom? node (.field key :: rest) = some tokens ↔ ∃ ms child below, node = object ms ∧
      Members.get? ms key = some child ∧ tokensFrom? child rest = some below ∧
      tokens = key :: below := by
  rw [tokensFrom?]
  constructor
  · intro h
    obtain ⟨ms, hms, h⟩ := Option.bind_eq_some_iff.mp h
    obtain ⟨child, hchild, h⟩ := Option.bind_eq_some_iff.mp h
    obtain ⟨below, hbelow, hend⟩ := Option.bind_eq_some_iff.mp h
    cases node with
    | object members =>
      obtain rfl := Option.some.inj hms
      exact ⟨members, child, below, rfl, hchild, hbelow, (Option.some.inj hend).symm⟩
    | _ => cases hms
  · rintro ⟨ms, child, below, rfl, hchild, hbelow, rfl⟩
    simp [asObject?, hchild, hbelow]

theorem tokensFrom?_element {name : String} :
    tokensFrom? node (.element mergeKey name :: rest) = some tokens ↔
      ∃ before child after below, node = array (before ++ child :: after) ∧
        IsFirstNamed name before child ∧ tokensFrom? child rest = some below ∧
        tokens = toString before.length :: below := by
  rw [tokensFrom?]
  constructor
  · intro h
    obtain ⟨items, hitems, h⟩ := Option.bind_eq_some_iff.mp h
    obtain ⟨child, hchild, h⟩ := Option.bind_eq_some_iff.mp h
    obtain ⟨index, hindex, h⟩ := Option.bind_eq_some_iff.mp h
    obtain ⟨below, hbelow, hend⟩ := Option.bind_eq_some_iff.mp h
    cases node with
    | array list =>
      obtain rfl := Option.some.inj hitems
      obtain ⟨before, after, rfl, hfirst⟩ := exists_of_findNamed? hchild
      obtain rfl := Option.some.inj ((hfirst.findIdx? after).symm.trans hindex)
      exact ⟨before, child, after, below, rfl, hfirst, hbelow, (Option.some.inj hend).symm⟩
    | _ => cases hitems
  · rintro ⟨before, child, after, below, rfl, hfirst, hbelow, rfl⟩
    have hchild : findElement? mergeKey name (before ++ child :: after) = some child :=
      hfirst.findNamed? after
    have hindex : (before ++ child :: after).findIdx? (fun item =>
        (item.get? mergeKey).bind asString? = some name) = some before.length :=
      hfirst.findIdx? after
    simp [asArray?, hchild, hindex, hbelow]

end Tokens

/-! ### Merged fragments -/

section Fragments
variable {whole walked : FieldPath} {location : Location} {tree leaf fragment : Json}

theorem fragmentFrom_ne_null (hleaf : leaf.IsScalar)
    (h : fragmentFrom whole walked leaf (location.map Step.segment) = .ok fragment) :
    fragment ≠ null := by
  cases location with
  | nil =>
    obtain rfl := Except.ok.inj h
    rintro rfl
    exact hleaf
  | cons step rest =>
    obtain ⟨inner, -, h⟩ := bind_eq_ok.mp h
    cases step with
    | member key =>
      obtain rfl := Except.ok.inj h
      simp
    | named name =>
      cases inner with
      | object fields =>
        obtain rfl := Except.ok.inj h
        simp
      | _ => cases h

/-- Merging the fragment changes the value that the tokens lead to, and they lead there still. -/
theorem merge_fragmentFrom {tokens : List String} (hnames : location.IsChain Step.KeepsName)
    (htokens : tokensFrom? tree (location.map Step.segment) = some tokens)
    (hadmits : tree.AdmitsAlong location) (hindexed : tree.IsIndexedAlong location)
    (hleaf : leaf.IsScalar)
    (h : fragmentFrom whole walked leaf (location.map Step.segment) = .ok fragment) :
    tree.modifyAt? (fun _ => some leaf) tokens = some (tree.merge fragment) ∧
      tokensFrom? (tree.merge fragment) (location.map Step.segment) = some tokens := by
  induction location generalizing tree tokens walked fragment with
  | nil =>
    obtain rfl := Except.ok.inj h
    obtain rfl := Option.some.inj htokens
    refine ⟨?_, rfl⟩
    cases leaf <;> first | rfl | exact hleaf.elim
  | cons step rest ih =>
    obtain ⟨inner, hinner, h⟩ := bind_eq_ok.mp h
    have hne := fragmentFrom_ne_null hleaf hinner
    have hrest := hnames.of_cons
    cases step with
    | member key =>
      obtain rfl := Except.ok.inj h
      obtain ⟨ms, child, below, rfl, hchild, hbelow, rfl⟩ := tokensFrom?_field.mp htokens
      obtain ⟨hmodified, hagain⟩ := ih hrest hbelow (hadmits.2 child hchild)
        (hindexed.2 child hchild) hinner
      have hmerged : (object ms).merge (object [(key, inner)]) =
          object (Members.set key (child.merge inner) ms) := by
        rw [merge_single _ hne, show (object ms).get? key = some child from hchild]
        rfl
      rw [hmerged]
      constructor
      · rw [modifyAt?, show (object ms).child? key = some child from hchild, Option.bind_eq_bind,
          Option.bind_some, hmodified]
        rfl
      · exact tokensFrom?_field.mpr
          ⟨_, _, below, rfl, Members.get?_set_self _ _ _, hagain, rfl⟩
    | named name =>
      obtain ⟨before, child, after, below, rfl, hfirst, hbelow, rfl⟩ :=
        tokensFrom?_element.mp htokens
      cases inner with
      | object fields =>
        obtain rfl := Except.ok.inj h
        have hscalar : leaf.asObject? = none := by
          cases leaf <;> first | rfl | exact hleaf.elim
        obtain ⟨key, later, innermost, rfl, rfl, hinnermost⟩ := fragmentFrom_object hscalar hinner
        have hkey : key ≠ mergeKey := by
          rintro rfl
          exact (List.isChain_cons_cons.mp hnames).1 name rfl rfl
        have hfound := hfirst.findNamed? after
        obtain ⟨hmodified, hagain⟩ := ih hrest hbelow (hadmits.2 child hfound)
          (hindexed.2 child hfound) hinner
        have hset : Members.setAll [(mergeKey, string name)] [(key, innermost)] =
            [(mergeKey, string name), (key, innermost)] := by
          simp [Members.setAll, Members.set, Ne.symm hkey]
        rw [hset, hfirst.merge_element [(key, innermost)] after (hadmits.1 _ rfl)]
        constructor
        · have hlength : before.length < 2 ^ 64 := by
            have hall := hindexed.1 _ rfl
            rw [List.length_append, List.length_cons] at hall
            omega
          rw [modifyAt?, child?_append hlength, Option.bind_eq_bind, Option.bind_some, hmodified]
          exact congrArg some (setChild_append hlength child _ after)
        · have hsame : IsFirstNamed name before (child.merge (object [(key, innermost)])) := by
            refine ⟨?_, hfirst.earlier⟩
            rw [name?_merge_single child hkey (fragmentFrom_ne_null hleaf hinnermost)]
            exact hfirst.own
          exact tokensFrom?_element.mpr ⟨before, _, after, below, rfl, hsame, hagain, rfl⟩
      | _ => cases h

end Fragments

/-- Where the path goes by fields and by names that it does not change, merging its fragment is
setting the value that its pointer points to, and the path leads to that value afterwards. -/
theorem merge_fragment {location : Location} {tree leaf fragment : Json} {pointer : Pointer}
    (hnames : location.IsChain Step.KeepsName)
    (hpointer : (ofLocation location).pointer? tree = some pointer)
    (hadmits : tree.AdmitsAlong location) (hindexed : tree.IsIndexedAlong location)
    (hleaf : leaf.IsScalar) (hfragment : (ofLocation location).fragment leaf = .ok fragment) :
    tree.modifyAt? (fun _ => some leaf) pointer.tokens = some (tree.merge fragment) ∧
      (ofLocation location).pointer? (tree.merge fragment) = some pointer ∧
      (ofLocation location).resolve? (tree.merge fragment) = some leaf := by
  obtain ⟨tokens, htokens, rfl⟩ := Option.map_eq_some_iff.mp hpointer
  obtain ⟨hmodified, hagain⟩ :=
    merge_fragmentFrom hnames htokens hadmits hindexed hleaf hfragment
  have hsame : (ofLocation location).pointer? (tree.merge fragment) = some ⟨tokens⟩ :=
    Option.map_eq_some_iff.mpr ⟨tokens, hagain, rfl⟩
  refine ⟨hmodified, hsame, ?_⟩
  obtain ⟨_, value, -, hvalue, hresolved⟩ := resolve?_modifyAt? hmodified
  obtain rfl := Option.some.inj hvalue
  rw [resolve?, hsame]
  exact hresolved

/-- Two elements share the name that the path asks for. -/
def sharedNames : Json := .object [("containers", .array [
  .object [("name", .string "proxy")],
  .object [("cpu", .string "1"), ("name", .string "app")],
  .object [("cpu", .string "2"), ("name", .string "app")]])]

def appCpu : Location := [.member "containers", .named "app", .member "cpu"]

/-- Only the first of the two is set, and its members keep their order. -/
theorem sharedNames_merge_fragment : ∃ fragment,
    (ofLocation appCpu).pointer? sharedNames = some ⟨["containers", "1", "cpu"]⟩ ∧
    (ofLocation appCpu).fragment (.number (.int 3)) = .ok fragment ∧
    sharedNames.merge fragment = .object [("containers", .array [
      .object [("name", .string "proxy")],
      .object [("cpu", .number (.int 3)), ("name", .string "app")],
      .object [("cpu", .string "2"), ("name", .string "app")]])] ∧
    (ofLocation appCpu).resolve? (sharedNames.merge fragment) = some (.number (.int 3)) := by
  have hpointer : (ofLocation appCpu).pointer? sharedNames =
      some ⟨["containers", "1", "cpu"]⟩ := by
    decide +kernel
  have hfragment : (ofLocation appCpu).fragment (.number (.int 3)) =
      .ok (.object [("containers", .array [
        .object [("name", .string "app"), ("cpu", .number (.int 3))]])]) := by
    decide +kernel
  have hnames : List.IsChain Step.KeepsName appCpu := by
    simp [appCpu, List.isChain_cons_cons, Step.KeepsName, mergeKey]
  have hadmits : sharedNames.AdmitsAlong appCpu := by
    refine ⟨trivial, ?_⟩
    rintro list ⟨⟩
    refine ⟨?_, fun _ _ => ⟨trivial, fun _ _ => trivial⟩⟩
    rintro items ⟨⟩
    decide
  have hindexed : sharedNames.IsIndexedAlong appCpu := by
    refine ⟨fun _ h => (by cases h), ?_⟩
    rintro list ⟨⟩
    refine ⟨?_, ?_⟩
    · rintro items ⟨⟩
      decide
    · rintro element ⟨⟩
      exact ⟨fun _ h => (by cases h), fun _ _ => trivial⟩
  have hleaf : (number (.int 3)).IsScalar := trivial
  exact ⟨_, hpointer, hfragment, by decide +kernel,
    (merge_fragment hnames hpointer hadmits hindexed hleaf hfragment).2.2⟩

end FieldPath

end WorkloadTuning
