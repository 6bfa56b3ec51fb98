import WorkloadTuning.Proofs.FieldPath.Expansion
import WorkloadTuning.Proofs.Json.Pointer

/-! What a path with wildcards stands for. Its instances have the name of an element for every
wildcard. Expanding the path walks down the tree, while an instance is resolved through a pointer
that counts elements; but both go by the first element of a name, so where the names in the lists
are distinct, the expansion finds every instance that the tree has, once, and with its value. -/

namespace WorkloadTuning

/-! ### Documents -/

namespace Json

mutual

/-- The lists of the document have indexes of 64 bits, as every list that fits in memory has. -/
def IsIndexed : Json → Prop
  | array items => items.length ≤ 2 ^ 64 ∧ IsIndexedItems items
  | object members => IsIndexedMembers members
  | null | bool _ | number _ | string _ => True

def IsIndexedItems : List Json → Prop
  | [] => True
  | item :: rest => IsIndexed item ∧ IsIndexedItems rest

def IsIndexedMembers : List (String × Json) → Prop
  | [] => True
  | (_, value) :: rest => IsIndexed value ∧ IsIndexedMembers rest

end

theorem IsIndexedItems.of_mem {items : List Json} {item : Json} (h : IsIndexedItems items)
    (hitem : item ∈ items) : item.IsIndexed := by
  induction items with
  | nil => cases hitem
  | cons first rest ih =>
    rcases List.mem_cons.mp hitem with rfl | hitem
    · exact h.1
    · exact ih h.2 hitem

theorem IsIndexedMembers.of_mem {members : Members} {e : String × Json}
    (h : IsIndexedMembers members) (he : e ∈ members) : e.2.IsIndexed := by
  induction members with
  | nil => cases he
  | cons first rest ih =>
    rcases List.mem_cons.mp he with rfl | he
    · exact h.1
    · exact ih h.2 he

end Json

/-! ### Concrete paths -/

namespace FieldPath

open Json

/-- The value that concrete steps lead to. -/
def reachFrom? (node : Json) : List Segment → Option Json
  | [] => some node
  | segment :: rest => (stepDown? node segment).bind (reachFrom? · rest)

section Resolution
variable {node child : Json} {segment : Segment}

theorem isIndexed_of_stepDown? (hnode : node.IsIndexed) (h : stepDown? node segment = some child) :
    child.IsIndexed := by
  cases segment with
  | field name =>
    cases node with
    | object ms => exact IsIndexedMembers.of_mem hnode (Members.mem_of_get? h)
    | _ => cases h
  | element key value =>
    cases node with
    | array items => exact IsIndexedItems.of_mem hnode.2 (List.mem_of_find?_eq_some h)
    | _ => cases h
  | wildcard => cases h

theorem tokensFrom?_of_stepDown?_none (h : stepDown? node segment = none) (rest : List Segment) :
    tokensFrom? node (segment :: rest) = none := by
  cases segment with
  | field name =>
    cases node with
    | object ms =>
      have hget : Members.get? ms name = none := h
      simp [tokensFrom?, asObject?, hget]
    | _ => rfl
  | element key value =>
    cases node with
    | array items =>
      have hfind : findElement? key value items = none := h
      simp [tokensFrom?, asArray?, hfind]
    | _ => rfl
  | wildcard => rfl

/-- A pointer has one token for a step: the name of the member, or the index of the element. -/
theorem exists_token (hnode : node.IsIndexed) (h : stepDown? node segment = some child) :
    ∃ token, node.child? token = some child ∧ ∀ rest,
      tokensFrom? node (segment :: rest) = (tokensFrom? child rest).map (token :: ·) := by
  cases segment with
  | field name =>
    cases node with
    | object ms =>
      have hget : Members.get? ms name = some child := h
      refine ⟨name, hget, fun rest => ?_⟩
      simp [tokensFrom?, asObject?, hget, Option.map_eq_bind]
    | _ => cases h
  | element key value =>
    cases node with
    | array items =>
      have hfind : findElement? key value items = some child := h
      have hindex := hfind
      rw [findElement?, List.find?_eq_bind_findIdx?_getElem?] at hindex
      obtain ⟨i, hi, hitem⟩ := Option.bind_eq_some_iff.mp hindex
      obtain ⟨hlt, -⟩ := List.getElem?_eq_some_iff.mp hitem
      refine ⟨toString i, ?_, fun rest => ?_⟩
      · rw [child?, Pointer.index?_toString (Nat.lt_of_lt_of_le hlt hnode.1)]
        exact hitem
      · simp [tokensFrom?, asArray?, hfind, hi, Option.map_eq_bind]
    | _ => cases h
  | wildcard => cases h

theorem bind_tokensFrom? (hnode : node.IsIndexed) (segments : List Segment) :
    (tokensFrom? node segments).bind node.resolve? = reachFrom? node segments := by
  induction segments generalizing node with
  | nil => rfl
  | cons segment rest ih =>
    rw [reachFrom?]
    cases hchild : stepDown? node segment with
    | none =>
      rw [tokensFrom?_of_stepDown?_none hchild]
      rfl
    | some child =>
      obtain ⟨token, htoken, htokens⟩ := exists_token hnode hchild
      rw [htokens, Option.bind_some, ← ih (isIndexed_of_stepDown? hnode hchild), Option.bind_map]
      congr 1
      funext below
      show (node.child? token).bind (Json.resolve? · below) = child.resolve? below
      rw [htoken, Option.bind_some]

/-- Resolving a path by its pointer is following its steps. -/
theorem resolve?_eq_reachFrom? {tree : Json} (htree : tree.IsIndexed) (path : FieldPath) :
    path.resolve? tree = reachFrom? tree path.segments := by
  rw [← bind_tokensFrom? htree, resolve?, pointer?]
  cases tokensFrom? tree path.segments <;> rfl

end Resolution

end FieldPath

/-! ### Instances -/

/-- The step that the template has there, or the match of some name for a wildcard. -/
def Segment.IsInstanceOf (step : Segment) : Segment → Prop
  | wildcard => ∃ name, step = element Json.mergeKey name
  | template => step = template

section Segments
variable {step template : Segment}

theorem Segment.isInstanceOf_self (h : template ≠ wildcard) : template.IsInstanceOf template := by
  cases template <;> first | rfl | exact absurd rfl h

theorem Segment.IsInstanceOf.eq (hstep : step.IsInstanceOf template) (h : template ≠ wildcard) :
    step = template := by
  cases template <;> first | exact hstep | exact absurd rfl h

theorem Segment.IsInstanceOf.ne_wildcard (h : step.IsInstanceOf template) : step ≠ wildcard := by
  cases template with
  | wildcard =>
    obtain ⟨name, rfl⟩ := h
    simp
  | field name =>
    obtain rfl : step = field name := h
    simp
  | element key value =>
    obtain rfl : step = element key value := h
    simp

end Segments

namespace FieldPath

open Json

/-- The path has the steps of the template, with the match of a name for every wildcard. -/
def IsInstanceOf (path template : FieldPath) : Prop :=
  List.Forall₂ Segment.IsInstanceOf path.segments template.segments

theorem IsInstanceOf.isConcrete {path template : FieldPath} (h : path.IsInstanceOf template) :
    path.isConcrete := by
  have hnone : Segment.wildcard ∉ path.segments := by
    intro hmem
    obtain ⟨_, -, hstep⟩ := exists_right_of_mem h hmem
    exact hstep.ne_wildcard rfl
  simpa [FieldPath.isConcrete] using hnone

/-- In the lists that a wildcard is expanded over, no two elements have the same name. -/
def HasDistinctNamesFrom (node : Json) : List Segment → Prop
  | [] => True
  | .wildcard :: rest => ∀ items, node = array items →
      (items.filterMap name?).Nodup ∧ ∀ item ∈ items, HasDistinctNamesFrom item rest
  | segment :: rest => ∀ child, stepDown? node segment = some child →
      HasDistinctNamesFrom child rest

def HasDistinctNames (path : FieldPath) (tree : Json) : Prop :=
  HasDistinctNamesFrom tree path.segments

/-! ### Expansion -/

section Expansion
variable {walked : FieldPath} {node : Option Json} {steps templates : List Segment}
  {places : List (FieldPath × Option Json)}

theorem stepDown?_element {items : List Json} {item : Json} {name : String}
    (hnodup : (items.map name?).Nodup) (hitem : item ∈ items) (hname : item.name? = some name) :
    stepDown? (array items) (.element mergeKey name) = some item :=
  findNamed?_of_mem hnodup hitem hname

theorem HasDistinctNamesFrom.bind {segment : Segment} {rest : List Segment} {child : Json}
    (h : ∀ json, node = some json → HasDistinctNamesFrom json (segment :: rest))
    (hconcrete : segment ≠ .wildcard) (hchild : node.bind (stepDown? · segment) = some child) :
    HasDistinctNamesFrom child rest := by
  obtain ⟨json, hjson, hstep⟩ := Option.bind_eq_some_iff.mp hchild
  have hjson := h json hjson
  cases segment with
  | wildcard => exact absurd rfl hconcrete
  | _ => exact hjson child hstep

/-- What the expansion finds are instances, with what following their steps finds. -/
theorem exists_of_mem_expandFrom (h : expandFrom walked node templates = .ok places)
    (hdistinct : ∀ json, node = some json → HasDistinctNamesFrom json templates)
    {place : FieldPath × Option Json} (hplace : place ∈ places) :
    ∃ steps, List.Forall₂ Segment.IsInstanceOf steps templates ∧
      place = (⟨walked.segments ++ steps⟩, node.bind (reachFrom? · steps)) := by
  induction templates generalizing walked node places with
  | nil =>
    obtain rfl := Except.ok.inj h
    obtain rfl := List.mem_singleton.mp hplace
    refine ⟨[], .nil, ?_⟩
    cases node <;> simp [reachFrom?]
  | cons template rest ih =>
    by_cases hwildcard : template = .wildcard
    · subst hwildcard
      rcases expandFrom_every h with ⟨-, rfl⟩ | ⟨items, found, rfl, hnamed, hfound, rfl⟩
      · cases hplace
      · obtain ⟨part, hpart, hmem⟩ := List.mem_flatten.mp hplace
        obtain ⟨item, hitem, name, hname, hexpand⟩ := exists_left_of_mem hfound hpart
        obtain ⟨hnames, hbelow⟩ := hdistinct _ rfl items rfl
        have hitemDistinct : ∀ json, some item = some json → HasDistinctNamesFrom json rest := by
          rintro _ ⟨⟩
          exact hbelow item hitem
        obtain ⟨steps, hsteps, rfl⟩ := ih hexpand hitemDistinct hmem
        refine ⟨.element mergeKey name :: steps, .cons ⟨name, rfl⟩ hsteps, ?_⟩
        rw [Option.bind_some, Option.bind_some, reachFrom?,
          stepDown?_element (nodup_map_name? hnamed hnames) hitem hname, Option.bind_some]
        simp [push]
    · have hbelow := expandFrom_concrete hwildcard h
      obtain ⟨steps, hsteps, rfl⟩ := ih hbelow
        (fun _ hchild => HasDistinctNamesFrom.bind hdistinct hwildcard hchild) hplace
      refine ⟨template :: steps, .cons (Segment.isInstanceOf_self hwildcard) hsteps, ?_⟩
      rw [Option.bind_assoc]
      simp [push, reachFrom?]

/-- The expansion finds every instance whose steps lead to a value. -/
theorem mem_expandFrom (h : expandFrom walked node templates = .ok places)
    (hsteps : List.Forall₂ Segment.IsInstanceOf steps templates) {value : Json}
    (hvalue : node.bind (reachFrom? · steps) = some value) :
    (⟨walked.segments ++ steps⟩, some value) ∈ places := by
  induction templates generalizing walked node places steps with
  | nil =>
    obtain rfl := Except.ok.inj h
    obtain rfl := List.forall₂_nil_right_iff.mp hsteps
    cases node with
    | none => cases hvalue
    | some json =>
      obtain rfl := Option.some.inj hvalue
      simp
  | cons template rest ih =>
    obtain ⟨step, later, hstep, hlater, rfl⟩ := List.forall₂_cons_right_iff.mp hsteps
    have hmem : ∀ {found : List (FieldPath × Option Json)} {child : Option Json},
        expandFrom (walked.push step) child rest = .ok found →
        child.bind (reachFrom? · later) = some value →
        (⟨walked.segments ++ step :: later⟩, some value) ∈ found := by
      intro found child hfound hchild
      simpa [push] using ih hfound hlater hchild
    have hsplit : (node.bind (stepDown? · step)).bind (reachFrom? · later) = some value := by
      rw [Option.bind_assoc]
      exact hvalue
    by_cases hwildcard : template = .wildcard
    · subst hwildcard
      obtain ⟨name, rfl⟩ := hstep
      rcases expandFrom_every h with ⟨hnone, rfl⟩ | ⟨items, found, rfl, -, hfound, rfl⟩
      · rw [bind_stepDown?_of_present? hnone] at hsplit
        cases hsplit
      · obtain ⟨child, hchild, hreach⟩ := Option.bind_eq_some_iff.mp hsplit
        have hfind : findNamed? items name = some child := hchild
        obtain ⟨part, hpart, own, hown, hexpand⟩ :=
          exists_right_of_mem hfound (mem_of_findNamed? hfind)
        obtain rfl := Option.some.inj ((name?_of_findNamed? hfind).symm.trans hown)
        exact List.mem_flatten_of_mem hpart (hmem hexpand hreach)
    · obtain rfl := hstep.eq hwildcard
      exact hmem (expandFrom_concrete hwildcard h) hsplit

/-- Parts that belong to elements of distinct names have no path in common. -/
theorem nodup_flatten_of_names (walked : FieldPath) {items : List Json}
    {found : List (List (FieldPath × Option Json))}
    (h : List.Forall₂ (fun item part => (part.map Prod.fst).Nodup ∧
      ∃ name, item.name? = some name ∧ ∀ place ∈ part, ∃ steps : List Segment,
        place.1 = ⟨walked.segments ++ .element mergeKey name :: steps⟩) items found)
    (hnames : (items.map name?).Nodup) : (found.flatten.map Prod.fst).Nodup := by
  induction h with
  | nil => exact List.nodup_nil
  | @cons item part _ _ hhead hrest ih =>
    obtain ⟨hnodup, name, hname, hpaths⟩ := hhead
    obtain ⟨hfresh, hnames⟩ := List.nodup_cons.mp hnames
    rw [List.flatten_cons, List.map_append]
    refine List.Nodup.append hnodup (ih hnames) ?_
    intro path hpath hother
    obtain ⟨place, hplace, rfl⟩ := List.mem_map.mp hpath
    obtain ⟨other, hother, heq⟩ := List.mem_map.mp hother
    obtain ⟨later, hlater, hmem⟩ := List.mem_flatten.mp hother
    obtain ⟨another, hanother, -, name', hname', hpaths'⟩ := exists_left_of_mem hrest hlater
    obtain ⟨steps, hsteps⟩ := hpaths place hplace
    obtain ⟨steps', hsteps'⟩ := hpaths' other hmem
    rw [hsteps, hsteps'] at heq
    obtain ⟨rfl, -⟩ : name' = name ∧ steps' = steps := by
      simpa using congrArg FieldPath.segments heq
    exact hfresh (hname.trans hname'.symm ▸ List.mem_map_of_mem hanother)

/-- The expansion finds no path twice. -/
theorem nodup_expandFrom (h : expandFrom walked node templates = .ok places)
    (hdistinct : ∀ json, node = some json → HasDistinctNamesFrom json templates) :
    (places.map Prod.fst).Nodup := by
  induction templates generalizing walked node places with
  | nil =>
    obtain rfl := Except.ok.inj h
    exact List.nodup_singleton _
  | cons template rest ih =>
    by_cases hwildcard : template = .wildcard
    · subst hwildcard
      rcases expandFrom_every h with ⟨-, rfl⟩ | ⟨items, found, rfl, hnamed, hfound, rfl⟩
      · exact List.nodup_nil
      · obtain ⟨hnames, hbelow⟩ := hdistinct _ rfl items rfl
        have hboth := (List.forall₂_and_left _ _).mpr ⟨hbelow, hfound⟩
        refine nodup_flatten_of_names walked (hboth.imp ?_) (nodup_map_name? hnamed hnames)
        rintro item part ⟨hitem, name, hname, hexpand⟩
        have hitemDistinct : ∀ json, some item = some json → HasDistinctNamesFrom json rest := by
          rintro _ ⟨⟩
          exact hitem
        refine ⟨ih hexpand hitemDistinct, name, hname, fun place hplace => ?_⟩
        obtain ⟨steps, -, rfl⟩ := exists_of_mem_expandFrom hexpand hitemDistinct hplace
        exact ⟨steps, by simp [push]⟩
    · exact ih (expandFrom_concrete hwildcard h)
        fun _ hchild => HasDistinctNamesFrom.bind hdistinct hwildcard hchild

end Expansion

/-- An expansion that succeeds has no path twice and nothing but instances of the path, each with
what it resolves to in the tree, if to anything; and it has every instance that resolves. -/
theorem expand_finds_instances {path : FieldPath} {tree : Json}
    {places : List (FieldPath × Option Json)} (hindexed : tree.IsIndexed)
    (hdistinct : path.HasDistinctNames tree) (h : path.expand tree = .ok places) :
    (places.map Prod.fst).Nodup ∧
      (∀ place ∈ places, place.1.IsInstanceOf path ∧ place.1.isConcrete ∧
        place.1.resolve? tree = place.2) ∧
      ∀ (concrete : FieldPath) (value : Json), concrete.IsInstanceOf path →
        concrete.resolve? tree = some value → (concrete, some value) ∈ places := by
  have hroot : ∀ json, some tree = some json → HasDistinctNamesFrom json path.segments := by
    rintro _ ⟨⟩
    exact hdistinct
  refine ⟨nodup_expandFrom h hroot, ?_, ?_⟩
  · intro place hplace
    obtain ⟨steps, hsteps, rfl⟩ := exists_of_mem_expandFrom h hroot hplace
    have hinstance : IsInstanceOf ⟨root.segments ++ steps⟩ path := hsteps
    exact ⟨hinstance, hinstance.isConcrete, resolve?_eq_reachFrom? hindexed _⟩
  · intro concrete value hinstance hvalue
    rw [resolve?_eq_reachFrom? hindexed] at hvalue
    exact mem_expandFrom h hinstance hvalue

/-- Three elements: one has the member, one has it as `null`, and one is without it. -/
def limitedContainers : Json := .object [("containers", .array [
  .object [("name", .string "app"), ("limits", .object [("cpu", .string "1")])],
  .object [("name", .string "proxy"), ("limits", .null)],
  .object [("name", .string "log")]])]

def everyLimits : FieldPath := ⟨[.field "containers", .wildcard, .field "limits"]⟩

def limitsOf (name : String) : FieldPath :=
  ⟨[.field "containers", .element Json.mergeKey name, .field "limits"]⟩

/-- The `null` is found, and what is missing is listed with nothing. -/
theorem limitedContainers_instances :
    let places := [(limitsOf "app", some (.object [("cpu", .string "1")])),
      (limitsOf "proxy", some .null), (limitsOf "log", none)]
    limitedContainers.IsIndexed ∧ everyLimits.HasDistinctNames limitedContainers ∧
      everyLimits.expand limitedContainers = .ok places ∧
      (∀ place ∈ places, place.1.resolve? limitedContainers = place.2) ∧
      ∀ name value, (limitsOf name).resolve? limitedContainers = some value →
        name = "app" ∧ value = .object [("cpu", .string "1")] ∨ name = "proxy" ∧ value = .null := by
  have hindexed : limitedContainers.IsIndexed := by
    simp [limitedContainers, IsIndexed, IsIndexedMembers, IsIndexedItems]
  have hdistinct : everyLimits.HasDistinctNames limitedContainers := by
    rintro list ⟨⟩ items ⟨⟩
    exact ⟨by decide +kernel, fun _ _ _ _ => trivial⟩
  have hexpand : everyLimits.expand limitedContainers = .ok
      [(limitsOf "app", some (.object [("cpu", .string "1")])), (limitsOf "proxy", some .null),
        (limitsOf "log", none)] := by
    decide +kernel
  obtain ⟨-, hfound, hevery⟩ := expand_finds_instances hindexed hdistinct hexpand
  refine ⟨hindexed, hdistinct, hexpand, fun place hplace => (hfound place hplace).2.2, ?_⟩
  intro name value hvalue
  have hinstance : (limitsOf name).IsInstanceOf everyLimits :=
    .cons rfl (.cons ⟨name, rfl⟩ (.cons rfl .nil))
  have hmem := hevery (limitsOf name) value hinstance hvalue
  simpa [limitsOf] using hmem

end FieldPath

end WorkloadTuning
