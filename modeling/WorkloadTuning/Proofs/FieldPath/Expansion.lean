import WorkloadTuning.FieldPath.Tree
import WorkloadTuning.Proofs.Json.Location
import WorkloadTuning.Proofs.Outcome

/-! Expanding paths, step by step, and as a whole where they are field names, alone or with a
wildcard at their end. Along the names a document must have objects, or `null`, or nothing; what is
found is what following the names finds. -/

namespace WorkloadTuning

namespace Json

/-- Nothing but objects and `null` is met before the last of the keys. -/
def Passable : Json → List String → Prop
  | _, [] => True
  | json, key :: rest =>
    json = null ∨ ∃ ms, json = object ms ∧ ∀ value, Members.get? ms key = some value →
      value.Passable rest

theorem passable_null (keys : List String) : null.Passable keys := by
  cases keys with
  | nil => trivial
  | cons key rest => exact .inl rfl

/-- The location that is reached by following the keys. -/
def members (keys : List String) : Location :=
  keys.map .member

theorem follow?_eq_reach? (json : Json) (keys : List String) :
    json.follow? keys = json.reach? (members keys) := by
  induction keys generalizing json with
  | nil => rfl
  | cons key rest ih =>
    show (json.get? key).bind (follow? · rest) = (json.get? key).bind (reach? · (members rest))
    cases json.get? key with
    | none => rfl
    | some value => exact ih value

/-- Members are entered whatever else there is. -/
theorem admitsAlong_members (json : Json) (keys : List String) :
    json.AdmitsAlong (members keys) := by
  induction keys generalizing json with
  | nil => trivial
  | cons key rest ih => exact ⟨trivial, fun value _ => ih value⟩

/-- A patch that has objects along the keys keeps the way passable. -/
theorem Passable.merge {target patch : Json} {keys : List String} (h : target.Passable keys)
    (hpatch : patch.Overlays (members keys)) : (target.merge patch).Passable keys := by
  induction keys generalizing target patch with
  | nil => trivial
  | cons key rest ih =>
    obtain ⟨hplain, hbelow⟩ := hpatch
    have hget := get?_merge target hplain key
    have htarget : ∀ value, target.get? key = some value → value.Passable rest := by
      intro value hvalue
      rcases h with rfl | ⟨ms, rfl, hms⟩
      · cases hvalue
      · exact hms value hvalue
    obtain ⟨fields, rfl, -⟩ := hplain
    refine .inr ⟨_, rfl, fun value hvalue => ?_⟩
    have hvalue : (target.merge (object fields)).get? key = some value := hvalue
    rw [hget] at hvalue
    cases hentered : (object fields).get? key with
    | none =>
      rw [hentered] at hvalue
      exact htarget value hvalue
    | some entered =>
      rw [hentered] at hvalue
      obtain rfl := Option.some.inj hvalue
      refine ih ?_ (hbelow entered hentered)
      cases hfound : target.get? key with
      | none => exact passable_null rest
      | some found => exact htarget found hfound

end Json

namespace FieldPath

open Json

/-! ### Single steps -/

/-- The value one concrete step below. -/
def stepDown? (node : Json) : Segment → Option Json
  | .field name => node.get? name
  | .element key value => node.asArray?.bind (findElement? key value)
  | .wildcard => none

section Steps
variable {walked : FieldPath} {node : Option Json} {segment : Segment} {rest : List Segment}
  {places : List (FieldPath × Option Json)}

theorem expandFrom_nil (walked : FieldPath) (node : Option Json) :
    expandFrom walked node [] = .ok [(walked, node)] :=
  rfl

theorem expandFrom_cons_field (walked : FieldPath) (node : Option Json) (name : String)
    (rest : List Segment) : expandFrom walked node (.field name :: rest) =
      match present? node with
      | none => expandFrom (walked.push (.field name)) none rest
      | some (.object ms) => expandFrom (walked.push (.field name)) (Members.get? ms name) rest
      | some _ => .error (.unexpectedValue walked (.field name) .map) :=
  rfl

theorem expandFrom_cons_element (walked : FieldPath) (node : Option Json) (key value : String)
    (rest : List Segment) : expandFrom walked node (.element key value :: rest) =
      match present? node with
      | none => expandFrom (walked.push (.element key value)) none rest
      | some (.array items) =>
        expandFrom (walked.push (.element key value)) (findElement? key value items) rest
      | some _ => .error (.unexpectedValue walked (.element key value) .list) :=
  rfl

theorem expandFrom_cons_wildcard (walked : FieldPath) (node : Option Json) (rest : List Segment) :
    expandFrom walked node (.wildcard :: rest) =
      match present? node with
      | none => .ok []
      | some (.array items) => do
        let found ← items.mapM fun item =>
          match item.name? with
          | none => .error (.unaddressable walked mergeKey)
          | some name => expandFrom (walked.push (.element mergeKey name)) (some item) rest
        return found.flatten
      | some _ => .error (.unexpectedValue walked .wildcard .list) :=
  rfl

theorem present?_eq_some {json : Json} (h : present? node = some json) : node = some json := by
  obtain ⟨hnode, -⟩ := Option.filter_eq_some_iff.mp h
  exact hnode

theorem present?_eq_none (h : present? node = none) : node = none ∨ node = some null := by
  cases node with
  | none => exact .inl rfl
  | some json =>
    cases json <;> first | exact .inr rfl | cases h

/-- There is no step below what is missing or `null`. -/
theorem bind_stepDown?_of_present? (h : present? node = none) (segment : Segment) :
    node.bind (stepDown? · segment) = none := by
  rcases present?_eq_none h with rfl | rfl
  · rfl
  · cases segment <;> rfl

/-- A concrete step is taken whether or not it leads to something. -/
theorem expandFrom_concrete (hconcrete : segment ≠ .wildcard)
    (h : expandFrom walked node (segment :: rest) = .ok places) :
    expandFrom (walked.push segment) (node.bind (stepDown? · segment)) rest = .ok places := by
  cases segment with
  | field name =>
    rw [expandFrom_cons_field] at h
    split at h
    · next hnone =>
      rw [bind_stepDown?_of_present? hnone]
      exact h
    · next ms hnode =>
      rw [present?_eq_some hnode]
      exact h
    · cases h
  | element key value =>
    rw [expandFrom_cons_element] at h
    split at h
    · next hnone =>
      rw [bind_stepDown?_of_present? hnone]
      exact h
    · next items hnode =>
      rw [present?_eq_some hnode]
      exact h
    · cases h
  | wildcard => exact absurd rfl hconcrete

/-- A wildcard stands for the elements of a list, which all have names, or for nothing. -/
theorem expandFrom_every (h : expandFrom walked node (.wildcard :: rest) = .ok places) :
    present? node = none ∧ places = [] ∨ ∃ items found, node = some (array items) ∧
      isNamedList items = true ∧ List.Forall₂ (fun item part => ∃ name, item.name? = some name ∧
        expandFrom (walked.push (.element mergeKey name)) (some item) rest = .ok part)
        items found ∧ places = found.flatten := by
  rw [expandFrom_cons_wildcard] at h
  split at h
  · next hnone =>
    obtain rfl := Except.ok.inj h
    exact .inl ⟨hnone, rfl⟩
  · next items hnode =>
    obtain ⟨found, hfound, h⟩ := bind_eq_ok.mp h
    obtain rfl := Except.ok.inj h
    have hparts : List.Forall₂ (fun item part => ∃ name, item.name? = some name ∧
        expandFrom (walked.push (.element mergeKey name)) (some item) rest = .ok part)
        items found := by
      refine (mapM_eq_ok.mp hfound).imp fun item part hpart => ?_
      cases hname : item.name? with
      | none =>
        rw [hname] at hpart
        cases hpart
      | some name =>
        rw [hname] at hpart
        exact ⟨name, rfl, hpart⟩
    have hnamed : isNamedList items = true := by
      rw [isNamedList, List.all_eq_true]
      intro item hitem
      obtain ⟨_, -, name, hname, -⟩ := exists_right_of_mem hparts hitem
      rw [hname]
      rfl
    exact .inr ⟨items, found, present?_eq_some hnode, hnamed, hparts, rfl⟩
  · cases h

end Steps

/-! ### Field names -/

/-- The path of the field names. -/
def ofFields (keys : List String) : FieldPath :=
  ⟨keys.map .field⟩

theorem expandFrom_none (walked : FieldPath) (keys : List String) (rest : List Segment) :
    expandFrom walked none (keys.map .field ++ rest) =
      expandFrom ⟨walked.segments ++ keys.map .field⟩ none rest := by
  induction keys generalizing walked with
  | nil => simp
  | cons key keys ih =>
    simp only [List.map_cons, List.cons_append, expandFrom_cons_field, present?, Option.filter_none, ih]
    simp [push]

theorem present?_of_ne_null {json : Json} (h : json ≠ null) : present? (some json) = some json := by
  have hnull : json.isNull = false := by
    cases json <;> first | rfl | exact absurd rfl h
  simp [present?, hnull]

theorem expandFrom_fields {json : Json} {keys : List String} (walked : FieldPath)
    (rest : List Segment) (h : json.Passable keys) :
    expandFrom walked (some json) (keys.map .field ++ rest) =
      expandFrom ⟨walked.segments ++ keys.map .field⟩ (json.follow? keys) rest := by
  induction keys generalizing walked json with
  | nil => simp [follow?]
  | cons key keys ih =>
    rcases h with rfl | ⟨ms, rfl, hms⟩
    · have hnone : null.follow? (key :: keys) = none := rfl
      rw [hnone, ← expandFrom_none]
      rfl
    · have hfollow : (object ms).follow? (key :: keys) =
          (Members.get? ms key).bind (follow? · keys) := rfl
      rw [hfollow]
      simp only [List.map_cons, List.cons_append, expandFrom_cons_field, present?_of_ne_null,
        ne_eq, reduceCtorEq, not_false_eq_true]
      cases hvalue : Members.get? ms key with
      | none =>
        rw [expandFrom_none]
        simp [push]
      | some value =>
        rw [ih _ (hms value hvalue)]
        simp [push]

theorem passable_of_expandFrom {json : Json} {keys : List String} {walked : FieldPath}
    {rest : List Segment} {places : List (FieldPath × Option Json)}
    (h : expandFrom walked (some json) (keys.map .field ++ rest) = .ok places) :
    json.Passable keys := by
  induction keys generalizing walked json with
  | nil => trivial
  | cons key keys ih =>
    cases json with
    | null => exact passable_null _
    | object ms =>
      refine .inr ⟨ms, rfl, fun value hvalue => ?_⟩
      simp only [List.map_cons, List.cons_append, expandFrom_cons_field, present?_of_ne_null,
        ne_eq, reduceCtorEq, not_false_eq_true, hvalue] at h
      exact ih h
    | _ =>
      simp only [List.map_cons, List.cons_append, expandFrom_cons_field, present?_of_ne_null,
        ne_eq, reduceCtorEq, not_false_eq_true] at h

theorem expand_ofFields {tree : Json} {keys : List String}
    {places : List (FieldPath × Option Json)} :
    (ofFields keys).expand tree = .ok places ↔
      tree.Passable keys ∧ places = [(ofFields keys, tree.follow? keys)] := by
  have hsegments : (ofFields keys).segments = keys.map .field ++ [] := by simp [ofFields]
  have hroot : (⟨root.segments ++ keys.map .field⟩ : FieldPath) = ofFields keys := by
    simp [root, ofFields]
  rw [expand, hsegments]
  constructor
  · intro h
    have hpass := passable_of_expandFrom h
    rw [expandFrom_fields root [] hpass, hroot] at h
    exact ⟨hpass, (Except.ok.inj h).symm⟩
  · rintro ⟨hpass, rfl⟩
    rw [expandFrom_fields root [] hpass, hroot]
    rfl

/-! ### List elements -/

/-- What the path names is a list of these elements, or nothing. -/
def Lists (tree : Json) (keys : List String) (items : List Json) : Prop :=
  present? (tree.follow? keys) = none ∧ items = [] ∨ tree.follow? keys = some (array items)

/-- The path of the list element of that name. -/
def ofElement (keys : List String) (name : String) : FieldPath :=
  (ofFields keys).push (.element mergeKey name)

theorem expandFrom_wildcard {walked : FieldPath} {items : List Json}
    {places : List (FieldPath × Option Json)} :
    expandFrom walked (some (array items)) [.wildcard] = .ok places ↔
      List.Forall₂ (fun item place => ∃ name, item.name? = some name ∧
        place = (walked.push (.element mergeKey name), some item)) items places := by
  simp only [expandFrom_cons_wildcard, expandFrom_nil, present?_of_ne_null, ne_eq, reduceCtorEq,
    not_false_eq_true]
  rw [bind_eq_ok]
  constructor
  · rintro ⟨found, hfound, h⟩
    obtain rfl := Except.ok.inj h
    have hall := mapM_eq_ok.mp hfound
    clear hfound h
    induction hall with
    | nil => exact .nil
    | @cons item _ _ _ hhead _ ih =>
      cases hname : item.name? with
      | none =>
        rw [hname] at hhead
        cases hhead
      | some name =>
        rw [hname] at hhead
        obtain rfl := Except.ok.inj hhead
        exact .cons ⟨name, hname, rfl⟩ ih
  · intro h
    refine ⟨places.map fun place => [place], mapM_eq_ok.mpr ?_, ?_⟩
    · induction h with
      | nil => exact .nil
      | cons hhead _ ih =>
        obtain ⟨name, hname, rfl⟩ := hhead
        refine .cons ?_ ih
        rw [hname]
    · show Except.ok (places.map fun place => [place]).flatten = Except.ok places
      simp [← List.flatMap_def]

theorem expand_elements {tree : Json} {keys : List String}
    {places : List (FieldPath × Option Json)} :
    ((ofFields keys).push .wildcard).expand tree = .ok places ↔
      tree.Passable keys ∧ ∃ items, Lists tree keys items ∧
        List.Forall₂ (fun item place => ∃ name, item.name? = some name ∧
          place = (ofElement keys name, some item)) items places := by
  have hsegments : ((ofFields keys).push .wildcard).segments = keys.map .field ++ [.wildcard] := rfl
  have hroot : (⟨root.segments ++ keys.map .field⟩ : FieldPath) = ofFields keys := by
    simp [root, ofFields]
  rw [expand, hsegments]
  constructor
  · intro h
    have hpass := passable_of_expandFrom h
    refine ⟨hpass, ?_⟩
    rw [expandFrom_fields root [.wildcard] hpass, hroot] at h
    cases hnode : present? (tree.follow? keys) with
    | none =>
      simp only [expandFrom_cons_wildcard, hnode] at h
      obtain rfl := Except.ok.inj h
      exact ⟨[], .inl ⟨hnode, rfl⟩, .nil⟩
    | some json =>
      have hfollow := present?_eq_some hnode
      cases json with
      | array items =>
        rw [hfollow] at h
        exact ⟨items, .inr hfollow, expandFrom_wildcard.mp h⟩
      | _ => simp only [expandFrom_cons_wildcard, hnode] at h; cases h
  · rintro ⟨hpass, items, hlists, hall⟩
    rw [expandFrom_fields root [.wildcard] hpass, hroot]
    rcases hlists with ⟨hnode, rfl⟩ | hfollow
    · obtain rfl := List.forall₂_nil_left_iff.mp hall
      simp only [expandFrom_cons_wildcard, hnode]
    · rw [hfollow]
      exact expandFrom_wildcard.mpr hall

/-! ### List elements under merging -/

/-- The elements that a location finds by name are those of the list. -/
theorem reach?_element {tree : Json} {keys : List String} {items : List Json}
    (h : Lists tree keys items) (name : String) (rest : Location) :
    tree.reach? (members keys ++ .named name :: rest) =
      (findNamed? items name).bind (reach? · rest) := by
  rw [reach?_append, ← follow?_eq_reach?]
  rcases h with ⟨hnone, rfl⟩ | hitems
  · cases hfollow : tree.follow? keys with
    | none => rfl
    | some value =>
      rw [hfollow] at hnone
      cases value with
      | null => rfl
      | _ => cases hnone
  · rw [hitems]
    rfl

/-- A patch that has no elements of other names keeps the names of the list. -/
theorem lists_merge {tree patch : Json} {keys : List String} {items : List Json}
    (h : Lists tree keys items) (hnamed : isNamedList items = true)
    (hpatch : ∀ name, patch.Overlays (members keys ++ [.named name]))
    (hnames : ∀ name, patch.reach? (members keys ++ [.named name]) ≠ none →
      some name ∈ items.map name?) :
    ∃ merged, Lists (tree.merge patch) keys merged ∧ merged.map name? = items.map name? := by
  have hoverlays : patch.Overlays (members keys) := (overlays_append.mp (hpatch "")).1
  have htree := admitsAlong_members tree keys
  cases hreach : patch.reach? (members keys) with
  | none =>
    have hsame := reach?_merge_none hoverlays htree hreach
    rw [← follow?_eq_reach?, ← follow?_eq_reach?] at hsame
    refine ⟨items, ?_, rfl⟩
    rw [Lists, hsame]
    exact h
  | some value =>
    obtain ⟨⟨added, rfl, hne, hadded⟩, -⟩ := (overlays_append.mp (hpatch "")).2 value hreach
    have hsub : ∀ item ∈ added, item.name? ∈ items.map name? := by
      intro item hitem
      obtain ⟨name, hname, -⟩ := hadded.literal item hitem
      rw [hname]
      apply hnames name
      rw [reach?_append, hreach]
      show (findNamed? added name).bind some ≠ none
      rw [findNamed?_of_mem hadded.names_nodup hitem hname]
      exact Option.some_ne_none item
    -- There is an element to add, so the tree has the list already.
    rcases h with ⟨-, rfl⟩ | hitems
    · obtain ⟨item, hitem⟩ := List.exists_mem_of_ne_nil added hne
      simpa using hsub item hitem
    · have hold : tree.reach? (members keys) = some (array items) := by
        rw [← follow?_eq_reach?, hitems]
      rcases reach?_merge_some hoverlays htree hreach with ⟨hnone, -⟩ | hmerged
      · rw [hold] at hnone
        cases hnone
      · rw [hold, Option.getD_some, merge_array_array hne hadded.isNamedList hnamed] at hmerged
        refine ⟨mergeItems items added, .inr ?_, names_mergeItems_of_subset hadded hsub⟩
        rw [follow?_eq_reach?, hmerged]

end FieldPath

end WorkloadTuning
