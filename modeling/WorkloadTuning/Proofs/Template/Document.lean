import WorkloadTuning.FieldPath.Tree
import WorkloadTuning.Proofs.Json.Members
import WorkloadTuning.Proofs.Naming.Order
import WorkloadTuning.Proofs.Template.Placeholder

/-! What holds of every text in a document. Merging and the building of fragments add no texts of
their own, so a property of the placeholders and of the element matches is one of whole templates,
and rendering and reading references succeed on a document when they do on each of its texts. -/

namespace WorkloadTuning

namespace Json

mutual

/-- Every text value in the document has the property; keys are not asked. -/
def EveryText (P : String → Prop) : Json → Prop
  | .string text => P text
  | .array items => EveryTextItems P items
  | .object members => EveryTextMembers P members
  | .null | .bool _ | .number _ => True

def EveryTextItems (P : String → Prop) : List Json → Prop
  | [] => True
  | item :: rest => EveryText P item ∧ EveryTextItems P rest

def EveryTextMembers (P : String → Prop) : List (String × Json) → Prop
  | [] => True
  | (_, value) :: rest => EveryText P value ∧ EveryTextMembers P rest

end

variable {P : String → Prop}

theorem everyTextItems_iff {items : List Json} :
    EveryTextItems P items ↔ ∀ item ∈ items, EveryText P item := by
  induction items with
  | nil => simp [EveryTextItems]
  | cons item rest ih => simp [EveryTextItems, ih]

theorem everyTextMembers_iff {members : Members} :
    EveryTextMembers P members ↔ ∀ e ∈ members, EveryText P e.2 := by
  induction members with
  | nil => simp [EveryTextMembers]
  | cons e rest ih => simp [EveryTextMembers, ih]

theorem EveryText.get? {members : Members} {key : String} {value : Json}
    (h : EveryTextMembers P members) (hget : Members.get? members key = some value) :
    EveryText P value :=
  everyTextMembers_iff.mp h _ (Members.mem_of_get? hget)

theorem EveryText.set {members : Members} (key : String) {value : Json}
    (h : EveryTextMembers P members) (hvalue : EveryText P value) :
    EveryTextMembers P (Members.set key value members) := by
  rw [everyTextMembers_iff] at h ⊢
  intro e he
  rcases Members.mem_set he with rfl | hmem
  · exact hvalue
  · exact h e hmem

theorem EveryText.updateNamed {items : List Json} {name : Option String} {f : Json → Json}
    {fresh : Json} (h : EveryTextItems P items) (hf : ∀ item ∈ items, EveryText P (f item))
    (hfresh : EveryText P fresh) : EveryTextItems P (updateNamed name f fresh items) := by
  induction items with
  | nil => exact ⟨hfresh, trivial⟩
  | cons item rest ih =>
    obtain ⟨hitem, hrest⟩ := h
    simp only [Json.updateNamed]
    split
    · exact ⟨hf item List.mem_cons_self, hrest⟩
    · exact ⟨hitem, ih hrest fun i hi => hf i (List.mem_cons_of_mem _ hi)⟩

mutual

theorem EveryText.imp {Q : String → Prop} (hPQ : ∀ text, P text → Q text) :
    (doc : Json) → EveryText P doc → EveryText Q doc
  | .string text, h => hPQ text h
  | .array items, h => EveryText.impItems hPQ items h
  | .object members, h => EveryText.impMembers hPQ members h
  | .null, _ => trivial
  | .bool _, _ => trivial
  | .number _, _ => trivial

theorem EveryText.impItems {Q : String → Prop} (hPQ : ∀ text, P text → Q text) :
    (items : List Json) → EveryTextItems P items → EveryTextItems Q items
  | [], _ => trivial
  | item :: rest, ⟨hitem, hrest⟩ =>
    ⟨EveryText.imp hPQ item hitem, EveryText.impItems hPQ rest hrest⟩

theorem EveryText.impMembers {Q : String → Prop} (hPQ : ∀ text, P text → Q text) :
    (members : List (String × Json)) → EveryTextMembers P members → EveryTextMembers Q members
  | [], _ => trivial
  | (_, value) :: rest, ⟨hvalue, hrest⟩ =>
    ⟨EveryText.imp hPQ value hvalue, EveryText.impMembers hPQ rest hrest⟩

end

mutual

/-- A merged document has the texts of its two sides only. -/
theorem EveryText.merge {target : Json} (ht : EveryText P target) :
    (patch : Json) → EveryText P patch → EveryText P (target.merge patch)
  | .object fields, hp => by
    have hmembers : EveryTextMembers P (target.asObject?.getD []) := by
      cases target <;> first | exact ht | trivial
    exact EveryText.mergeMembers hmembers fields hp
  | .array items, hp => by
    simp only [Json.merge]
    split
    · split
      · exact EveryText.mergeItems ht items hp
      · exact hp
    · exact hp
  | .string _, hp => hp
  | .null, hp => hp
  | .bool _, hp => hp
  | .number _, hp => hp

theorem EveryText.mergeMembers {members : Members} (hm : EveryTextMembers P members) :
    (fields : List (String × Json)) → EveryTextMembers P fields →
      EveryTextMembers P (mergeMembers members fields)
  | [], _ => hm
  | (key, value) :: rest, ⟨hvalue, hrest⟩ => by
    simp only [Json.mergeMembers]
    refine EveryText.mergeMembers ?_ rest hrest
    split
    · rw [everyTextMembers_iff] at hm ⊢
      intro e he
      exact hm e (Members.mem_of_mem_erase he)
    · refine EveryText.set key hm (EveryText.merge ?_ value hvalue)
      cases hget : Members.get? members key with
      | none => trivial
      | some found => exact EveryText.get? hm hget

theorem EveryText.mergeItems {existing : List Json} (he : EveryTextItems P existing) :
    (items : List Json) → EveryTextItems P items → EveryTextItems P (mergeItems existing items)
  | [], _ => he
  | item :: rest, ⟨hitem, hrest⟩ => by
    simp only [Json.mergeItems]
    refine EveryText.mergeItems (EveryText.updateNamed he ?_ hitem) rest hrest
    intro found hfound
    exact EveryText.merge (everyTextItems_iff.mp he found hfound) item hitem

end

end Json

/-! ### Fragments -/

namespace FieldPath

/-- The values that the path matches list elements with. -/
def matchValues (path : FieldPath) : List String :=
  path.segments.filterMap elementValue?

variable {P : String → Prop}

theorem everyText_setAll {members fields : Members} (hm : Json.EveryTextMembers P members)
    (hf : Json.EveryTextMembers P fields) : Json.EveryTextMembers P (members.setAll fields) := by
  induction fields generalizing members with
  | nil => exact hm
  | cons field rest ih =>
    exact ih (Json.EveryText.set field.1 hm hf.1) hf.2

/-- A fragment has the texts of its leaf and the match values of its path only. -/
theorem everyText_fragmentFrom {whole walked : FieldPath} {leaf fragment : Json}
    {segments : List Segment} (hleaf : Json.EveryText P leaf)
    (hvalues : ∀ value ∈ segments.filterMap elementValue?, P value)
    (h : fragmentFrom whole walked leaf segments = .ok fragment) : Json.EveryText P fragment := by
  induction segments generalizing walked fragment with
  | nil =>
    obtain rfl : leaf = fragment := Except.ok.inj h
    exact hleaf
  | cons segment rest ih =>
    cases hinner : fragmentFrom whole (walked.push segment) leaf rest with
    | error e =>
      rw [fragmentFrom, hinner] at h
      contradiction
    | ok inner =>
      rw [fragmentFrom, hinner] at h
      cases segment with
      | field name =>
        have hbelow := ih hvalues hinner
        obtain rfl : Json.object [(name, inner)] = fragment := Except.ok.inj h
        exact ⟨hbelow, trivial⟩
      | element key value =>
        have hbelow := ih (fun v hv => hvalues v (List.mem_cons_of_mem _ hv)) hinner
        cases inner with
        | object fields =>
          obtain rfl := Except.ok.inj h
          have hmatch : Json.EveryTextMembers P [(key, .string value)] :=
            ⟨hvalues value List.mem_cons_self, trivial⟩
          exact ⟨everyText_setAll hmatch hbelow, trivial⟩
        | _ => contradiction
      | wildcard => contradiction

theorem everyText_fragment {path : FieldPath} {leaf fragment : Json} (hleaf : Json.EveryText P leaf)
    (hvalues : ∀ value ∈ path.matchValues, P value) (h : path.fragment leaf = .ok fragment) :
    Json.EveryText P fragment :=
  everyText_fragmentFrom hleaf hvalues h

end FieldPath

/-! ### Rendering and references -/

namespace Template

variable {P : String → Prop}

section Render
variable {bindings : Bindings}

mutual

/-- Rendering succeeds on a document exactly if it does on each of its texts. -/
theorem render_isOk_iff : (doc : Json) → ((∃ rendered, render bindings doc = .ok rendered) ↔
    Json.EveryText (fun text => ∃ json, renderString bindings text = .ok json) doc)
  | .string _ => Iff.rfl
  | .array items => by
    rw [render, Json.EveryText, map_isOk_iff]
    exact renderItems_isOk_iff items
  | .object members => by
    rw [render, Json.EveryText, map_isOk_iff]
    exact renderMembers_isOk_iff members
  | .null => ⟨fun _ => trivial, fun _ => ⟨.null, rfl⟩⟩
  | .bool b => ⟨fun _ => trivial, fun _ => ⟨.bool b, rfl⟩⟩
  | .number n => ⟨fun _ => trivial, fun _ => ⟨.number n, rfl⟩⟩

theorem renderItems_isOk_iff :
    (items : List Json) → ((∃ rendered, renderItems bindings items = .ok rendered) ↔
      Json.EveryTextItems (fun text => ∃ json, renderString bindings text = .ok json) items)
  | [] => ⟨fun _ => trivial, fun _ => ⟨[], rfl⟩⟩
  | item :: rest => by
    rw [renderItems, Json.EveryTextItems, bind_bind_isOk_iff, render_isOk_iff item,
      renderItems_isOk_iff rest]

theorem renderMembers_isOk_iff : (members : List (String × Json)) →
    ((∃ rendered, renderMembers bindings members = .ok rendered) ↔
      Json.EveryTextMembers (fun text => ∃ json, renderString bindings text = .ok json) members)
  | [] => ⟨fun _ => trivial, fun _ => ⟨[], rfl⟩⟩
  | (key, value) :: rest => by
    rw [renderMembers, Json.EveryTextMembers, bind_bind_isOk_iff, render_isOk_iff value,
      renderMembers_isOk_iff rest]

end

end Render

section Mentions
variable {Q : String → Prop}

mutual

/-- The names that a document mentions are those that its texts do. -/
theorem forall_mentions_iff :
    (doc : Json) → ((∃ found, mentions doc = .ok found ∧ ∀ name ∈ found, Q name) ↔
      Json.EveryText (fun text =>
        ∃ parts, pieces text = .ok parts ∧ ∀ name ∈ parameterNames parts, Q name) doc)
  | .string text => by simp [mentions, Json.EveryText, map_eq_ok]
  | .array items => by
    rw [mentions, Json.EveryText]
    exact forall_mentionsItems_iff items
  | .object members => by
    rw [mentions, Json.EveryText]
    exact forall_mentionsMembers_iff members
  | .null => ⟨fun _ => trivial, fun _ => ⟨[], rfl, by simp⟩⟩
  | .bool _ => ⟨fun _ => trivial, fun _ => ⟨[], rfl, by simp⟩⟩
  | .number _ => ⟨fun _ => trivial, fun _ => ⟨[], rfl, by simp⟩⟩

theorem forall_mentionsItems_iff : (items : List Json) →
    ((∃ found, mentionsItems items = .ok found ∧ ∀ name ∈ found, Q name) ↔
      Json.EveryTextItems (fun text =>
        ∃ parts, pieces text = .ok parts ∧ ∀ name ∈ parameterNames parts, Q name) items)
  | [] => ⟨fun _ => trivial, fun _ => ⟨[], rfl, by simp⟩⟩
  | item :: rest => by
    rw [mentionsItems, Json.EveryTextItems, ← forall_mentions_iff item,
      ← forall_mentionsItems_iff rest]
    exact bind_bind_eq_ok_iff fun _ _ => List.forall_mem_append

theorem forall_mentionsMembers_iff : (members : List (String × Json)) →
    ((∃ found, mentionsMembers members = .ok found ∧ ∀ name ∈ found, Q name) ↔
      Json.EveryTextMembers (fun text =>
        ∃ parts, pieces text = .ok parts ∧ ∀ name ∈ parameterNames parts, Q name) members)
  | [] => ⟨fun _ => trivial, fun _ => ⟨[], rfl, by simp⟩⟩
  | (_, value) :: rest => by
    rw [mentionsMembers, Json.EveryTextMembers, ← forall_mentions_iff value,
      ← forall_mentionsMembers_iff rest]
    exact bind_bind_eq_ok_iff fun _ _ => List.forall_mem_append

end

/-- References are the names that the texts mention, in another order. -/
theorem forall_references_iff {doc : Json} :
    (∃ names, references doc = .ok names ∧ ∀ name ∈ names, Q name) ↔
      Json.EveryText (fun text =>
        ∃ parts, pieces text = .ok parts ∧ ∀ name ∈ parameterNames parts, Q name) doc := by
  rw [← forall_mentions_iff]
  simp [references, map_eq_ok, mem_sortedNames]

end Mentions

/-- The texts of generated patches: literal ones, and placeholders of the given names with what may
stand behind them. -/
inductive IsGenerated (names : List String) : String → Prop where
  | literal {text : String} (h : IsLiteral text) : IsGenerated names text
  | parameter {name unit : String} (hmem : name ∈ names) (hname : IsPlainName name)
      (hunit : IsLiteral unit) : IsGenerated names (placeholder name ++ unit)

variable {names : List String}

theorem IsGenerated.pieces_ok {text : String} (h : IsGenerated names text) :
    ∃ parts, pieces text = .ok parts ∧ parameterNames parts ⊆ names := by
  have htext : ∀ chars, parameterNames (textPieces chars) = [] := by
    intro chars
    unfold textPieces
    split <;> rfl
  cases h with
  | literal h =>
    refine ⟨_, pieces_of_literal h, ?_⟩
    rw [htext]
    exact List.nil_subset _
  | parameter hmem hname hunit =>
    refine ⟨_, pieces_placeholder hname hunit, ?_⟩
    simp only [parameterNames, htext]
    simpa using hmem

theorem references_ok {doc : Json} (h : Json.EveryText (IsGenerated names) doc) :
    ∃ found, references doc = .ok found ∧ found ⊆ names :=
  forall_references_iff.mpr (Json.EveryText.imp (fun _ htext => htext.pieces_ok) doc h)

end Template

end WorkloadTuning
