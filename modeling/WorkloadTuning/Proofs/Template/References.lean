import WorkloadTuning.Proofs.Template.Document
import WorkloadTuning.Proofs.Template.Location

/-! Rendering asks for the referenced parameters and for nothing else. Rendering and collecting
references are two walks over the document; they meet in its texts, where both read the same
pieces. -/

namespace WorkloadTuning.Template

open Json

variable {bindings other : Bindings}

/-! ### Texts -/

theorem renderPiece_isOk_iff {piece : Piece} : (∃ text, renderPiece bindings piece = .ok text) ↔
    ∀ name, piece = .parameter name → (bindings.get? name).isSome := by
  cases piece with
  | text chars => simp [renderPiece]
  | parameter name => simp [renderPiece, map_isOk_iff, lookup_eq_ok, Option.isSome_iff_exists]

theorem renderParts_isOk_iff {parts : List Piece} :
    (∃ json, renderParts bindings parts = .ok json) ↔
      ∀ name ∈ parameterNames parts, (bindings.get? name).isSome := by
  simp only [mem_parameterNames]
  unfold renderParts
  split
  · simp [map_isOk_iff, lookup_eq_ok, Option.isSome_iff_exists]
  · have hspelled : (∃ json, (parts.mapM (renderPiece bindings) >>= fun texts =>
        pure (Json.string (String.join texts))) = .ok json) ↔
        ∃ texts, parts.mapM (renderPiece bindings) = .ok texts :=
      map_isOk_iff
    rw [hspelled, mapM_isOk_iff]
    simp only [renderPiece_isOk_iff]
    constructor
    · intro h name hname
      exact h _ hname name rfl
    · rintro h _ hpiece name rfl
      exact h name hpiece

/-- A text is rendered if its placeholders are well formed and refer to bound names only. -/
theorem renderString_isOk_iff {text : String} : (∃ json, renderString bindings text = .ok json) ↔
    ∃ parts, pieces text = .ok parts ∧
      ∀ name ∈ parameterNames parts, (bindings.get? name).isSome := by
  rw [renderString_eq_bind]
  cases hpieces : pieces text with
  | error e => simp [Bind.bind, Except.bind]
  | ok parts => simpa [Bind.bind, Except.bind] using renderParts_isOk_iff

theorem lookup_congr {name : String} (h : bindings.get? name = other.get? name) :
    lookup bindings name = lookup other name := by
  rw [lookup, lookup, h]

theorem renderParts_congr {parts : List Piece}
    (h : ∀ name ∈ parameterNames parts, bindings.get? name = other.get? name) :
    renderParts bindings parts = renderParts other parts := by
  have hpieces : ∀ piece ∈ parts, renderPiece bindings piece = renderPiece other piece := by
    intro piece hpiece
    cases piece with
    | text chars => rfl
    | parameter name =>
      rw [renderPiece, renderPiece, lookup_congr (h name (mem_parameterNames.mpr hpiece))]
  unfold renderParts
  split
  · next name => rw [lookup_congr (h name List.mem_cons_self)]
  · rw [mapM_congr hpieces]

theorem renderString_congr {text : String} {parts : List Piece} (hpieces : pieces text = .ok parts)
    (h : ∀ name ∈ parameterNames parts, bindings.get? name = other.get? name) :
    renderString bindings text = renderString other text := by
  rw [renderString_of_pieces hpieces, renderString_of_pieces hpieces, renderParts_congr h]

/-! ### Documents -/

mutual

/-- Bindings that render every text of the document alike render the document alike. -/
theorem render_congr : (doc : Json) →
    EveryText (fun text => renderString bindings text = renderString other text) doc →
      render bindings doc = render other doc
  | .string _, h => h
  | .array items, h => by rw [render, render, renderItems_congr items h]
  | .object members, h => by rw [render, render, renderMembers_congr members h]
  | .null, _ => rfl
  | .bool _, _ => rfl
  | .number _, _ => rfl

theorem renderItems_congr : (items : List Json) →
    EveryTextItems (fun text => renderString bindings text = renderString other text) items →
      renderItems bindings items = renderItems other items
  | [], _ => rfl
  | item :: rest, ⟨hitem, hrest⟩ => by
    rw [renderItems, renderItems, render_congr item hitem, renderItems_congr rest hrest]

theorem renderMembers_congr : (members : List (String × Json)) →
    EveryTextMembers (fun text => renderString bindings text = renderString other text) members →
      renderMembers bindings members = renderMembers other members
  | [], _ => rfl
  | (_, value) :: rest, ⟨hvalue, hrest⟩ => by
    rw [renderMembers, renderMembers, render_congr value hvalue, renderMembers_congr rest hrest]

end

/-- Rendering succeeds if the references are well formed and every one of them is bound. -/
theorem render_isOk_iff_references {doc : Json} :
    (∃ rendered, render bindings doc = .ok rendered) ↔
      ∃ names, references doc = .ok names ∧ ∀ name ∈ names, (bindings.get? name).isSome := by
  rw [render_isOk_iff, forall_references_iff]
  simp only [renderString_isOk_iff]

/-- What is bound to other names makes no difference. -/
theorem render_congr_references {doc : Json} {names : List String}
    (hnames : references doc = .ok names)
    (h : ∀ name ∈ names, bindings.get? name = other.get? name) :
    render bindings doc = render other doc := by
  refine render_congr doc (EveryText.imp ?_ doc (forall_references_iff.mp ⟨names, hnames, h⟩))
  rintro text ⟨parts, hpieces, hagree⟩
  exact renderString_congr hpieces hagree

/-! ### Shape -/

/-- The documents differ in the values of texts at most. -/
inductive KeepsShape : Json → Json → Prop where
  | text (template : String) {value : Json}
      (h : (∃ s, value = .string s) ∨ ∃ i, value = .ofInt i) : KeepsShape (.string template) value
  | null : KeepsShape .null .null
  | bool (b : Bool) : KeepsShape (.bool b) (.bool b)
  | number (n : Number) : KeepsShape (.number n) (.number n)
  | array {items others : List Json} (h : List.Forall₂ KeepsShape items others) :
      KeepsShape (.array items) (.array others)
  | object {members others : Members} (hkeys : others.keys = members.keys)
      (h : List.Forall₂ KeepsShape (members.map Prod.snd) (others.map Prod.snd)) :
      KeepsShape (.object members) (.object others)

mutual

theorem render_keepsShape : (doc : Json) → {rendered : Json} →
    render bindings doc = .ok rendered → KeepsShape doc rendered
  | .string text, _, h => .text text (renderString_cases h)
  | .array items, _, h => by
    obtain ⟨rendered, rfl, hitems⟩ := render_array h
    exact .array (renderItems_keepsShape items hitems)
  | .object members, _, h => by
    obtain ⟨rendered, rfl, hmembers⟩ := render_object h
    exact .object (keys_rendered hmembers) (renderMembers_keepsShape members hmembers)
  | .null, _, h => by
    obtain rfl := Except.ok.inj h
    exact .null
  | .bool b, _, h => by
    obtain rfl := Except.ok.inj h
    exact .bool b
  | .number n, _, h => by
    obtain rfl := Except.ok.inj h
    exact .number n

theorem renderItems_keepsShape : (items : List Json) → {rendered : List Json} →
    List.Forall₂ (fun item r => render bindings item = .ok r) items rendered →
      List.Forall₂ KeepsShape items rendered
  | [], _, .nil => .nil
  | item :: rest, _, .cons hitem hrest =>
    .cons (render_keepsShape item hitem) (renderItems_keepsShape rest hrest)

theorem renderMembers_keepsShape : (members : List (String × Json)) → {rendered : Members} →
    List.Forall₂ (fun e r => r.1 = e.1 ∧ render bindings e.2 = .ok r.2) members rendered →
      List.Forall₂ KeepsShape (members.map Prod.snd) (rendered.map Prod.snd)
  | [], _, .nil => .nil
  | (_, value) :: rest, _, .cons hmember hrest =>
    .cons (render_keepsShape value hmember.2) (renderMembers_keepsShape rest hrest)

end

end WorkloadTuning.Template
