import WorkloadTuning.Proofs.Naming.Alphabet
import WorkloadTuning.Proofs.Outcome
import WorkloadTuning.Proofs.Text.Cut
import WorkloadTuning.Proofs.Text.Trim

/-! Reading texts piece by piece: a text without placeholders is one piece, and a placeholder of a
name is read as that name. Rendering fills the pieces in. -/

namespace WorkloadTuning

/-! ### Trimming -/

namespace Text

theorem isBlank_of_isNameChar {c : Char} (h : Template.isNameChar c) : isBlank c = false := by
  have hrange : 33 ≤ c.toNat ∧ c.toNat < 0x85 := by
    simp only [Template.isNameChar, Bool.or_eq_true, beq_iff_eq, isAlphanum_iff] at h
    rcases h with ((((hupper | hlower) | hdigit) | rfl) | rfl) | rfl
    · have hletter := isUpper_iff.mp hupper
      omega
    · have hletter := isLower_iff.mp hlower
      omega
    · have hbounds : 48 ≤ c.toNat ∧ c.toNat ≤ 57 := by
        rwa [Char.isDigit, Bool.and_eq_true, decide_eq_true_eq, decide_eq_true_eq] at hdigit
      omega
    all_goals decide
  simp only [isBlank, Bool.or_eq_false_iff, Bool.and_eq_false_iff, beq_eq_false_iff_ne,
    decide_eq_false_iff_not]
  omega

theorem trim_between_spaces {c d : Char} {s : List Char} (hc : isBlank c = false)
    (hd : isBlank d = false) : trim (' ' :: (c :: s ++ [d]) ++ [' ']) = c :: s ++ [d] := by
  have hstart : trimStart (' ' :: (c :: s ++ [d]) ++ [' ']) = c :: s ++ [d] ++ [' '] := by
    simp [trimStart, show isBlank ' ' = true by decide, hc]
  rw [trim, hstart, trimEnd, dropEndWhile_append_drop _ (by decide)]
  exact dropEndWhile_append_keep (c :: s) hd

end Text

namespace Template

/-- A text without the start of a placeholder. -/
def IsLiteral (text : String) : Prop :=
  ¬ opening <:+: text.toList

instance (text : String) : Decidable (IsLiteral text) :=
  inferInstanceAs (Decidable (¬ _))

theorem opening_eq : opening = ['\x7b', '\x7b'] := by decide

theorem closing_eq : closing = ['\x7d', '\x7d'] := by decide

theorem valuesWord_eq : valuesWord = ['.', 'V', 'a', 'l', 'u', 'e', 's', '.'] := by decide

/-! ### The pieces of a text -/

theorem piecesFrom_of_literal {whole : String} {rest : List Char} (h : ¬ opening <:+: rest) :
    piecesFrom whole rest = .ok (textPieces rest) := by
  unfold piecesFrom
  split
  · rfl
  · next found =>
    rw [Text.cut?_eq_none_of_not_isInfix h] at found
    contradiction

theorem pieces_of_literal {text : String} (h : IsLiteral text) :
    pieces text = .ok (textPieces text.toList) :=
  piecesFrom_of_literal h

/-- A name that placeholders can refer to. -/
structure IsReferable (name : String) : Prop where
  nonempty : name ≠ ""
  chars : ∀ c ∈ name.toList, c.isAlphanum ∨ c = '_' ∨ c = '-' ∨ c = '.'

theorem isNameChar_iff {c : Char} :
    isNameChar c ↔ c.isAlphanum ∨ c = '_' ∨ c = '-' ∨ c = '.' := by
  simp only [isNameChar, Bool.or_eq_true, beq_iff_eq, or_assoc]

theorem IsReferable.isNameChar {name : String} (h : IsReferable name) :
    ∀ c ∈ name.toList, isNameChar c :=
  fun c hc => isNameChar_iff.mpr (h.chars c hc)

instance (name : String) : Decidable (IsReferable name) :=
  decidable_of_iff (name ≠ "" ∧ name.toList.all Template.isNameChar)
    ⟨fun h => ⟨h.1, fun c hc => isNameChar_iff.mp (List.all_eq_true.mp h.2 c hc)⟩,
      fun h => ⟨h.nonempty, List.all_eq_true.mpr h.isNameChar⟩⟩

theorem isReferable_of_isPlainName {name : String} (h : IsPlainName name) : IsReferable name where
  nonempty := h.nonempty
  chars c hc := isNameChar_iff.mp (isNameChar_of_isPlainChar (h.plain c hc))

theorem parameterOf_referable {name : String} (h : IsReferable name) :
    parameterOf (' ' :: (valuesWord ++ name.toList) ++ [' ']) = .ok name := by
  have hne : name.toList ≠ [] := by simpa using h.nonempty
  obtain ⟨front, last, hlast⟩ : ∃ front last, name.toList = front ++ [last] :=
    ⟨_, _, (List.dropLast_append_getLast hne).symm⟩
  have hblank : Text.isBlank last = false := by
    refine Text.isBlank_of_isNameChar (h.isNameChar last ?_)
    rw [hlast]
    simp
  have htrim : Text.trim (' ' :: (valuesWord ++ name.toList) ++ [' ']) =
      valuesWord ++ name.toList := by
    rw [hlast, ← List.append_assoc, valuesWord_eq]
    exact Text.trim_between_spaces (s := ['V', 'a', 'l', 'u', 'e', 's', '.'] ++ front)
      (by decide) hblank
  have hchars : name.toList.all Template.isNameChar := List.all_eq_true.mpr h.isNameChar
  have hdrop : Text.dropStart? valuesWord (valuesWord ++ name.toList) = some name.toList :=
    Text.dropStart?_eq_some_iff.mpr rfl
  simp only [parameterOf, htrim, hdrop, hchars]
  simp [hne]

theorem placeholder_toList (name : String) :
    (placeholder name).toList =
      opening ++ ((' ' :: (valuesWord ++ name.toList) ++ [' ']) ++ closing) := by
  have hstart : "\x7b\x7b .Values.".toList = opening ++ ' ' :: valuesWord := by decide
  have hend : " \x7d\x7d".toList = ' ' :: closing := by decide
  simp only [placeholder, String.toList_append, hstart, hend, List.append_assoc, List.cons_append,
    List.nil_append]

/-- A placeholder is read as its name. What stands before it must not run into it: a brace at its
end would be taken for the first of the placeholder. -/
theorem piecesFrom_placeholder (whole : String) {name : String} (before rest : List Char)
    (hname : IsReferable name) (hbefore : ¬ opening <:+: before ++ ['\x7b']) :
    piecesFrom whole (before ++ ((placeholder name).toList ++ rest)) =
      (piecesFrom whole rest).map fun later => textPieces before ++ .parameter name :: later := by
  have hopened : Text.cut? opening (before ++ ((placeholder name).toList ++ rest)) =
      some (before, (' ' :: (valuesWord ++ name.toList) ++ [' ']) ++ closing ++ rest) := by
    rw [placeholder_toList, List.append_assoc, ← List.append_assoc before]
    exact Text.cut?_append_of_not_isInfix _ (by decide) hbefore
  have hclosed : Text.cut? closing
      ((' ' :: (valuesWord ++ name.toList) ++ [' ']) ++ closing ++ rest) =
      some (' ' :: (valuesWord ++ name.toList) ++ [' '], rest) := by
    rw [closing_eq]
    refine Text.cut?_append _ _ ?_
    intro hmem
    have hin : '\x7d' ∈ name.toList := by
      simpa [valuesWord_eq] using hmem
    exact absurd (hname.chars _ hin) (by decide)
  rw [piecesFrom]
  split
  · next hnone =>
    rw [hopened] at hnone
    contradiction
  · next _ after hsome =>
    rw [hopened] at hsome
    obtain ⟨rfl, rfl⟩ := Prod.mk.inj (Option.some.inj hsome)
    split
    · next hnone =>
      rw [hclosed] at hnone
      contradiction
    · next inside later hsome =>
      rw [hclosed] at hsome
      obtain ⟨rfl, rfl⟩ := Prod.mk.inj (Option.some.inj hsome)
      rw [parameterOf_referable hname]
      cases piecesFrom whole rest <;> rfl

/-- A text that starts with a placeholder of a plain name refers to that name, and to no more if
what follows is literal. -/
theorem pieces_placeholder {name unit : String} (hname : IsPlainName name)
    (hunit : IsLiteral unit) :
    pieces (placeholder name ++ unit) = .ok (.parameter name :: textPieces unit.toList) := by
  have hread := piecesFrom_placeholder (placeholder name ++ unit) [] unit.toList
    (isReferable_of_isPlainName hname) (by decide)
  rw [List.nil_append, ← String.toList_append, piecesFrom_of_literal hunit] at hread
  exact hread

theorem mem_parameterNames {name : String} {parts : List Piece} :
    name ∈ parameterNames parts ↔ .parameter name ∈ parts := by
  induction parts with
  | nil => simp [parameterNames]
  | cons piece rest ih => cases piece <;> simp [parameterNames, ih]

/-! ### Rendered texts -/

/-- The value that the pieces of a text make: that of the parameter if there is nothing else. -/
def renderParts (bindings : Bindings) : List Piece → Except TemplateError Json
  | [.parameter name] => (lookup bindings name).map Record.toJson
  | parts => do return .string (String.join (← parts.mapM (renderPiece bindings)))

theorem renderString_eq_bind (bindings : Bindings) (text : String) :
    renderString bindings text = pieces text >>= renderParts bindings :=
  rfl

theorem renderString_of_pieces {bindings : Bindings} {text : String} {parts : List Piece}
    (h : pieces text = .ok parts) : renderString bindings text = renderParts bindings parts := by
  rw [renderString_eq_bind, h]
  rfl

/-- A text is rendered to a text or to a whole number. -/
theorem renderString_cases {bindings : Bindings} {text : String} {json : Json}
    (h : renderString bindings text = .ok json) :
    (∃ s, json = .string s) ∨ ∃ i, json = .ofInt i := by
  rw [renderString_eq_bind] at h
  obtain ⟨parts, -, h⟩ := bind_eq_ok.mp h
  unfold renderParts at h
  split at h
  · obtain ⟨value, -, rfl⟩ := map_eq_ok.mp h
    cases value with
    | int i => exact .inr ⟨i.toInt, rfl⟩
    | string s => exact .inl ⟨s, rfl⟩
  · obtain ⟨texts, -, h⟩ := bind_eq_ok.mp h
    exact .inl ⟨_, (Except.ok.inj h).symm⟩

/-- The text of the piece once every parameter has its value. -/
def Piece.filledIn (value : String → IntOrString) : Piece → String
  | .text chars => String.ofList chars
  | .parameter name => (value name).toText

section Bound
variable {bindings : Bindings} {parts : List Piece}

theorem lookup_eq_ok {name : String} {v : IntOrString} :
    lookup bindings name = .ok v ↔ bindings.get? name = some v := by
  unfold lookup
  split <;> simp_all

theorem renderParts_single {name : String} {v : IntOrString} (h : bindings.get? name = some v) :
    renderParts bindings [.parameter name] = .ok (Record.toJson v) := by
  rw [renderParts, lookup_eq_ok.mpr h]
  rfl

theorem renderParts_mixed (value : String → IntOrString)
    (h : ∀ name, .parameter name ∈ parts → bindings.get? name = some (value name))
    (hmixed : ∀ name, parts ≠ [.parameter name]) :
    renderParts bindings parts =
      .ok (.string (String.join (parts.map (Piece.filledIn value)))) := by
  have hpieces : parts.mapM (renderPiece bindings) = .ok (parts.map (Piece.filledIn value)) := by
    rw [mapM_eq_ok, List.forall₂_map_right_iff, List.forall₂_same]
    intro piece hpiece
    cases piece with
    | text chars => rfl
    | parameter name =>
      rw [renderPiece, lookup_eq_ok.mpr (h name hpiece)]
      rfl
  unfold renderParts
  split
  · next name => exact absurd rfl (hmixed name)
  · rw [hpieces]
    rfl

end Bound

theorem renderString_literal (bindings : Bindings) {text : String} (h : IsLiteral text) :
    renderString bindings text = .ok (.string text) := by
  rw [renderString_of_pieces (pieces_of_literal h)]
  unfold textPieces
  split
  · next hempty =>
    obtain rfl : text = "" := by simpa using hempty
    rfl
  · rw [renderParts_mixed default (by simp) (by simp)]
    simp [Piece.filledIn, String.join]

/-- A text that is one placeholder becomes the value itself. -/
theorem renderString_placeholder {bindings : Bindings} {name : String} {value : IntOrString}
    (hname : IsPlainName name) (hvalue : bindings.get? name = some value) :
    renderString bindings (placeholder name) = .ok (Record.toJson value) := by
  have hpieces : pieces (placeholder name) = .ok [.parameter name] := by
    have hbare := pieces_placeholder hname (show IsLiteral "" by decide)
    rwa [String.append_empty] at hbare
  rw [renderString_of_pieces hpieces, renderParts_single hvalue]

/-- A placeholder before a unit is spelled out. -/
theorem renderString_placeholder_unit {bindings : Bindings} {name unit : String}
    {value : IntOrString} (hname : IsPlainName name) (hunit : IsLiteral unit) (hne : unit ≠ "")
    (hvalue : bindings.get? name = some value) :
    renderString bindings (placeholder name ++ unit) = .ok (.string (value.toText ++ unit)) := by
  have hlist : unit.toList.isEmpty = false := by simpa using hne
  have hpieces := pieces_placeholder hname hunit
  simp only [textPieces, hlist] at hpieces
  rw [renderString_of_pieces hpieces, renderParts_mixed (fun _ => value) ?_ (by simp)]
  · simp [Piece.filledIn, String.join]
  · intro other hother
    obtain rfl : other = name := by simpa using hother
    exact hvalue

end Template

end WorkloadTuning
