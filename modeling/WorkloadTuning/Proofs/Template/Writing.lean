import Mathlib.Data.List.Chain
import WorkloadTuning.Proofs.Naming.Order
import WorkloadTuning.Proofs.Template.Placeholder

/-! Texts that are put together from literal texts and placeholders are read back as the same
pieces. The scan looks for the next opening braces, so all that can go wrong is at a boundary: two
texts in a row are read as one, and a brace at the end of a text would run into the placeholder
behind it. Closing braces in a text, and names that start with a dot, are no trouble. -/

namespace WorkloadTuning.Template

/-! ### Writing -/

def Piece.written : Piece → String
  | .text chars => String.ofList chars
  | .parameter name => placeholder name

/-- The text that the pieces make, placeholders and all. -/
def write (parts : List Piece) : String :=
  String.join (parts.map Piece.written)

theorem write_cons (piece : Piece) (rest : List Piece) :
    (write (piece :: rest)).toList = piece.written.toList ++ (write rest).toList := by
  simp [write, String.toList_join]

/-! ### What can be written -/

/-- The piece by itself is read as the one piece that it is. -/
def Piece.IsWritable : Piece → Prop
  | .text chars => chars ≠ [] ∧ ¬ opening <:+: chars
  | .parameter name => IsReferable name

/-- The two pieces, one behind the other, are still told apart. -/
def Piece.MayPrecede : Piece → Piece → Prop
  | .text _, .text _ => False
  | .text chars, .parameter _ => chars.getLast? ≠ some '\x7b'
  | .parameter _, _ => True

structure IsWritable (parts : List Piece) : Prop where
  pieces : ∀ piece ∈ parts, piece.IsWritable
  neighbours : parts.IsChain Piece.MayPrecede

instance : DecidablePred Piece.IsWritable
  | .text chars => inferInstanceAs (Decidable (chars ≠ [] ∧ ¬ opening <:+: chars))
  | .parameter name => inferInstanceAs (Decidable (IsReferable name))

instance : DecidableRel Piece.MayPrecede
  | .text _, .text _ => inferInstanceAs (Decidable False)
  | .text chars, .parameter _ => inferInstanceAs (Decidable (chars.getLast? ≠ some '\x7b'))
  | .parameter _, _ => inferInstanceAs (Decidable True)

instance (parts : List Piece) : Decidable (IsWritable parts) :=
  decidable_of_iff ((∀ piece ∈ parts, piece.IsWritable) ∧ parts.IsChain Piece.MayPrecede)
    ⟨fun h => ⟨h.1, h.2⟩, fun h => ⟨h.pieces, h.neighbours⟩⟩

theorem IsWritable.tail {piece : Piece} {rest : List Piece} (h : IsWritable (piece :: rest)) :
    IsWritable rest where
  pieces other hother := h.pieces other (List.mem_cons_of_mem _ hother)
  neighbours := h.neighbours.tail

theorem not_infix_concat_brace {chars : List Char} (h : ¬ opening <:+: chars)
    (hlast : chars.getLast? ≠ some '\x7b') : ¬ opening <:+: chars ++ ['\x7b'] := by
  rw [List.infix_concat_iff, opening_eq]
  rintro (⟨before, hsuffix⟩ | hwithin)
  · -- The text in front ends in the first of the two braces.
    have hends : before ++ ['\x7b'] ++ ['\x7b'] = chars ++ ['\x7b'] := by simpa using hsuffix
    obtain rfl := List.append_cancel_right hends
    exact hlast (by simp)
  · rw [opening_eq] at h
    exact h hwithin

/-! ### Reading back -/

theorem textPieces_of_ne_nil {chars : List Char} (h : chars ≠ []) :
    textPieces chars = [.text chars] := by
  simp [textPieces, h]

/-- The scan gives the written pieces back, one placeholder with the text before it at a time. -/
theorem piecesFrom_write (whole : String) :
    (parts : List Piece) → IsWritable parts → piecesFrom whole (write parts).toList = .ok parts
  | [], _ => piecesFrom_of_literal (by decide)
  | .parameter name :: rest, h => by
    have hname : IsReferable name := h.pieces _ List.mem_cons_self
    rw [write_cons]
    refine (piecesFrom_placeholder whole [] _ hname (by decide)).trans ?_
    rw [piecesFrom_write whole rest h.tail]
    rfl
  | [.text chars], h => by
    obtain ⟨hne, hliteral⟩ : Piece.IsWritable (.text chars) := h.pieces _ List.mem_cons_self
    have hwritten : (write [.text chars]).toList = chars := by
      simp [write, Piece.written, String.join]
    rw [hwritten, piecesFrom_of_literal hliteral, textPieces_of_ne_nil hne]
  | .text chars :: .parameter name :: rest, h => by
    obtain ⟨hne, hliteral⟩ : Piece.IsWritable (.text chars) := h.pieces _ List.mem_cons_self
    have hname : IsReferable name := h.tail.pieces _ List.mem_cons_self
    have hlast : chars.getLast? ≠ some '\x7b' := (List.isChain_cons_cons.mp h.neighbours).1
    rw [write_cons, write_cons, Piece.written, String.toList_ofList]
    refine (piecesFrom_placeholder whole chars _ hname
      (not_infix_concat_brace hliteral hlast)).trans ?_
    rw [piecesFrom_write whole rest h.tail.tail, textPieces_of_ne_nil hne]
    rfl
  | .text _ :: .text _ :: _, h => (List.isChain_cons_cons.mp h.neighbours).1.elim

theorem pieces_write {parts : List Piece} (h : IsWritable parts) :
    pieces (write parts) = .ok parts :=
  piecesFrom_write _ parts h

/-- What was written is read back: the names that the text refers to are those of its pieces, and
with all of them bound it is rendered to the texts and the displayed values, one after another. A
single placeholder is rendered to the value itself, a number or a text. -/
theorem write_reads_back {parts : List Piece} (h : IsWritable parts) :
    (∃ names, references (.string (write parts)) = .ok names ∧ names.Pairwise (· < ·) ∧
      ∀ name, name ∈ names ↔ .parameter name ∈ parts) ∧
    ∀ (bindings : Bindings) (value : String → IntOrString),
      (∀ name, .parameter name ∈ parts → bindings.get? name = some (value name)) →
      (∀ name, parts = [.parameter name] → render bindings (.string (write parts)) =
        .ok (match value name with
          | .int i => .ofInt i.toInt
          | .string s => .string s)) ∧
      ((∀ name, parts ≠ [.parameter name]) → render bindings (.string (write parts)) =
        .ok (.string (String.join (parts.map (Piece.filledIn value))))) := by
  constructor
  · refine ⟨sortedNames (parameterNames parts), ?_, pairwise_sortedNames _, fun name => ?_⟩
    · simp only [references, mentions, pieces_write h]
      rfl
    · rw [mem_sortedNames, mem_parameterNames]
  · intro bindings value hbound
    have hrender : render bindings (.string (write parts)) = renderParts bindings parts := by
      rw [render, renderString_of_pieces (pieces_write h)]
    refine ⟨fun name hsingle => ?_, fun hmixed => ?_⟩
    · subst hsingle
      rw [hrender, renderParts_single (hbound name List.mem_cons_self)]
      cases value name <;> rfl
    · rw [hrender, renderParts_mixed value hbound hmixed]

/-- Closing braces, a brace behind a placeholder, a name that starts with a dot, and two
placeholders side by side. -/
def braced : List Piece :=
  [.text "\x7d\x7d".toList, .parameter ".cpu", .parameter "mem", .text "\x7bm".toList]

theorem braced_reads_back : IsWritable braced ∧
    write braced = "\x7d\x7d\x7b\x7b .Values..cpu \x7d\x7d\x7b\x7b .Values.mem \x7d\x7d\x7bm" ∧
    (∃ names, references (.string (write braced)) = .ok names ∧
      ∀ name, name ∈ names ↔ name = ".cpu" ∨ name = "mem") ∧
    render (Dict.ofList [(".cpu", .int 500), ("mem", .string "2G")]) (.string (write braced)) =
      .ok (.string "\x7d\x7d5002G\x7bm") := by
  have hwritable : IsWritable braced := by decide
  obtain ⟨⟨names, hnames, -, hmem⟩, hrender⟩ := write_reads_back hwritable
  refine ⟨hwritable, by decide, ⟨names, hnames, fun name => ?_⟩, ?_⟩
  · rw [hmem]
    simp [braced]
  · let value := fun name => if name = ".cpu" then IntOrString.int 500 else .string "2G"
    refine ((hrender _ value ?_).2 (by simp [braced])).trans (by decide)
    intro name hname
    obtain rfl | rfl : name = ".cpu" ∨ name = "mem" := by simpa [braced] using hname
    · decide
    · decide

end WorkloadTuning.Template
