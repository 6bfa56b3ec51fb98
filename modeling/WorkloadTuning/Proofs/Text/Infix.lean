import Mathlib.Data.List.Infix

/-! Where words stand in a text that is put together from parts. A word stands in one part, unless
it runs from one into the next. -/

namespace WorkloadTuning.Text

variable {α : Type} {word before after s : List α} {c : α}

/-! ### Two parts -/

/-- A word does not start in a part that has not its first character. -/
theorem infix_right_of_not_mem (h : c :: word <:+: before ++ after) (hc : c ∉ before) :
    c :: word <:+: after := by
  rcases List.infix_append_iff.mp h with h | h | ⟨start, stop, heq, hstart, hstop⟩
  · exact absurd (h.subset List.mem_cons_self) hc
  · exact h
  · cases start with
    | nil => exact heq ▸ hstop.isInfix
    | cons d start =>
      obtain rfl : c = d := (List.cons.inj heq).1
      exact absurd (hstart.subset List.mem_cons_self) hc

/-- A word does not end in a part that has not its last character. -/
theorem infix_left_of_not_mem (h : word ++ [c] <:+: before ++ after) (hc : c ∉ after) :
    word ++ [c] <:+: before := by
  have hreverse : c :: word.reverse <:+: after.reverse ++ before.reverse := by
    rw [← List.reverse_append, ← List.reverse_concat, List.reverse_infix]
    exact h
  have hleft := infix_right_of_not_mem hreverse (by rwa [List.mem_reverse])
  rwa [← List.reverse_concat, List.reverse_infix] at hleft

/-- A word is not cut in two by a character that it has not. -/
theorem infix_of_not_mem (h : word <:+: before ++ c :: after) (hc : c ∉ word) :
    word <:+: before ∨ word <:+: after := by
  rcases List.infix_append_iff.mp h with h | h | ⟨start, stop, rfl, hstart, hstop⟩
  · exact .inl h
  · rcases List.infix_cons_iff.mp h with hprefix | h
    · cases word with
      | nil => exact .inl (List.nil_infix)
      | cons d word =>
        obtain ⟨rfl, -⟩ := List.cons_prefix_cons.mp hprefix
        exact absurd List.mem_cons_self hc
    · exact .inr h
  · cases stop with
    | nil => exact .inl (by simpa using hstart.isInfix)
    | cons d stop =>
      obtain ⟨rfl, -⟩ := List.cons_prefix_cons.mp hstop
      exact absurd (List.mem_append_right start List.mem_cons_self) hc

/-! ### Many parts -/

theorem infix_intercalate (separator : List α) {part : List α} {parts : List (List α)}
    (h : part ∈ parts) : part <:+: separator.intercalate parts := by
  induction parts with
  | nil => cases h
  | cons first parts ih =>
    cases parts with
    | nil => simp [List.mem_singleton.mp h]
    | cons next parts =>
      rw [List.intercalate_cons_cons, List.append_assoc]
      rcases List.mem_cons.mp h with rfl | h
      · exact (List.prefix_append _ _).isInfix
      · exact (ih h).trans ((List.suffix_append _ _).trans (List.suffix_append _ _)).isInfix

/-- A word that has no separator stands in one of the parts that are joined by it. -/
theorem infix_of_infix_intercalate {parts : List (List α)} (hne : word ≠ []) (hc : c ∉ word)
    (h : word <:+: [c].intercalate parts) : ∃ part ∈ parts, word <:+: part := by
  induction parts with
  | nil => exact absurd (List.infix_nil.mp h) hne
  | cons part parts ih =>
    cases parts with
    | nil => exact ⟨part, List.mem_cons_self, by simpa using h⟩
    | cons next parts =>
      rw [List.intercalate_cons_cons, List.append_assoc, List.singleton_append] at h
      rcases infix_of_not_mem h hc with h | h
      · exact ⟨part, List.mem_cons_self, h⟩
      · obtain ⟨found, hmem, hfound⟩ := ih h
        exact ⟨found, List.mem_cons_of_mem part hmem, hfound⟩

end WorkloadTuning.Text
