import Mathlib.Data.List.Infix
import WorkloadTuning.Text.Cut

/-! Cutting a text at the first occurrence of a separator, and at the last and at every occurrence
of a character: where the cuts are, and what the parts cannot hold. -/

namespace WorkloadTuning.Text

/-! ### The first occurrence -/

theorem cut?_eq_none_of_not_isInfix {separator s : List Char} (h : ¬ separator <:+: s) :
    cut? separator s = none := by
  induction s with
  | nil =>
    have hne : separator ≠ [] := by
      rintro rfl
      exact h (List.infix_refl [])
    simp [cut?, hne]
  | cons c rest ih =>
    unfold cut?
    split
    · next after found =>
      exact absurd ⟨[], after, by simp [dropStart?_eq_some_iff.mp found]⟩ h
    · rw [ih fun hrest => h (hrest.trans (List.suffix_cons c rest).isInfix)]
      rfl

/-- The first occurrence is where the first character of the separator is first met. -/
theorem cut?_append {c : Char} {before : List Char} (separator after : List Char) (h : c ∉ before) :
    cut? (c :: separator) (before ++ c :: separator ++ after) = some (before, after) := by
  induction before with
  | nil =>
    have hstart : dropStart? (c :: separator) (c :: separator ++ after) = some after :=
      dropStart?_eq_some_iff.mpr rfl
    simp only [List.cons_append] at hstart
    simp only [List.nil_append, List.cons_append, cut?, hstart]
  | cons d before ih =>
    obtain ⟨hne, hrest⟩ : c ≠ d ∧ c ∉ before := by simpa using h
    simp only [List.cons_append, cut?, dropStart?, if_neg hne] at ih ⊢
    rw [ih hrest]
    rfl

/-- The first occurrence is found if none starts before it, not even one that runs into it. -/
theorem cut?_append_of_not_isInfix {separator before : List Char} (after : List Char)
    (hne : separator ≠ []) (h : ¬ separator <:+: before ++ separator.dropLast) :
    cut? separator (before ++ separator ++ after) = some (before, after) := by
  induction before with
  | nil =>
    have hstart : dropStart? separator (separator ++ after) = some after :=
      dropStart?_eq_some_iff.mpr rfl
    obtain ⟨c, rest, rfl⟩ := List.exists_cons_of_ne_nil hne
    rw [List.nil_append, List.cons_append, cut?]
    rw [List.cons_append] at hstart
    rw [hstart]
  | cons d before ih =>
    have hrest : ¬ separator <:+: before ++ separator.dropLast := fun hwithin =>
      h (hwithin.trans (List.suffix_cons d _).isInfix)
    have hstart : dropStart? separator (d :: before ++ separator ++ after) = none := by
      rw [Option.eq_none_iff_forall_ne_some]
      intro rest hfound
      -- An occurrence here would end before the separator does.
      have hprefix : separator <+: d :: before ++ separator ++ after :=
        ⟨rest, (dropStart?_eq_some_iff.mp hfound).symm⟩
      have hlonger : d :: before ++ separator.dropLast <+: d :: before ++ separator ++ after := by
        rw [List.append_assoc, List.prefix_append_right_inj]
        exact (List.dropLast_prefix separator).trans (List.prefix_append _ _)
      have hlength : separator.length ≤ (d :: before ++ separator.dropLast).length := by
        simp only [List.length_append, List.length_cons, List.length_dropLast]
        omega
      exact h (List.prefix_of_prefix_length_le hprefix hlonger hlength).isInfix
    simp only [List.cons_append] at hstart ⊢
    rw [cut?, hstart]
    simp only [ih hrest, Option.map_some]

theorem cut?_eq_none_iff {separator s : List Char} (hne : separator ≠ []) :
    cut? separator s = none ↔ ¬ separator <:+: s := by
  refine ⟨?_, cut?_eq_none_of_not_isInfix⟩
  intro h hwithin
  induction s with
  | nil => exact hne (List.infix_nil.mp hwithin)
  | cons c rest ih =>
    rw [cut?] at h
    split at h
    · cases h
    · next hstart =>
      rcases List.infix_cons_iff.mp hwithin with ⟨after, heq⟩ | hrest
      · rw [dropStart?_eq_some_iff.mpr heq.symm] at hstart
        cases hstart
      · exact ih (Option.map_eq_none_iff.mp h) hrest

/-- The cut is made at the first occurrence, which no other one starts before. -/
theorem cut?_eq_some_iff {separator s before after : List Char} (hne : separator ≠ []) :
    cut? separator s = some (before, after) ↔
      s = before ++ separator ++ after ∧ ¬ separator <:+: before ++ separator.dropLast := by
  constructor
  · intro h
    refine ⟨cut?_eq h, ?_⟩
    intro hwithin
    induction s generalizing before with
    | nil => simp [cut?, hne] at h
    | cons c rest ih =>
      have hwhole := cut?_eq h
      rw [cut?] at h
      split at h
      · obtain ⟨rfl, rfl⟩ := Prod.mk.inj (Option.some.inj h)
        have hlength := hwithin.length_le
        have hpos : 0 < separator.length := List.length_pos_iff.mpr hne
        rw [List.nil_append, List.length_dropLast] at hlength
        omega
      · next hstart =>
        obtain ⟨⟨b, a⟩, hcut, heq⟩ := Option.map_eq_some_iff.mp h
        obtain ⟨rfl, rfl⟩ := Prod.mk.inj heq
        rcases List.infix_cons_iff.mp hwithin with hprefix | hrest
        · have hlonger : c :: b ++ separator.dropLast <+: c :: b ++ separator ++ a := by
            rw [List.append_assoc, List.prefix_append_right_inj]
            exact (List.dropLast_prefix separator).trans (List.prefix_append _ _)
          obtain ⟨rest', heq⟩ := hprefix.trans hlonger
          rw [hwhole, dropStart?_eq_some_iff.mpr heq.symm] at hstart
          cases hstart
        · exact ih hcut hrest
  · rintro ⟨rfl, h⟩
    exact cut?_append_of_not_isInfix after hne h

theorem cut?_suffix {separator s before after : List Char}
    (h : cut? separator s = some (before, after)) : after <:+ s :=
  ⟨before ++ separator, (cut?_eq h).symm⟩

/-- No separator stands before the first one. -/
theorem not_mem_of_cut? {c : Char} {s before after : List Char}
    (h : cut? [c] s = some (before, after)) : c ∉ before := by
  induction s generalizing before with
  | nil => cases h
  | cons d rest ih =>
    by_cases hd : c = d
    · subst hd
      have hempty : cut? [c] (c :: rest) = some ([], rest) := by simp [cut?, dropStart?]
      obtain ⟨rfl, -⟩ := Prod.mk.inj (Option.some.inj (hempty.symm.trans h))
      exact List.not_mem_nil
    · rw [cut?, dropStart?, if_neg hd] at h
      obtain ⟨⟨b, a⟩, hcut, heq⟩ := Option.map_eq_some_iff.mp h
      obtain ⟨rfl, rfl⟩ := Prod.mk.inj heq
      exact List.not_mem_cons_of_ne_of_not_mem hd (ih hcut)

/-- Where no cut is made there is no separator. -/
theorem not_mem_of_cut?_none {c : Char} {s : List Char} (h : cut? [c] s = none) : c ∉ s := by
  intro hmem
  obtain ⟨before, after, rfl, hbefore⟩ := List.eq_append_cons_of_mem hmem
  have hcut := cut?_append [] after hbefore
  rw [List.append_assoc, List.singleton_append, h] at hcut
  cases hcut

theorem cut?_singleton_eq_none_iff {c : Char} {s : List Char} : cut? [c] s = none ↔ c ∉ s :=
  ⟨not_mem_of_cut?_none, fun h =>
    cut?_eq_none_of_not_isInfix fun hwithin => h (hwithin.subset (List.mem_singleton_self c))⟩

/-! ### The last occurrence -/

theorem cutLast?_of_not_mem {c : Char} {s : List Char} (h : c ∉ s) : cutLast? c s = none := by
  induction s with
  | nil => rfl
  | cons d rest ih =>
    obtain ⟨hne, hrest⟩ : c ≠ d ∧ c ∉ rest := by simpa using h
    rw [cutLast?, ih hrest, if_neg (Ne.symm hne)]

theorem cutLast?_append {c : Char} {after : List Char} (before : List Char) (h : c ∉ after) :
    cutLast? c (before ++ c :: after) = some (before, after) := by
  induction before with
  | nil => rw [List.nil_append, cutLast?, cutLast?_of_not_mem h, if_pos rfl]
  | cons d before ih => rw [List.cons_append, cutLast?, ih]

/-! ### Pieces -/

section Pieces
variable {separator : Char} {piece s : List Char}

theorem pieces_cons_ne {c : Char} (h : c ≠ separator) (s : List Char) :
    pieces separator (c :: s) = (pieces separator s).modifyHead (c :: ·) := by
  rw [pieces, if_neg h]
  cases hpieces : pieces separator s with
  | nil => exact absurd hpieces (pieces_ne_nil separator s)
  | cons first others => rfl

theorem pieces_of_not_mem (h : separator ∉ s) : pieces separator s = [s] := by
  induction s with
  | nil => rfl
  | cons c rest ih =>
    obtain ⟨hc, hrest⟩ : separator ≠ c ∧ separator ∉ rest := by simpa using h
    rw [pieces_cons_ne (Ne.symm hc), ih hrest]
    rfl

theorem pieces_append (h : separator ∉ piece) (rest : List Char) :
    pieces separator (piece ++ separator :: rest) = piece :: pieces separator rest := by
  induction piece with
  | nil => rw [List.nil_append, pieces, if_pos rfl]
  | cons c piece ih =>
    obtain ⟨hc, hpiece⟩ : separator ≠ c ∧ separator ∉ piece := by simpa using h
    rw [List.cons_append, pieces_cons_ne (Ne.symm hc), ih hpiece]
    rfl

/-- Pieces that hold no separator come back when the separator is put between them. -/
theorem pieces_flatMap {others : List (List Char)} (h : ∀ p ∈ piece :: others, separator ∉ p) :
    pieces separator (piece ++ others.flatMap (separator :: ·)) = piece :: others := by
  induction others generalizing piece with
  | nil =>
    rw [List.flatMap_nil, List.append_nil]
    exact pieces_of_not_mem (h piece List.mem_cons_self)
  | cons other others ih =>
    rw [List.flatMap_cons, List.cons_append, pieces_append (h piece List.mem_cons_self),
      ih fun p hp => h p (List.mem_cons_of_mem _ hp)]

theorem pieces_intercalate {parts : List (List Char)} (hne : parts ≠ [])
    (h : ∀ p ∈ parts, separator ∉ p) : pieces separator ([separator].intercalate parts) = parts := by
  induction parts with
  | nil => exact absurd rfl hne
  | cons part parts ih =>
    cases parts with
    | nil =>
      rw [List.intercalate_singleton]
      exact pieces_of_not_mem (h part List.mem_cons_self)
    | cons next parts =>
      rw [List.intercalate_cons_cons, List.append_assoc, List.singleton_append,
        pieces_append (h part List.mem_cons_self),
        ih (List.cons_ne_nil next parts) fun p hp => h p (List.mem_cons_of_mem part hp)]

/-- The pieces are joined to the text again. -/
theorem intercalate_pieces (separator : Char) (s : List Char) :
    [separator].intercalate (pieces separator s) = s := by
  induction s with
  | nil => rfl
  | cons c rest ih =>
    obtain ⟨first, others, hpieces⟩ := List.exists_cons_of_ne_nil (pieces_ne_nil separator rest)
    rw [hpieces] at ih
    by_cases hc : c = separator
    · rw [pieces, if_pos hc, hpieces, List.intercalate_cons_cons, ih, hc]
      rfl
    · rw [pieces_cons_ne hc, hpieces, List.modifyHead_cons]
      cases others with
      | nil => simpa using ih
      | cons next others =>
        rw [List.intercalate_cons_cons] at ih ⊢
        rw [← ih]
        rfl

theorem not_mem_of_mem_pieces (h : piece ∈ pieces separator s) : separator ∉ piece := by
  induction s generalizing piece with
  | nil =>
    obtain rfl := List.mem_singleton.mp h
    exact List.not_mem_nil
  | cons c rest ih =>
    by_cases hc : c = separator
    · rw [pieces, if_pos hc] at h
      rcases List.mem_cons.mp h with rfl | h
      · exact List.not_mem_nil
      · exact ih h
    · rw [pieces_cons_ne hc] at h
      cases hpieces : pieces separator rest with
      | nil => exact absurd hpieces (pieces_ne_nil separator rest)
      | cons first others =>
        rw [hpieces] at h ih
        rcases List.mem_cons.mp h with rfl | h
        · exact List.not_mem_cons_of_ne_of_not_mem (Ne.symm hc) (ih List.mem_cons_self)
        · exact ih (List.mem_cons_of_mem _ h)

end Pieces

end WorkloadTuning.Text
