import Mathlib.Data.List.Infix
import WorkloadTuning.Proofs.Naming.Alphabet
import WorkloadTuning.Text.Blank
import WorkloadTuning.Text.Cut

/-! Lower case against the other things that are done to a text: trimming it, and taking a word out
of it. In ASCII lower case goes character by character, so it commutes with both, with the one
exception that it can make occurrences of the word that were none before. -/

namespace WorkloadTuning.Text

variable {c : Char} {s : List Char}

/-! ### Lower case in ASCII -/

def IsAscii (s : List Char) : Prop :=
  ∀ c ∈ s, c.toNat < 128

instance : DecidablePred IsAscii :=
  fun s => List.decidableBAll _ s

theorem IsAscii.of_subset {part : List Char} (h : IsAscii s) (hsubset : part ⊆ s) : IsAscii part :=
  fun c hc => h c (hsubset hc)

theorem toLower_toLower (c : Char) : c.toLower.toLower = c.toLower := by
  by_cases hupper : c.isUpper
  · refine toLower_of_not_isUpper fun hagain => ?_
    have hlower := isLower_iff.mp (isLower_toLower hupper)
    have hrange := isUpper_iff.mp hagain
    omega
  · rw [toLower_of_not_isUpper hupper, toLower_of_not_isUpper hupper]

theorem isAlpha_iff : c.isAlpha = true ↔ c.isUpper = true ∨ c.isLower = true := by
  show (c.isUpper || c.isLower) = true ↔ _
  rw [Bool.or_eq_true]

/-- Lower case keeps all that does not look at letters. -/
theorem apply_toLower {p : Char → Bool} (h : ∀ c : Char, c.isAlpha → p c = false) (c : Char) :
    p c.toLower = p c := by
  by_cases hupper : c.isUpper
  · rw [h c (isAlpha_iff.mpr (.inl hupper)),
      h c.toLower (isAlpha_iff.mpr (.inr (isLower_toLower hupper)))]
  · rw [toLower_of_not_isUpper hupper]

theorem toNat_toLower_lt (h : c.toNat < 128) : c.toLower.toNat < 128 := by
  by_cases hupper : c.isUpper
  · have hrange := isUpper_iff.mp hupper
    rw [toNat_toLower hupper]
    omega
  · rwa [toLower_of_not_isUpper hupper]

theorem IsAscii.map_toLower (h : IsAscii s) : IsAscii (s.map Char.toLower) := by
  intro c hc
  obtain ⟨d, hd, rfl⟩ := List.mem_map.mp hc
  exact toNat_toLower_lt (h d hd)

theorem lowerFrom_of_isAscii (h : IsAscii s) (before : List Char) :
    lowerFrom before s = s.map Char.toLower := by
  induction s generalizing before with
  | nil => rfl
  | cons c rest ih =>
    have hc : c.toNat < 128 := h c List.mem_cons_self
    have hsigma : c ≠ 'Σ' := by
      rintro rfl
      exact absurd hc (by decide)
    rw [lowerFrom, if_neg hsigma, lowerOf, if_pos hc,
      ih fun d hd => h d (List.mem_cons_of_mem c hd)]
    rfl

theorem toList_lower {text : String} (h : IsAscii text.toList) :
    (lower text).toList = text.toList.map Char.toLower := by
  rw [lower, String.toList_ofList, lowerFrom_of_isAscii h]

theorem IsAscii.lower {text : String} (h : IsAscii text.toList) : IsAscii (lower text).toList :=
  toList_lower h ▸ h.map_toLower

theorem lower_lower {text : String} (h : IsAscii text.toList) :
    lower (lower text) = lower text := by
  rw [← String.toList_inj, toList_lower h.lower, toList_lower h, List.map_map]
  exact List.map_congr_left fun c _ => toLower_toLower c

/-! ### Trimming -/

section Trimming
variable {f : Char → Char} {p : Char → Bool}

theorem dropWhile_map_of_kept (h : ∀ c, p (f c) = p c) (s : List Char) :
    (s.map f).dropWhile p = (s.dropWhile p).map f := by
  rw [List.dropWhile_map]
  congr 2
  funext c
  exact h c

theorem dropEndWhile_map_of_kept (h : ∀ c, p (f c) = p c) (s : List Char) :
    dropEndWhile p (s.map f) = (dropEndWhile p s).map f := by
  rw [dropEndWhile, ← List.map_reverse, dropWhile_map_of_kept h, ← List.map_reverse, dropEndWhile]

/-- What holds no character that is trimmed stays in the text. -/
theorem infix_dropWhile {part : List Char} (h : part <:+: s) (hpart : ∀ c ∈ part, p c = false) :
    part <:+: s.dropWhile p := by
  induction s with
  | nil => exact h
  | cons c rest ih =>
    by_cases hc : p c
    · rw [List.dropWhile_cons_of_pos hc]
      rcases List.infix_cons_iff.mp h with hprefix | hrest
      · cases part with
        | nil => exact List.nil_infix
        | cons d part =>
          obtain ⟨rfl, -⟩ := List.cons_prefix_cons.mp hprefix
          rw [hpart d List.mem_cons_self] at hc
          cases hc
      · exact ih hrest
    · rwa [List.dropWhile_cons_of_neg hc]

theorem infix_dropEndWhile {part : List Char} (h : part <:+: s) (hpart : ∀ c ∈ part, p c = false) :
    part <:+: dropEndWhile p s := by
  rw [dropEndWhile, ← List.reverse_infix, List.reverse_reverse]
  exact infix_dropWhile (List.reverse_infix.mpr h) fun c hc => hpart c (List.mem_reverse.mp hc)

end Trimming

/-! ### Taking out a word -/

section Without
variable {word part : List Char} {w : Char}

theorem withoutFrom_subset (word : List Char) (skipped : Nat) (s : List Char) :
    withoutFrom word skipped s ⊆ s := by
  induction s generalizing skipped with
  | nil => cases skipped <;> exact List.Subset.refl _
  | cons c rest ih =>
    cases skipped with
    | succ skipped => exact List.subset_cons_of_subset c (ih skipped)
    | zero =>
      rw [withoutFrom]
      split
      · exact List.subset_cons_of_subset c (ih _)
      · exact List.cons_subset_cons c (ih 0)

theorem without_subset (word s : List Char) : without word s ⊆ s :=
  withoutFrom_subset word 0 s

/-- A map that makes no new occurrence of the word leaves the same to be taken out. -/
theorem withoutFrom_map {f : Char → Char} (hword : word.map f = word)
    (h : ∀ part, part <:+: s → part.map f = word → part = word) (skipped : Nat) :
    withoutFrom word skipped (s.map f) = (withoutFrom word skipped s).map f := by
  induction s generalizing skipped with
  | nil => cases skipped <;> rfl
  | cons c rest ih =>
    have hrest := ih fun part hpart => h part (hpart.trans (List.suffix_cons c rest).isInfix)
    cases skipped with
    | succ skipped => exact hrest skipped
    | zero =>
      have hsame : word.isPrefixOf ((c :: rest).map f) = word.isPrefixOf (c :: rest) := by
        rw [Bool.eq_iff_iff, List.isPrefixOf_iff_prefix, List.isPrefixOf_iff_prefix]
        constructor
        · intro hprefix
          obtain ⟨part, hpart, heq⟩ := List.prefix_map_iff.mp hprefix
          rwa [← h part hpart.isInfix heq.symm]
        · intro hprefix
          rw [← hword]
          exact hprefix.map f
      rw [List.map_cons] at hsame ⊢
      rw [withoutFrom, withoutFrom, hsame]
      split
      · exact hrest _
      · rw [hrest 0, List.map_cons]

theorem without_map {f : Char → Char} (hword : word.map f = word)
    (h : ∀ part, part <:+: s → part.map f = word → part = word) :
    without word (s.map f) = (without word s).map f :=
  withoutFrom_map hword h 0

/-- No occurrence starts where the first character of the word is not. -/
theorem withoutFrom_append_of_not_mem (hw : w ∉ part) (after : List Char) :
    withoutFrom (w :: word) 0 (part ++ after) = part ++ withoutFrom (w :: word) 0 after := by
  induction part with
  | nil => rfl
  | cons c part ih =>
    obtain ⟨hne, hrest⟩ : w ≠ c ∧ w ∉ part := by simpa using hw
    have hstart : ((w :: word).isPrefixOf (c :: (part ++ after))) = false := by
      simp [List.isPrefixOf, hne]
    rw [List.cons_append, withoutFrom, hstart, ih hrest]
    rfl

/-- Another word of the same length stays, if the two cannot run into each other. -/
theorem infix_withoutFrom {c : Char} {before : List Char} (after : List Char)
    (hlength : part.length = word.length) (hne : c :: part ≠ w :: word) (hw : w ∉ part)
    (hc : c ∉ word) {skipped : Nat} (hskipped : skipped ≤ before.length) :
    c :: part <:+: withoutFrom (w :: word) skipped (before ++ (c :: part) ++ after) := by
  induction before generalizing skipped with
  | nil =>
    obtain rfl : skipped = 0 := by simpa using hskipped
    have hstart : ((w :: word).isPrefixOf (c :: (part ++ after))) = false := by
      rw [Bool.eq_false_iff, Ne, List.isPrefixOf_iff_prefix]
      rintro ⟨rest, heq⟩
      exact hne (List.append_inj_left heq (by simp [hlength])).symm
    rw [List.nil_append, List.cons_append, withoutFrom, hstart,
      withoutFrom_append_of_not_mem hw]
    exact (List.prefix_append (c :: part) _).isInfix
  | cons d before ih =>
    cases skipped with
    | succ skipped => exact ih (by simpa using hskipped)
    | zero =>
      rw [List.cons_append, List.cons_append, withoutFrom]
      split
      · next hstart =>
        refine ih ?_
        rw [List.length_cons, Nat.add_sub_cancel]
        -- Otherwise the occurrence here would run into the other word.
        by_contra hlong
        obtain ⟨rest, heq⟩ := List.isPrefixOf_iff_prefix.mp hstart
        rw [List.cons_append, List.append_assoc] at heq
        obtain ⟨-, htail⟩ := List.cons.inj heq
        have hboth : before ++ [c] <+: word ++ rest := by
          rw [htail]
          exact ⟨part ++ after, by simp⟩
        have hwithin : before ++ [c] <+: word := by
          refine List.prefix_of_prefix_length_le hboth (List.prefix_append word rest) ?_
          rw [List.length_append, List.length_singleton]
          omega
        exact hc (hwithin.subset (by simp))
      · exact (ih (Nat.zero_le _)).trans (List.suffix_cons d _).isInfix

theorem infix_without {c : Char} (h : c :: part <:+: s) (hlength : part.length = word.length)
    (hne : c :: part ≠ w :: word) (hw : w ∉ part) (hc : c ∉ word) :
    c :: part <:+: without (w :: word) s := by
  obtain ⟨before, after, rfl⟩ := h
  exact infix_withoutFrom after hlength hne hw hc (Nat.zero_le _)

end Without

end WorkloadTuning.Text
