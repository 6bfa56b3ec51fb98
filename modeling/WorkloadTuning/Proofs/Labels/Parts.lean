import WorkloadTuning.Labels
import WorkloadTuning.Proofs.Text.Trim

/-! The parts of a selector's text. Commas cut it only outside of parentheses, so whether parts come
back after they are joined depends on the commas and parentheses in each. Leaving out anything but
parentheses does not change that. -/

namespace WorkloadTuning.LabelSelector

open Text

variable {c : Char} {depth : Nat} {s rest part : List Char} {parts : List (List Char)}

/-! ### Cutting and joining -/

/-- How many parentheses are open behind the character. -/
def depthStep (depth : Nat) (c : Char) : Nat :=
  if c = '(' then depth + 1 else if c = ')' then depth - 1 else depth

def depthAfter (depth : Nat) (s : List Char) : Nat :=
  s.foldl depthStep depth

/-- No comma of the text is outside of parentheses. -/
def IsPart (depth : Nat) : List Char → Prop
  | [] => True
  | c :: rest => ¬ (c = ',' ∧ depth = 0) ∧ IsPart (depthStep depth c) rest

/-- Parentheses may stay open in the last part only: behind any other there is a comma that cuts. -/
def AreParts (depth : Nat) : List (List Char) → Prop
  | [] => True
  | [last] => IsPart depth last
  | part :: next :: parts =>
    IsPart depth part ∧ depthAfter depth part = 0 ∧ AreParts 0 (next :: parts)

theorem partsFrom_ne_nil (depth : Nat) (s : List Char) : partsFrom depth s ≠ [] := by
  cases s with
  | nil => simp [partsFrom]
  | cons c rest =>
    unfold partsFrom
    split
    · simp
    · dsimp only
      split <;> simp

theorem partsFrom_cons (h : ¬ (c = ',' ∧ depth = 0)) (rest : List Char) :
    partsFrom depth (c :: rest) = (partsFrom (depthStep depth c) rest).modifyHead (c :: ·) := by
  rw [partsFrom, if_neg h]
  simp only [depthStep]
  cases hparts : partsFrom (depthStep depth c) rest with
  | nil => exact absurd hparts (partsFrom_ne_nil _ rest)
  | cons first others =>
    simp only [depthStep] at hparts
    rw [hparts]
    rfl

theorem areParts_cons : AreParts depth ((c :: part) :: parts) ↔
    ¬ (c = ',' ∧ depth = 0) ∧ AreParts (depthStep depth c) (part :: parts) := by
  cases parts with
  | nil => rfl
  | cons next parts => simp only [AreParts, IsPart, depthAfter, List.foldl_cons, and_assoc]

theorem areParts_partsFrom (depth : Nat) (s : List Char) : AreParts depth (partsFrom depth s) := by
  induction s generalizing depth with
  | nil => trivial
  | cons c rest ih =>
    by_cases hcut : c = ',' ∧ depth = 0
    · obtain ⟨rfl, rfl⟩ := hcut
      obtain ⟨first, others, hparts⟩ := List.exists_cons_of_ne_nil (partsFrom_ne_nil 0 rest)
      have hrest := ih 0
      rw [hparts] at hrest
      rw [partsFrom, if_pos ⟨rfl, rfl⟩, hparts]
      exact ⟨trivial, rfl, hrest⟩
    · obtain ⟨first, others, hparts⟩ :=
        List.exists_cons_of_ne_nil (partsFrom_ne_nil (depthStep depth c) rest)
      have hrest := ih (depthStep depth c)
      rw [hparts] at hrest
      rw [partsFrom_cons hcut, hparts]
      exact areParts_cons.mpr ⟨hcut, hrest⟩

theorem partsFrom_of_isPart (h : IsPart depth part) : partsFrom depth part = [part] := by
  induction part generalizing depth with
  | nil => rfl
  | cons c part ih =>
    rw [partsFrom_cons h.1, ih h.2]
    rfl

theorem partsFrom_append (h : IsPart depth part) (hclosed : depthAfter depth part = 0)
    (rest : List Char) : partsFrom depth (part ++ ',' :: rest) = part :: partsFrom 0 rest := by
  induction part generalizing depth with
  | nil =>
    obtain rfl : depth = 0 := hclosed
    rw [List.nil_append, partsFrom, if_pos ⟨rfl, rfl⟩]
  | cons c part ih =>
    rw [List.cons_append, partsFrom_cons h.1, ih h.2 hclosed]
    rfl

/-- Parts that are joined come back. -/
theorem partsFrom_intercalate (hne : parts ≠ []) (h : AreParts 0 parts) :
    partsFrom 0 ([','].intercalate parts) = parts := by
  induction parts with
  | nil => exact absurd rfl hne
  | cons part parts ih =>
    cases parts with
    | nil =>
      rw [List.intercalate_singleton]
      exact partsFrom_of_isPart h
    | cons next parts =>
      obtain ⟨hpart, hclosed, hrest⟩ := h
      rw [List.intercalate_cons_cons, List.append_assoc, List.singleton_append,
        partsFrom_append hpart hclosed, ih (List.cons_ne_nil next parts) hrest]

theorem depthStep_of_not_mem (h : c ∉ [',', '(', ')']) (depth : Nat) :
    depthStep depth c = depth := by
  simp only [List.mem_cons, List.not_mem_nil, or_false, not_or] at h
  rw [depthStep, if_neg h.2.1, if_neg h.2.2]

theorem isPart_of_forall (h : ∀ c ∈ part, c ∉ [',', '(', ')']) :
    IsPart depth part ∧ depthAfter depth part = depth := by
  induction part with
  | nil => exact ⟨trivial, rfl⟩
  | cons c part ih =>
    obtain ⟨hc, hpart⟩ := List.forall_mem_cons.mp h
    obtain ⟨hrest, hdepth⟩ := ih hpart
    have hne : c ≠ ',' := fun heq => hc (heq ▸ List.mem_cons_self)
    rw [IsPart, depthAfter, List.foldl_cons, depthStep_of_not_mem hc]
    exact ⟨⟨fun hcut => hne hcut.1, hrest⟩, hdepth⟩

/-- Texts without commas and parentheses are parts. -/
theorem areParts_of_forall (h : ∀ part ∈ parts, ∀ c ∈ part, c ∉ [',', '(', ')']) :
    AreParts 0 parts := by
  induction parts with
  | nil => trivial
  | cons part parts ih =>
    obtain ⟨hpart, hparts⟩ := List.forall_mem_cons.mp h
    obtain ⟨hcommas, hclosed⟩ := isPart_of_forall hpart
    cases parts with
    | nil => exact hcommas
    | cons next parts => exact ⟨hcommas, hclosed, ih hparts⟩

/-! ### Leaving characters out -/

/-- The first text is the second less some characters, none of them a parenthesis. -/
inductive Thins : List Char → List Char → Prop
  | nil : Thins [] []
  | keep {c s t} (hrest : Thins t s) : Thins (c :: t) (c :: s)
  | skip {c s t} (hopen : c ≠ '(') (hclose : c ≠ ')') (hrest : Thins t s) : Thins t (c :: s)

namespace Thins

variable {t t' s' : List Char}

theorem refl : (s : List Char) → Thins s s
  | [] => .nil
  | _ :: rest => .keep (refl rest)

theorem append (h : Thins t s) (h' : Thins t' s') : Thins (t ++ t') (s ++ s') := by
  induction h with
  | nil => exact h'
  | keep _ ih => exact .keep ih
  | skip hopen hclose _ ih => exact .skip hopen hclose ih

theorem of_blank (h : ∀ c ∈ s, isBlank c) : Thins [] s := by
  induction s with
  | nil => exact .nil
  | cons c rest ih =>
    obtain ⟨hc, hrest⟩ := List.forall_mem_cons.mp h
    refine .skip ?_ ?_ (ih hrest)
    · rintro rfl
      exact absurd hc (by decide)
    · rintro rfl
      exact absurd hc (by decide)

theorem of_trim (h : Thins t (trim s)) : Thins t s := by
  obtain ⟨before, after, heq, hbefore, hafter⟩ := exists_blanks s
  have hwhole := ((of_blank hbefore).append h).append (of_blank hafter)
  rw [List.nil_append, List.append_nil] at hwhole
  exact heq ▸ hwhole

theorem trim (s : List Char) : Thins (trim s) s :=
  of_trim (refl _)

theorem depthAfter_eq (h : Thins t s) (depth : Nat) : depthAfter depth t = depthAfter depth s := by
  induction h generalizing depth with
  | nil => rfl
  | keep _ ih => exact ih _
  | skip hopen hclose _ ih =>
    rw [ih, depthAfter, depthAfter, List.foldl_cons, depthStep, if_neg hopen, if_neg hclose]

theorem isPart (h : Thins t s) (hs : IsPart depth s) : IsPart depth t := by
  induction h generalizing depth with
  | nil => exact hs
  | keep _ ih => exact ⟨hs.1, ih hs.2⟩
  | skip hopen hclose _ ih =>
    have hrest := hs.2
    rw [depthStep, if_neg hopen, if_neg hclose] at hrest
    exact ih hrest

/-- What parts are thinned to are parts again. -/
theorem areParts {thinned : List (List Char)} (h : List.Forall₂ Thins thinned parts)
    (hparts : AreParts depth parts) : AreParts depth thinned := by
  induction h generalizing depth with
  | nil => trivial
  | cons hhead hrest ih =>
    cases hrest with
    | nil => exact hhead.isPart hparts
    | cons _ _ =>
      obtain ⟨hpart, hclosed, hlater⟩ := hparts
      exact ⟨hhead.isPart hpart, (hhead.depthAfter_eq depth).trans hclosed, ih hlater⟩

end Thins

end WorkloadTuning.LabelSelector
