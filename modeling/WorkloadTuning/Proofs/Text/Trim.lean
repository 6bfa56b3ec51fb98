import Mathlib.Data.List.Infix
import Mathlib.Data.List.TakeWhile
import WorkloadTuning.Text.Blank

/-! Trimming takes blanks away from both ends of a text, and leaves none there. -/

namespace WorkloadTuning.Text

variable {p : Char → Bool} {c : Char} {s : List Char}

theorem dropEndWhile_append_drop (s : List Char) (h : p c) :
    dropEndWhile p (s ++ [c]) = dropEndWhile p s := by
  simp [dropEndWhile, h]

theorem dropEndWhile_append_keep (s : List Char) (h : p c = false) :
    dropEndWhile p (s ++ [c]) = s ++ [c] := by
  simp [dropEndWhile, h]

theorem trim_eq_self (hfirst : ∀ c ∈ s.head?, isBlank c = false)
    (hlast : ∀ c ∈ s.getLast?, isBlank c = false) : trim s = s := by
  have hkeep : ∀ l : List Char, (∀ c ∈ l.head?, isBlank c = false) → l.dropWhile isBlank = l := by
    intro l hl
    cases l with
    | nil => rfl
    | cons c rest => simp [hl c rfl]
  have hend : ∀ c ∈ s.reverse.head?, isBlank c = false := by
    rwa [List.head?_reverse]
  rw [trim, trimStart, hkeep s hfirst, trimEnd, dropEndWhile, hkeep _ hend, List.reverse_reverse]

theorem trim_of_forall (h : ∀ c ∈ s, isBlank c = false) : trim s = s :=
  trim_eq_self (fun c hc => h c (List.mem_of_mem_head? hc)) fun c hc => h c (List.mem_of_getLast? hc)

/-- What is trimmed is blank. -/
theorem exists_blanks (s : List Char) : ∃ before after, s = before ++ trim s ++ after ∧
    (∀ c ∈ before, isBlank c) ∧ ∀ c ∈ after, isBlank c := by
  refine ⟨s.takeWhile isBlank, ((trimStart s).reverse.takeWhile isBlank).reverse, ?_,
    fun c hc => List.mem_takeWhile_imp hc,
    fun c hc => List.mem_takeWhile_imp (List.mem_reverse.mp hc)⟩
  have hend : trim s ++ ((trimStart s).reverse.takeWhile isBlank).reverse = trimStart s := by
    rw [trim, trimEnd, dropEndWhile, ← List.reverse_append, List.takeWhile_append_dropWhile,
      List.reverse_reverse]
  rw [List.append_assoc, hend, trimStart, List.takeWhile_append_dropWhile]

theorem trim_isInfix (s : List Char) : trim s <:+: s := by
  obtain ⟨before, after, heq, -⟩ := exists_blanks s
  exact ⟨before, after, heq.symm⟩

theorem mem_trim (hc : c ∈ s) (h : isBlank c = false) : c ∈ trim s := by
  obtain ⟨before, after, heq, hbefore, hafter⟩ := exists_blanks s
  rw [heq, List.append_assoc, List.mem_append, List.mem_append] at hc
  rcases hc with hc | hc | hc
  · exact absurd (hbefore c hc) (by simp [h])
  · exact hc
  · exact absurd (hafter c hc) (by simp [h])

theorem getLast?_trim (h : c ∈ (trim s).getLast?) : isBlank c = false := by
  rw [trim, trimEnd, dropEndWhile, List.getLast?_reverse] at h
  have hhead := List.head?_dropWhile_not isBlank (trimStart s).reverse
  rw [Option.mem_def.mp h] at hhead
  simpa using hhead

theorem head?_trim (h : c ∈ (trim s).head?) : isBlank c = false := by
  have hprefix : trim s <+: trimStart s := by
    rw [trim, trimEnd, dropEndWhile, ← List.reverse_suffix, List.reverse_reverse]
    exact List.dropWhile_suffix _
  obtain ⟨after, heq⟩ := hprefix
  have hhead := List.head?_dropWhile_not isBlank s
  have hfirst : (trimStart s).head? = some c := by
    rw [← heq, List.head?_append, Option.mem_def.mp h]
    rfl
  rw [trimStart] at hfirst
  rw [hfirst] at hhead
  simpa using hhead

theorem trim_trim (s : List Char) : trim (trim s) = trim s :=
  trim_eq_self (fun _ => head?_trim) fun _ => getLast?_trim

end WorkloadTuning.Text
