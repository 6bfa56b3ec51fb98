import Mathlib.Data.List.Nodup

/-! Lists: removing repetitions, and replacing one element. -/

namespace WorkloadTuning

variable {α β : Type}

theorem nodup_eraseDups [DecidableEq α] : (l : List α) → l.eraseDups.Nodup
  | [] => by simp
  | a :: rest => by
    have hnot : a ∉ (rest.filter fun b => !b == a).eraseDups := by
      simp [List.mem_eraseDups]
    rw [List.eraseDups_cons]
    exact (nodup_eraseDups (rest.filter fun b => !b == a)).cons hnot
termination_by l => l.length
decreasing_by
  have hle := List.length_filter_le (fun b => !b == a) rest
  simp only [List.length_cons]
  omega

theorem eraseDups_of_nodup [DecidableEq α] {l : List α} (h : l.Nodup) : l.eraseDups = l := by
  induction l with
  | nil => rfl
  | cons a rest ih =>
    obtain ⟨hnew, hrest⟩ := List.nodup_cons.mp h
    have hkept : (rest.filter fun b => !b == a) = rest :=
      List.filter_eq_self.mpr fun b hb => by simpa using fun heq : b = a => hnew (heq ▸ hb)
    rw [List.eraseDups_cons, hkept, ih hrest]

theorem exists_set {l : List α} {n : Nat} {a : α} (h : l[n]? = some a) :
    ∃ before after, l = before ++ a :: after ∧ ∀ b, l.set n b = before ++ b :: after := by
  obtain ⟨hn, ha⟩ := List.getElem?_eq_some_iff.mp h
  refine ⟨l.take n, l.drop (n + 1), ?_, fun b => List.set_eq_take_append_cons_drop.trans (if_pos hn)⟩
  rw [← ha, ← List.drop_eq_getElem_cons hn, List.take_append_drop]

theorem map_set_of_eq {f : α → β} {l : List α} {n : Nat} {a b : α} (h : l[n]? = some a)
    (hf : f b = f a) : (l.set n b).map f = l.map f := by
  obtain ⟨before, after, hl, hset⟩ := exists_set h
  rw [hset, hl, List.map_append, List.map_append, List.map_cons, List.map_cons, hf]

end WorkloadTuning
