import Mathlib.Data.List.Nodup
import WorkloadTuning.Dict

/-! What a map holds after an insertion, and after the insertions of a whole list. -/

namespace WorkloadTuning.Dict

variable {β : Type}

theorem lookup_cons_ite (k : String) (v : β) (rest : List (String × β)) (other : String) :
    List.lookup other ((k, v) :: rest) = if other = k then some v else rest.lookup other := by
  rw [List.lookup_cons]
  by_cases h : other = k
  · simp [h]
  · simp [h, beq_eq_false_iff_ne.mpr h]

theorem lookup_insertEntry (key other : String) (value : β) (l : List (String × β)) :
    (insertEntry key value l).lookup other = if other = key then some value else l.lookup other := by
  induction l with
  | nil => rw [insertEntry, lookup_cons_ite]
  | cons e rest ih =>
    obtain ⟨k, v⟩ := e
    unfold insertEntry
    split
    · rw [lookup_cons_ite]
    · split
      · next heq =>
        rw [lookup_cons_ite, lookup_cons_ite, ← heq]
        split <;> rfl
      · next hne =>
        rw [lookup_cons_ite, lookup_cons_ite, ih]
        by_cases hother : other = k
        · rw [if_pos hother, if_neg (by rw [hother]; exact Ne.symm hne), if_pos hother]
        · rw [if_neg hother, if_neg hother]

theorem get?_insert (d : Dict β) (key other : String) (value : β) :
    (d.insert key value).get? other = if other = key then some value else d.get? other :=
  lookup_insertEntry key other value d.entries

theorem get?_erase_self (d : Dict β) (key : String) : (d.erase key).get? key = none := by
  rw [get?, erase, List.lookup_eq_none_iff]
  intro e he
  rw [bne_comm]
  exact (List.mem_filter.mp he).2

theorem lookup_filter_ne {key other : String} (h : other ≠ key) (l : List (String × β)) :
    (l.filter fun e => e.1 != key).lookup other = l.lookup other := by
  induction l with
  | nil => rfl
  | cons e rest ih =>
    obtain ⟨k, v⟩ := e
    by_cases hk : k = key
    · rw [List.filter_cons_of_neg (by simpa using hk), ih, lookup_cons_ite, if_neg (by rwa [hk])]
    · rw [List.filter_cons_of_pos (by simpa using hk), lookup_cons_ite, lookup_cons_ite, ih]

theorem get?_erase (d : Dict β) (key other : String) :
    (d.erase key).get? other = if other = key then none else d.get? other := by
  split
  · next heq => rw [heq, get?_erase_self]
  · next hne => exact lookup_filter_ne hne d.entries

/-- What a name is given last is what it has. -/
theorem get?_foldl_insert (l : List (String × β)) (d : Dict β) (key : String) :
    (l.foldl (fun d e => d.insert e.1 e.2) d).get? key = (l.reverse.lookup key).or (d.get? key) := by
  induction l generalizing d with
  | nil => simp
  | cons e rest ih =>
    obtain ⟨k, v⟩ := e
    rw [List.foldl_cons, ih, get?_insert, List.reverse_cons, List.lookup_append,
      lookup_cons_ite]
    by_cases h : key = k
    · simp [h]
    · simp [h]

theorem get?_insertIfNew (d : Dict β) (key other : String) (value : β) :
    (d.insertIfNew key value).get? other =
      (d.get? other).or (if other = key then some value else none) := by
  unfold insertIfNew contains
  split
  · next hgiven =>
    obtain ⟨found, hfound⟩ := Option.isSome_iff_exists.mp hgiven
    by_cases h : other = key
    · rw [h, hfound, Option.some_or]
    · rw [if_neg h, Option.or_none]
  · next hnew =>
    rw [get?_insert]
    by_cases h : other = key
    · rw [if_pos h, if_pos h, h, Option.not_isSome_iff_eq_none.mp hnew, Option.none_or]
    · rw [if_neg h, if_neg h, Option.or_none]

/-- Where only what is new is put in, what is there stays. -/
theorem get?_foldl_insertIfNew (l : List (String × β)) (d : Dict β) (key : String) :
    (l.foldl (fun d e => d.insertIfNew e.1 e.2) d).get? key = (d.get? key).or (l.lookup key) := by
  induction l generalizing d with
  | nil => simp
  | cons e rest ih =>
    obtain ⟨k, v⟩ := e
    rw [List.foldl_cons, ih, get?_insertIfNew, lookup_cons_ite, Option.or_assoc]
    by_cases h : key = k
    · rw [if_pos h, if_pos h, Option.some_or]
    · rw [if_neg h, if_neg h, Option.none_or]

theorem foldl_insertIfNew_of_contains {l : List (String × β)} {d : Dict β}
    (h : ∀ e ∈ l, d.contains e.1) : l.foldl (fun d e => d.insertIfNew e.1 e.2) d = d := by
  induction l with
  | nil => rfl
  | cons e rest ih =>
    rw [List.foldl_cons, insertIfNew, if_pos (h e List.mem_cons_self)]
    exact ih fun e he => h e (List.mem_cons_of_mem _ he)

theorem contains_foldl_insertIfNew (l : List (String × β)) (d : Dict β) :
    ∀ e ∈ l, (l.foldl (fun d e => d.insertIfNew e.1 e.2) d).contains e.1 := by
  intro e he
  have hsome : (l.lookup e.1).isSome := List.lookup_isSome_iff.mpr ⟨e, he, by simp⟩
  rw [contains, get?_foldl_insertIfNew, Option.isSome_or, hsome, Bool.or_true]

theorem get?_ofList (l : List (String × β)) (key : String) :
    (ofList l).get? key = l.reverse.lookup key := by
  have hempty : (empty : Dict β).get? key = none := rfl
  rw [ofList, get?_foldl_insert, hempty, Option.or_none]

theorem mem_of_lookup {α γ : Type} [DecidableEq α] {l : List (α × γ)} {key : α} {value : γ}
    (h : l.lookup key = some value) : (key, value) ∈ l := by
  obtain ⟨before, after, heq, -⟩ := List.lookup_eq_some_iff.mp h
  rw [heq]
  simp

/-- Without repeated keys, a lookup finds each entry. -/
theorem lookup_of_mem {α γ : Type} [DecidableEq α] {l : List (α × γ)} {key : α} {value : γ}
    (hnodup : (l.map Prod.fst).Nodup) (h : (key, value) ∈ l) : l.lookup key = some value := by
  have hsome : (l.lookup key).isSome := List.lookup_isSome_iff.mpr ⟨_, h, by simp⟩
  obtain ⟨found, hfound⟩ := Option.isSome_iff_exists.mp hsome
  have hsame := List.inj_on_of_nodup_map hnodup h (mem_of_lookup hfound) rfl
  rw [hfound, (Prod.mk.inj hsame).2]

/-- Without repeated keys, a map made of a list holds just the entries of that list. -/
theorem get?_ofList_eq_some {l : List (String × β)} (hnodup : (l.map Prod.fst).Nodup) {key : String}
    {value : β} : (ofList l).get? key = some value ↔ (key, value) ∈ l := by
  have hreverse : (l.reverse.map Prod.fst).Nodup := by
    rw [List.map_reverse]
    exact List.nodup_reverse.mpr hnodup
  rw [get?_ofList]
  constructor
  · intro h
    exact List.mem_reverse.mp (mem_of_lookup h)
  · intro h
    exact lookup_of_mem hreverse (List.mem_reverse.mpr h)

/-- Entries in order are put one behind the other. -/
theorem insertEntry_last {key : String} {value : β} {l : List (String × β)}
    (h : ∀ e ∈ l, e.1 < key) : insertEntry key value l = l ++ [(key, value)] := by
  induction l with
  | nil => rfl
  | cons e rest ih =>
    have hfirst : e.1 < key := h e List.mem_cons_self
    have hne : key ≠ e.1 := fun heq => String.lt_irrefl _ (heq ▸ hfirst)
    rw [insertEntry, if_neg (String.lt_asymm hfirst), if_neg hne,
      ih fun e he => h e (List.mem_cons_of_mem _ he)]
    rfl

theorem foldl_insert_entries {l : List (String × β)} {d : Dict β}
    (h : (d.entries ++ l).Pairwise fun a b => a.1 < b.1) :
    (l.foldl (fun d e => d.insert e.1 e.2) d).entries = d.entries ++ l := by
  induction l generalizing d with
  | nil => exact (List.append_nil _).symm
  | cons e rest ih =>
    have hlast : (d.insert e.1 e.2).entries = d.entries ++ [e] :=
      insertEntry_last fun a ha => (List.pairwise_append.mp h).2.2 a ha e List.mem_cons_self
    rw [List.foldl_cons, ih, hlast, List.append_assoc]
    · rfl
    · rw [hlast, List.append_assoc]
      exact h

theorem eq_of_entries {d e : Dict β} (h : d.entries = e.entries) : d = e := by
  cases d
  cases e
  cases h
  rfl

/-- A map is made from its own entries. -/
theorem ofList_entries (d : Dict β) : ofList d.entries = d :=
  eq_of_entries (foldl_insert_entries (d := empty) d.ordered)

theorem keys_nodup (d : Dict β) : (d.entries.map Prod.fst).Nodup := by
  rw [List.Nodup, List.pairwise_map]
  refine d.ordered.imp ?_
  rintro a b hlt heq
  exact String.lt_irrefl _ (heq ▸ hlt)

theorem get?_eq_some_iff {d : Dict β} {key : String} {value : β} :
    d.get? key = some value ↔ (key, value) ∈ d.entries :=
  ⟨mem_of_lookup, lookup_of_mem d.keys_nodup⟩

end WorkloadTuning.Dict
