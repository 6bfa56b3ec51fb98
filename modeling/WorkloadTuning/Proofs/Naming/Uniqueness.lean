import Mathlib.Data.List.Perm.Subperm
import Mathlib.Order.Bounds.Basic
import Mathlib.Data.Set.Function
import WorkloadTuning.Generation.Namer
import WorkloadTuning.Proofs.Lists

/-! Parameter names are unique. The stages before the counter only render texts, so nothing is
asked of them but one name per key. The counter keeps a list of taken names: it starts with the
names that occur once, and each name that is given out is added to it. -/

namespace WorkloadTuning

namespace NameKey

/-- Keys that are in order and not repeated are sorted. -/
theorem sorted_of_pairwise {keys : List NameKey} (hnodup : keys.Nodup)
    (hordered : keys.Pairwise fun a b => (a.order b).isLE) : sorted keys = keys := by
  rw [sorted, eraseDups_of_nodup hnodup]
  exact List.mergeSort_of_pairwise hordered

theorem mem_sorted {keys : List NameKey} {key : NameKey} : key ∈ sorted keys ↔ key ∈ keys := by
  simp [sorted, List.mem_eraseDups]

end NameKey

namespace Namer

/-! ### The counter -/

theorem numbered_inj {name : String} {m n : Nat} : numbered name m = numbered name n ↔ m = n := by
  constructor
  · intro h
    have hdigits : Nat.toDigits 10 m = Nat.toDigits 10 n := by
      simpa [numbered, ← String.toList_inj, Nat.toString_eq_ofList_toDigits] using h
    have hvalue := congrArg (Nat.ofDigitChars 10 · 0) hdigits
    simpa only [Nat.ofDigitChars_ten_toDigits] using hvalue
  · rintro rfl
    rfl

/-- Every number that the search passes over is taken. -/
theorem taken_of_lt_freeNumber (taken : List String) (name : String) (tries n m : Nat)
    (hn : n ≤ m) (hm : m < freeNumber taken name tries n) : numbered name m ∈ taken := by
  induction tries generalizing n with
  | zero =>
    unfold freeNumber at hm
    omega
  | succ tries ih =>
    unfold freeNumber at hm
    split at hm
    · next h =>
      by_cases hnm : n = m
      · subst hnm
        exact List.contains_iff_mem.mp h
      · exact ih (n + 1) (by omega) hm
    · omega

/-- The search stops at a free number, or it has used up its tries. -/
theorem freeNumber_free_or_last (taken : List String) (name : String) (tries n : Nat) :
    numbered name (freeNumber taken name tries n) ∉ taken ∨
      freeNumber taken name tries n = n + tries := by
  induction tries generalizing n with
  | zero => exact .inr rfl
  | succ tries ih =>
    unfold freeNumber
    split
    · rcases ih (n + 1) with h | h
      · exact .inl h
      · exact .inr (by omega)
    · next h => exact .inl fun hmem => h (List.contains_iff_mem.mpr hmem)

theorem le_freeNumber (taken : List String) (name : String) (tries n : Nat) :
    n ≤ freeNumber taken name tries n := by
  induction tries generalizing n with
  | zero => exact Nat.le_refl n
  | succ tries ih =>
    unfold freeNumber
    split
    · exact Nat.le_of_succ_le (ih (n + 1))
    · exact Nat.le_refl n

/-- Distinct numbers give distinct names, so the taken names cannot use up one more number than
there are names. -/
theorem freeNumber_notMem (taken : List String) (name : String) :
    numbered name (freeNumber taken name taken.length 1) ∉ taken := by
  rcases freeNumber_free_or_last taken name taken.length 1 with h | hlast
  · exact h
  intro hmem
  have hsub : (List.range' 1 (taken.length + 1)).map (numbered name) ⊆ taken := by
    intro text ht
    obtain ⟨m, hm, rfl⟩ := List.mem_map.mp ht
    obtain ⟨hlo, hhi⟩ := List.mem_range'_1.mp hm
    by_cases hend : m = 1 + taken.length
    · rw [hend, ← hlast]
      exact hmem
    · exact taken_of_lt_freeNumber taken name taken.length 1 m hlo (by omega)
  have hnodup : ((List.range' 1 (taken.length + 1)).map (numbered name)).Nodup :=
    List.Nodup.map (fun _ _ h => numbered_inj.mp h) List.nodup_range'
  have hle := (List.subperm_of_subset hnodup hsub).length_le
  simp only [List.length_map, List.length_range'] at hle
  omega

/-- The first free number is the least one, so a search without a bound stops there too. -/
theorem freeNumber_isLeast (taken : List String) (name : String) :
    IsLeast {n | 1 ≤ n ∧ numbered name n ∉ taken} (freeNumber taken name taken.length 1) := by
  refine ⟨⟨le_freeNumber taken name taken.length 1, freeNumber_notMem taken name⟩, ?_⟩
  rintro m ⟨hm, hfree⟩
  by_contra hlt
  exact hfree (taken_of_lt_freeNumber taken name taken.length 1 m hm (by omega))

/-! ### Numbering all names -/

theorem uniqueFrom_keys (duplicated taken : List String) (entries : List (NameKey × String)) :
    (uniqueFrom duplicated taken entries).map Prod.fst = entries.map Prod.fst := by
  induction entries generalizing taken with
  | nil => rfl
  | cons entry rest ih => simp [uniqueFrom, ih]

theorem makeUnique_keys (entries : List (NameKey × String)) :
    (makeUnique entries).map Prod.fst = entries.map Prod.fst :=
  uniqueFrom_keys _ _ entries

/-- A name that is given out is new, or it is a name that was nobody else's from the start. -/
theorem uniqueFrom_fresh_or_single (duplicated taken : List String)
    (entries : List (NameKey × String)) (name : String)
    (hname : name ∈ (uniqueFrom duplicated taken entries).map Prod.snd) :
    name ∉ taken ∨ name ∉ duplicated ∧ name ∈ entries.map Prod.snd := by
  induction entries generalizing taken with
  | nil => simp [uniqueFrom] at hname
  | cons entry rest ih =>
    simp only [uniqueFrom, List.map_cons, List.mem_cons] at hname
    rcases hname with hfirst | hlater
    · split at hfirst
      · left
        rw [hfirst]
        exact freeNumber_notMem taken entry.2
      · next h =>
        right
        subst hfirst
        exact ⟨fun hmem => h (List.contains_iff_mem.mpr hmem), by simp⟩
    · rcases ih _ hlater with hnew | ⟨hsingle, hmem⟩
      · exact .inl fun htaken => hnew (List.mem_cons_of_mem _ htaken)
      · exact .inr ⟨hsingle, by simp [hmem]⟩

/-- The invariant of the pass: the names that are kept as they are differ from each other and are
taken. -/
theorem uniqueFrom_nodup (duplicated taken : List String) (entries : List (NameKey × String))
    (htaken : ∀ name ∈ entries.map Prod.snd, name ∉ duplicated → name ∈ taken)
    (hsingle : ((entries.map Prod.snd).filter fun name => !duplicated.contains name).Nodup) :
    ((uniqueFrom duplicated taken entries).map Prod.snd).Nodup := by
  induction entries generalizing taken with
  | nil => simp [uniqueFrom]
  | cons entry rest ih =>
    have hrest : ∀ name ∈ rest.map Prod.snd, name ∉ duplicated → name ∈ taken := by
      intro name hname
      exact htaken name (by simp [hname])
    simp only [List.map_cons, List.filter_cons] at hsingle
    simp only [uniqueFrom, List.map_cons, List.nodup_cons]
    by_cases hdup : duplicated.contains entry.2 = true
    · simp only [hdup, Bool.not_true, Bool.false_eq_true, if_false] at hsingle
      rw [if_pos hdup]
      constructor
      · intro hagain
        -- A later use would have to be a name that is kept, and those are all taken.
        rcases uniqueFrom_fresh_or_single _ _ _ _ hagain with hnew | ⟨hkept, hmem⟩
        · exact hnew List.mem_cons_self
        · exact freeNumber_notMem taken entry.2 (hrest _ hmem hkept)
      · refine ih _ ?_ hsingle
        intro name hname hnd
        exact List.mem_cons_of_mem _ (hrest name hname hnd)
    · simp only [hdup, Bool.not_false, if_true, List.nodup_cons] at hsingle
      rw [if_neg hdup]
      constructor
      · intro hagain
        rcases uniqueFrom_fresh_or_single _ _ _ _ hagain with hnew | ⟨_, hmem⟩
        · exact hnew List.mem_cons_self
        · exact hsingle.1 (List.mem_filter.mpr ⟨hmem, by simpa using hdup⟩)
      · refine ih _ ?_ hsingle.2
        intro name hname hnd
        exact List.mem_cons_of_mem _ (hrest name hname hnd)

theorem occurrences_eq_count (entries : List (NameKey × String)) (name : String) :
    occurrences entries name = (entries.map Prod.snd).count name := by
  simp [occurrences, List.count, List.countP_map, Function.comp_def]

theorem makeUnique_names_nodup (entries : List (NameKey × String)) :
    ((makeUnique entries).map Prod.snd).Nodup := by
  have hkept : ∀ name ∈ entries.map Prod.snd,
      name ∉ ((entries.map Prod.snd).filter fun name => 1 < occurrences entries name) →
        occurrences entries name = 1 := by
    intro name hname hnot
    have hpos := List.count_pos_iff.mpr hname
    rw [← occurrences_eq_count] at hpos
    have hle : ¬ 1 < occurrences entries name := by
      intro hlt
      exact hnot (List.mem_filter.mpr ⟨hname, by simpa using hlt⟩)
    omega
  apply uniqueFrom_nodup
  · intro name hname hnot
    exact List.mem_filter.mpr ⟨hname, by simpa using hkept name hname hnot⟩
  · rw [List.nodup_iff_count_le_one]
    intro name
    by_cases hname : name ∈ (entries.map Prod.snd).filter fun name =>
        !((entries.map Prod.snd).filter fun name => 1 < occurrences entries name).contains name
    · obtain ⟨hmem, hnot⟩ := List.mem_filter.mp hname
      have hone := hkept name hmem (by simpa using hnot)
      rw [occurrences_eq_count] at hone
      exact hone ▸ List.filter_sublist.count_le name
    · rw [List.count_eq_zero.mpr hname]
      exact Nat.zero_le 1

/-! ### The table of all names -/

theorem ofKeys_keys (keys : List NameKey) :
    (ofKeys keys).entries.map Prod.fst = NameKey.sorted keys := by
  simp only [ofKeys, makeUnique_keys]
  split <;> simp [renderNames, Function.comp_def]

theorem ofKeys_names_nodup (keys : List NameKey) :
    ((ofKeys keys).entries.map Prod.snd).Nodup :=
  makeUnique_names_nodup _

/-- Every key has an entry, so the suffix alone never serves as the name of a key. -/
theorem exists_lookup {keys : List NameKey} {key : NameKey} (hkey : key ∈ keys) :
    ∃ name, (ofKeys keys).entries.lookup key = some name := by
  rw [← Option.isSome_iff_exists, List.lookup_isSome_iff]
  rw [← NameKey.mem_sorted, ← ofKeys_keys] at hkey
  obtain ⟨entry, hmem, rfl⟩ := List.mem_map.mp hkey
  exact ⟨entry, hmem, by simp⟩

theorem entry_mem {keys : List NameKey} {key : NameKey} (hkey : key ∈ keys) :
    (key, (ofKeys keys).name key.target key.path key.suffix) ∈ (ofKeys keys).entries := by
  obtain ⟨name, hlookup⟩ := exists_lookup hkey
  have hname : (ofKeys keys).name key.target key.path key.suffix = name := by
    show ((ofKeys keys).entries.lookup key).getD key.suffix = name
    rw [hlookup]
    rfl
  obtain ⟨before, after, heq, -⟩ := List.lookup_eq_some_iff.mp hlookup
  rw [hname, heq]
  simp

theorem name_inj {keys : List NameKey} {k l : NameKey} (hk : k ∈ keys) (hl : l ∈ keys)
    (h : (ofKeys keys).name k.target k.path k.suffix =
      (ofKeys keys).name l.target l.path l.suffix) : k = l := by
  have hentry := List.inj_on_of_nodup_map (ofKeys_names_nodup keys) (entry_mem hk) (entry_mem hl) h
  exact congrArg Prod.fst hentry

/-- The table covers its keys, tells them all apart, and each search for a free number ends. -/
theorem ofKeys_unique (keys : List NameKey) :
    (∀ key ∈ keys, ((ofKeys keys).entries.lookup key).isSome) ∧
      Set.InjOn (fun key => (ofKeys keys).name key.target key.path key.suffix)
        {key | key ∈ keys} ∧
      ∀ taken name, IsLeast {n | 1 ≤ n ∧ numbered name n ∉ taken}
        (freeNumber taken name taken.length 1) := by
  refine ⟨fun key hkey => ?_, fun k hk l hl h => name_inj hk hl h, freeNumber_isLeast⟩
  exact Option.isSome_iff_exists.mpr (exists_lookup hkey)

end Namer

end WorkloadTuning
