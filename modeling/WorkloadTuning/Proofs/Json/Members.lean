import Mathlib.Data.List.Nodup
import WorkloadTuning.Json.Merge
import WorkloadTuning.Proofs.Dict

/-! Members of objects under setting and erasing: what is found under a key, and which members can
be there at all. -/

namespace WorkloadTuning.Members

variable {ms : Members} {key other : String} {value : Json}

theorem set_cons (key : String) (value : Json) (m : String × Json) (rest : Members) :
    set key value (m :: rest) =
      if m.1 = key then (m.1, value) :: rest else m :: set key value rest :=
  rfl

theorem erase_cons (key : String) (m : String × Json) (rest : Members) :
    erase key (m :: rest) =
      if m.1 = key then
        match rest.getLast? with
        | none => []
        | some last => last :: rest.dropLast
      else m :: erase key rest :=
  rfl

theorem mem_of_get? (h : ms.get? key = some value) : (key, value) ∈ ms :=
  Dict.mem_of_lookup h

theorem mem_set {e : String × Json} (h : e ∈ set key value ms) : e = (key, value) ∨ e ∈ ms := by
  induction ms with
  | nil => exact .inl (List.mem_singleton.mp h)
  | cons m rest ih =>
    rw [set_cons] at h
    split at h
    · next heq =>
      rcases List.mem_cons.mp h with rfl | h
      · exact .inl (by rw [← heq])
      · exact .inr (List.mem_cons_of_mem _ h)
    · rcases List.mem_cons.mp h with rfl | h
      · exact .inr List.mem_cons_self
      · exact (ih h).imp id (List.mem_cons_of_mem _)

theorem mem_of_mem_erase {e : String × Json} (h : e ∈ erase key ms) : e ∈ ms := by
  induction ms with
  | nil => cases h
  | cons m rest ih =>
    rw [erase_cons] at h
    split at h
    · split at h
      · simp at h
      · next last hlast =>
        rcases List.mem_cons.mp h with rfl | h
        · exact List.mem_cons_of_mem _ (List.mem_of_getLast? hlast)
        · exact List.mem_cons_of_mem _ (List.dropLast_subset rest h)
    · rcases List.mem_cons.mp h with rfl | h
      · exact List.mem_cons_self
      · exact List.mem_cons_of_mem _ (ih h)

theorem get?_cons (k : String) (v : Json) (rest : Members) (key : String) :
    Members.get? ((k, v) :: rest) key = if key = k then some v else rest.get? key :=
  Dict.lookup_cons_ite k v rest key

theorem get?_set_self (key : String) (value : Json) (ms : Members) :
    (set key value ms).get? key = some value := by
  induction ms with
  | nil => exact (get?_cons key value [] key).trans (if_pos rfl)
  | cons m rest ih =>
    rw [set_cons]
    split
    · next heq => rw [get?_cons, if_pos heq.symm]
    · next hne =>
      rw [get?_cons, if_neg (Ne.symm hne)]
      exact ih

theorem get?_set_ne (value : Json) (ms : Members) (h : other ≠ key) :
    (set key value ms).get? other = ms.get? other := by
  induction ms with
  | nil => exact (get?_cons key value [] other).trans (if_neg h)
  | cons m rest ih =>
    obtain ⟨k, v⟩ := m
    rw [set_cons]
    split
    · next heq =>
      obtain rfl : k = key := heq
      rw [get?_cons, get?_cons, if_neg h, if_neg h]
    · rw [get?_cons, get?_cons, ih]

theorem set_of_get? (h : ms.get? key = some value) : set key value ms = ms := by
  induction ms with
  | nil => cases h
  | cons m rest ih =>
    obtain ⟨k, v⟩ := m
    rw [get?_cons] at h
    rw [set_cons]
    by_cases hkey : k = key
    · rw [if_pos hkey.symm] at h
      rw [if_pos hkey, hkey, Option.some.inj h]
    · rw [if_neg (Ne.symm hkey)] at h
      rw [if_neg hkey, ih h]

end WorkloadTuning.Members

/-! ### One step of a merge -/

namespace WorkloadTuning.Json

theorem updateNamed_nil (name : Option String) (f : Json → Json) (fresh : Json) :
    updateNamed name f fresh [] = [fresh] :=
  rfl

theorem updateNamed_cons (name : Option String) (f : Json → Json) (fresh item : Json)
    (rest : List Json) :
    updateNamed name f fresh (item :: rest) =
      if item.name? = name then f item :: rest else item :: updateNamed name f fresh rest :=
  rfl

theorem mergeMembers_cons_ite (ms rest : Members) (key : String) (value : Json) :
    mergeMembers ms ((key, value) :: rest) =
      mergeMembers (if value.isNull then ms.erase key
        else ms.set key (((ms.get? key).getD null).merge value)) rest :=
  rfl

theorem mergeItems_nil (existing : List Json) : mergeItems existing [] = existing :=
  rfl

theorem mergeItems_cons (existing rest : List Json) (item : Json) :
    mergeItems existing (item :: rest) =
      mergeItems (updateNamed item.name? (fun found => found.merge item) item existing) rest :=
  rfl

end WorkloadTuning.Json
