import WorkloadTuning.Json.Pointer
import WorkloadTuning.Proofs.Json.Members
import WorkloadTuning.Proofs.Text.Digits

/-! Pointers into documents: an index is read from its decimal text, and a value that was set is
found where it was put. -/

namespace WorkloadTuning

theorem Pointer.index?_toString {i : Nat} (h : i < 2 ^ 64) : index? (toString i) = some i := by
  have hdigits : (toString i).toList = Nat.toDigits 10 i := by
    rw [Nat.toString_eq_ofList_toDigits, String.toList_ofList]
  rw [index?, hdigits]
  rcases Nat.eq_zero_or_pos i with rfl | hpos
  · rfl
  · have hhead := Text.head?_toDigits_ne_zero hpos
    have hread := Text.readNat?_toDigits i
    split
    · next hnil => exact absurd hnil Nat.toDigits_ne_nil
    · next hzero => exact absurd (by rw [hzero]; rfl) hhead
    · next rest _ hzero => exact absurd (by rw [hzero]; rfl) hhead
    · rw [hread, Option.filter_some, if_pos (by simpa using h)]

namespace Json

section Pointers
variable {json child new : Json} {token : String}

theorem child?_setChild (h : json.child? token = some child) :
    (json.setChild token new).child? token = some new := by
  cases json with
  | object ms => exact Members.get?_set_self token new ms
  | array items =>
    obtain ⟨i, hi, hchild⟩ := Option.bind_eq_some_iff.mp h
    obtain ⟨hlt, -⟩ := List.getElem?_eq_some_iff.mp hchild
    simp only [setChild, child?, hi, Option.bind_some]
    exact List.getElem?_set_self hlt
  | _ => cases h

/-- A changed document has the new value where the old one was. -/
theorem resolve?_modifyAt? {f : Json → Option Json} {tokens : List String} {changed : Json}
    (h : json.modifyAt? f tokens = some changed) :
    ∃ old value, json.resolve? tokens = some old ∧ f old = some value ∧
      changed.resolve? tokens = some value := by
  induction tokens generalizing json changed with
  | nil => exact ⟨json, changed, rfl, h, rfl⟩
  | cons token rest ih =>
    obtain ⟨child, hchild, h⟩ := Option.bind_eq_some_iff.mp h
    obtain ⟨below, hbelow, h⟩ := Option.bind_eq_some_iff.mp h
    obtain rfl := Option.some.inj h
    obtain ⟨old, value, hold, hvalue, hnew⟩ := ih hbelow
    refine ⟨old, value, ?_, hvalue, ?_⟩
    · rw [resolve?, hchild]
      exact hold
    · rw [resolve?, child?_setChild hchild]
      exact hnew

variable {before : List Json} (h : before.length < 2 ^ 64) (child new : Json) (after : List Json)
include h

theorem child?_append :
    (array (before ++ child :: after)).child? (toString before.length) = some child := by
  rw [child?, Pointer.index?_toString h, Option.bind_some]
  simp

theorem setChild_append :
    (array (before ++ child :: after)).setChild (toString before.length) new =
      array (before ++ new :: after) := by
  rw [setChild, Pointer.index?_toString h]
  simp

end Pointers

end Json

end WorkloadTuning
