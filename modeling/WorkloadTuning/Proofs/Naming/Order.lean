import Mathlib.Data.List.Perm.Basic
import WorkloadTuning.Proofs.Naming.Uniqueness
import WorkloadTuning.Template

/-! The order of keys is linear: it tells keys apart, and it is transitive. So the sorted keys are
told by which keys there are, and names are given alike however the keys are listed. Sets of names
are sorted in the order of texts. -/

namespace WorkloadTuning

open Std (TransCmp LawfulEqCmp OrientedCmp)

/-- Values that are compared by what they are mapped to. -/
theorem transCmp_comap {α β : Type} (cmp : β → β → Ordering) [TransCmp cmp] (f : α → β) :
    TransCmp fun a b => cmp (f a) (f b) where
  eq_swap {a b} := show cmp (f a) (f b) = (cmp (f b) (f a)).swap from OrientedCmp.eq_swap
  isLE_trans {a b c} := @TransCmp.isLE_trans _ cmp _ (f a) (f b) (f c)

/-! ### Paths -/

namespace Segment

/-- What steps of one rank are compared by, in this order. -/
def texts : Segment → String × String
  | field name => (name, "")
  | element key value => (key, value)
  | wildcard => ("", "")

theorem order_eq_compareLex : order = compareLex (compareOn rank)
    (compareLex (compareOn fun s => s.texts.1) (compareOn fun s => s.texts.2)) := by
  funext a b
  have hranks : compare 0 1 = .lt ∧ compare 0 2 = .lt ∧ compare 1 2 = .lt ∧ compare 1 0 = .gt ∧
      compare 2 0 = .gt ∧ compare 2 1 = .gt := by decide
  cases a <;> cases b <;> simp [order, compareLex, compareOn, rank, texts, hranks]

instance : TransCmp order := by
  rw [order_eq_compareLex]
  infer_instance

instance : LawfulEqCmp order where
  compare_self {a} := by cases a <;> simp [order]
  eq_of_compare {a b} h := by
    cases a <;> cases b <;> simp_all [order, rank]

end Segment

namespace FieldPath

theorem orderSegments_eq_compareLex (as bs : List Segment) :
    orderSegments as bs = List.compareLex Segment.order as bs := by
  induction as generalizing bs with
  | nil => cases bs <;> rfl
  | cons a as ih =>
    cases bs with
    | nil => rfl
    | cons b bs => rw [orderSegments, List.compareLex_cons_cons, ih]

instance : TransCmp order := by
  have hsegments : TransCmp fun a b : FieldPath => orderSegments a.segments b.segments := by
    simp only [orderSegments_eq_compareLex]
    exact transCmp_comap (List.compareLex Segment.order) segments
  exact inferInstanceAs (TransCmp (compareLex (compareOn fun p : FieldPath => p.segments.length)
    fun a b => orderSegments a.segments b.segments))

theorem eq_of_order {a b : FieldPath} (h : a.order b = .eq) : a = b := by
  obtain ⟨-, h⟩ := Ordering.then_eq_eq.mp h
  rw [orderSegments_eq_compareLex] at h
  exact congrArg FieldPath.mk (LawfulEqCmp.eq_of_compare h)

end FieldPath

/-! ### Keys -/

namespace ObjectReference

instance : TransCmp order :=
  inferInstanceAs (TransCmp (compareLex (compareOn apiVersion) (compareLex (compareOn kind)
    (compareLex (compareOn namespaceName) (compareOn name)))))

theorem eq_of_order {a b : ObjectReference} (h : a.order b = .eq) : a = b := by
  obtain ⟨hversion, h⟩ := Ordering.then_eq_eq.mp h
  obtain ⟨hkind, h⟩ := Ordering.then_eq_eq.mp h
  obtain ⟨hnamespace, hname⟩ := Ordering.then_eq_eq.mp h
  cases a
  cases b
  simp_all

end ObjectReference

namespace NameKey

instance : TransCmp order :=
  have := transCmp_comap ObjectReference.order target
  have := transCmp_comap FieldPath.order path
  inferInstanceAs (TransCmp (compareLex (fun a b => a.target.order b.target)
    (compareLex (fun a b => a.path.order b.path) (compareOn suffix))))

theorem eq_of_order {a b : NameKey} (h : a.order b = .eq) : a = b := by
  obtain ⟨htarget, h⟩ := Ordering.then_eq_eq.mp h
  obtain ⟨hpath, hsuffix⟩ := Ordering.then_eq_eq.mp h
  have htargets := ObjectReference.eq_of_order htarget
  have hpaths := FieldPath.eq_of_order hpath
  have hsuffixes := LawfulEqCmp.eq_of_compare hsuffix
  cases a
  cases b
  simp_all

theorem pairwise_sorted (keys : List NameKey) :
    (sorted keys).Pairwise fun a b => (a.order b).isLE := by
  refine List.pairwise_mergeSort (fun a b c => TransCmp.isLE_trans) (fun a b => ?_) _
  have hswap : b.order a = (a.order b).swap := OrientedCmp.eq_swap
  rw [Bool.or_eq_true, hswap]
  cases a.order b <;> simp

/-- Only which keys there are matters to the sorted keys. -/
theorem sorted_eq_of_mem_iff {keys others : List NameKey}
    (h : ∀ key, key ∈ keys ↔ key ∈ others) : sorted keys = sorted others := by
  have hperm : keys.eraseDups.Perm others.eraseDups := by
    rw [List.perm_ext_iff_of_nodup (nodup_eraseDups keys) (nodup_eraseDups others)]
    intro key
    rw [List.mem_eraseDups, List.mem_eraseDups, h]
  refine List.Perm.eq_of_pairwise (fun a b _ _ hab hba => ?_) (pairwise_sorted keys)
    (pairwise_sorted others) ?_
  · exact eq_of_order (OrientedCmp.isLE_antisymm hab hba)
  · exact (List.mergeSort_perm _ _).trans (hperm.trans (List.mergeSort_perm _ _).symm)

end NameKey

namespace Namer

/-- Names are given by which keys there are, and not by how they are listed. -/
theorem ofKeys_eq_of_mem_iff {keys others : List NameKey}
    (h : ∀ key, key ∈ keys ↔ key ∈ others) : ofKeys keys = ofKeys others := by
  rw [ofKeys, NameKey.sorted_eq_of_mem_iff h]
  rfl

end Namer

/-! ### Sets of names -/

section SortedNames
variable {name : String} {names : List String}

theorem mem_sortedNames : name ∈ sortedNames names ↔ name ∈ names := by
  rw [sortedNames, List.mem_mergeSort, List.mem_eraseDups]

/-- The names are in order, and none is there twice. -/
theorem pairwise_sortedNames (names : List String) : (sortedNames names).Pairwise (· < ·) := by
  have hle : (sortedNames names).Pairwise (· ≤ ·) := by
    have htrans : ∀ a b c : String, decide (a ≤ b) → decide (b ≤ c) → decide (a ≤ c) := by
      simpa using fun a b c => String.le_trans
    have htotal : ∀ a b : String, decide (a ≤ b) || decide (b ≤ a) := by
      simpa using String.le_total
    simpa [sortedNames] using List.pairwise_mergeSort htrans htotal names.eraseDups
  have hne : (sortedNames names).Pairwise (· ≠ ·) :=
    (List.mergeSort_perm _ _).nodup_iff.mpr (nodup_eraseDups names)
  exact (hle.and hne).imp fun ⟨h, hdiffer⟩ => Std.lt_of_le_of_ne h hdiffer

end SortedNames

end WorkloadTuning
