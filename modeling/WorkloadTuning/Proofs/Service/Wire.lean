import WorkloadTuning.Proofs.Json.Records
import WorkloadTuning.Service.Basic

/-! What the service is sent of a suggestion, and what is read of that: all but the location, which
is no part of the document. -/

namespace WorkloadTuning

open Record

namespace NumberOrString

theorem roundTrips (v : NumberOrString) : RoundTrips v := by
  cases v <;> rfl

/-- The value is a text, or a number that is read as what is written of it. -/
def IsRead : NumberOrString → Prop
  | number n => n.IsRead
  | string _ => True

theorem isReadable {v : NumberOrString} (h : v.IsRead) : (toJson v).IsReadable := by
  cases v with
  | number n => exact h
  | string s => exact trivial

theorem ofIntOrString_isRead (v : IntOrString) : (ofIntOrString v).IsRead := by
  cases v with
  | int i =>
    have hmin := i.le_toInt
    have hmax := i.toInt_lt
    exact Number.int_isRead (by omega) (by omega)
  | string s => exact trivial

end NumberOrString

namespace Service

namespace Assignment

theorem roundTrips (a : Assignment) : RoundTrips a := by
  have hvalue : ofJson (toJson a.value) = .ok a.value := a.value.roundTrips
  have hname : Reads take (member "parameterName" a.parameterName) {}
      { parameterName := a.parameterName } := reads_member rfl
  have hreads : Reads take (member "parameterName" a.parameterName ++ member "value" a.value) {} a :=
    hname.append (reads_member (by
      simp only [take, hvalue]
      rfl))
  exact readMembers_eq_ok hreads (by simp [member, Members.get?])

theorem isReadable {a : Assignment} (h : a.value.IsRead) : (toJson a).IsReadable := by
  refine ⟨by simp [member, Members.keys], Json.isReadableMembers_iff.mpr ?_⟩
  rintro m hm
  have hcases : m = ("parameterName", toJson a.parameterName) ∨ m = ("value", toJson a.value) := by
    simpa [member] using hm
  rcases hcases with rfl | rfl
  · exact trivial
  · exact NumberOrString.isReadable h

end Assignment

namespace Suggestion

theorem ofJson_toJson (s : Suggestion) : ofJson (toJson s) = .ok { s with selfUrl := "" } := by
  have hlabels : ofJson (toJson s.labels) = .ok s.labels :=
    dict_roundTrips fun e _ => string_roundTrips e.2
  have hassignments : ofJson (toJson s.assignments) = .ok s.assignments :=
    list_roundTrips fun a _ => a.roundTrips
  have hfirst : Reads take (dictMember "labels" s.labels) {} { labels := s.labels } := by
    refine reads_memberUnless ?_ ?_
    · intro hempty
      have hnone : s.labels = Dict.empty := Dict.eq_of_entries (List.isEmpty_iff.mp hempty)
      rw [hnone]
    · simp only [take, hlabels]
      rfl
  have hreads : Reads take (dictMember "labels" s.labels ++ member "assignments" s.assignments) {}
      { s with selfUrl := "" } := by
    refine hfirst.append (reads_member ?_)
    simp only [take, hassignments]
    rfl
  exact readMembers_eq_ok hreads (by simp)

theorem isReadable {s : Suggestion} (h : ∀ a ∈ s.assignments, a.value.IsRead) :
    (toJson s).IsReadable := by
  have hlabels : (toJson s.labels).IsReadable := by
    refine ⟨?_, Json.isReadableMembers_iff.mpr ?_⟩
    · rw [Members.keys, List.map_map]
      exact s.labels.keys_nodup
    · intro m hm
      obtain ⟨e, -, rfl⟩ := List.mem_map.mp hm
      exact trivial
  have hassignments : (toJson s.assignments).IsReadable := by
    refine Json.isReadableItems_iff.mpr ?_
    intro item hitem
    obtain ⟨a, ha, rfl⟩ := List.mem_map.mp hitem
    exact Assignment.isReadable (h a ha)
  refine ⟨?_, Json.isReadableMembers_iff.mpr ?_⟩
  · rw [dictMember, memberUnless]
    split <;> simp [member, Members.keys]
  · intro m hm
    rcases List.mem_append.mp hm with hm | hm
    · exact isReadable_memberUnless hlabels m hm
    · obtain rfl := List.mem_singleton.mp hm
      exact hassignments

/-- The text that is sent of a suggestion is read as the suggestion without its location. -/
theorem ofText_toText {s : Suggestion} (h : ∀ a ∈ s.assignments, a.value.IsRead) :
    ofText (toText s) = .ok { s with selfUrl := "" } :=
  (Record.ofText_toText (isReadable h)).trans s.ofJson_toJson

end Suggestion

end Service

end WorkloadTuning
