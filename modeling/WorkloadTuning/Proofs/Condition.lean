import Mathlib.Data.List.Induction
import Mathlib.Data.List.Nodup
import WorkloadTuning.Condition

/-! Conditions over a whole course of observations. There is one condition for each type, in the
order in which the types were first observed. It tells the last observation of its type, and when
the stretch of observations with that status began. -/

namespace WorkloadTuning

/-- What is observed of one type, and when. -/
structure Observation (τ : Type) where
  type : τ
  status : ConditionStatus
  reason : String := ""
  message : String := ""
  time : Option Timestamp := none

namespace Condition

variable {τ : Type} {c : Condition τ} {o : Observation τ} {before stretch : List (Observation τ)}

/-! ### The observations of one type -/

/-- The condition sums up observations of its type that end in an unbroken stretch of one status. -/
structure SumsUp (c : Condition τ) (before stretch : List (Observation τ)) : Prop where
  unbroken : ∀ o ∈ stretch, o.status = c.status
  broken_before : ∀ o ∈ before.getLast?, o.status ≠ c.status
  time_first : ∃ o ∈ stretch.head?, c.lastTransitionTime = o.time
  texts_last : ∃ o ∈ stretch.getLast?, c.reason = o.reason ∧ c.message = o.message

/-- The condition after one more observation of its type. -/
def afterOne (c : Condition τ) (o : Observation τ) : Condition τ :=
  c.update o.status o.reason o.message o.time

theorem afterOne_type (c : Condition τ) (o : Observation τ) : (c.afterOne o).type = c.type := by
  unfold afterOne update
  split <;> rfl

/-- An observation with the same status goes on with the stretch. -/
theorem SumsUp.extend (h : c.SumsUp before stretch) (ho : c.status = o.status) :
    (c.afterOne o).SumsUp before (stretch ++ [o]) := by
  obtain ⟨first, hfirst, htime⟩ := h.time_first
  rw [afterOne, update, if_pos ho]
  exact {
    unbroken := by
      intro p hp
      rcases List.mem_append.mp hp with hp | hp
      · exact h.unbroken p hp
      · rw [List.mem_singleton.mp hp, ho]
    broken_before := h.broken_before
    time_first := ⟨first, by simp [Option.mem_def.mp hfirst], htime⟩
    texts_last := ⟨o, by simp, rfl, rfl⟩ }

/-- An observation with another status begins a stretch. -/
theorem SumsUp.turn (h : c.SumsUp before stretch) (ho : c.status ≠ o.status) :
    (c.afterOne o).SumsUp (before ++ stretch) [o] := by
  obtain ⟨last, hlast, -⟩ := h.texts_last
  rw [afterOne, update, if_neg ho]
  exact {
    unbroken := by simp
    broken_before := by
      intro p hp
      rw [List.getLast?_append, Option.mem_def.mp hlast] at hp
      obtain rfl : last = p := by simpa using hp
      rw [h.unbroken last (List.mem_of_getLast? hlast)]
      exact ho
    time_first := ⟨o, by simp, rfl⟩
    texts_last := ⟨o, by simp, rfl, rfl⟩ }

/-- The condition of a type that is observed for the first time. -/
def ofFirst (o : Observation τ) : Condition τ :=
  { type := o.type, status := o.status, reason := o.reason, message := o.message,
    lastTransitionTime := o.time }

theorem ofFirst_sumsUp (o : Observation τ) : (ofFirst o).SumsUp [] [o] where
  unbroken := by simp [ofFirst]
  broken_before := by simp
  time_first := ⟨o, by simp, rfl⟩
  texts_last := ⟨o, by simp, rfl, rfl⟩

/-! ### One observation among conditions of several types -/

variable [DecidableEq τ] {conditions : List (Condition τ)}

/-- The conditions after one more observation. -/
def observe (conditions : List (Condition τ)) (o : Observation τ) : List (Condition τ) :=
  apply o.type o.status o.reason o.message o.time conditions

theorem observe_cons (d : Condition τ) (rest : List (Condition τ)) (o : Observation τ) :
    observe (d :: rest) o = if d.type = o.type then d.afterOne o :: rest else d :: observe rest o :=
  rfl

theorem types_observe (conditions : List (Condition τ)) (o : Observation τ) :
    (observe conditions o).map type =
      conditions.map type ++ if o.type ∈ conditions.map type then [] else [o.type] := by
  induction conditions with
  | nil => rfl
  | cons d rest ih =>
    rw [observe_cons]
    by_cases h : d.type = o.type
    · simp [h, afterOne_type]
    · have hne : o.type ≠ d.type := Ne.symm h
      simp only [if_neg h, List.map_cons, ih, List.mem_cons, hne, false_or, List.cons_append]

/-- An observation only touches the condition of its type, and adds it if there is none. -/
theorem mem_observe (hnodup : (conditions.map type).Nodup) (hc : c ∈ observe conditions o) :
    (c ∈ conditions ∧ c.type ≠ o.type) ∨
      (∃ d ∈ conditions, d.type = o.type ∧ c = d.afterOne o) ∨
      (o.type ∉ conditions.map type ∧ c = ofFirst o) := by
  induction conditions with
  | nil => exact .inr (.inr ⟨List.not_mem_nil, List.mem_singleton.mp hc⟩)
  | cons d rest ih =>
    obtain ⟨hd, hrest⟩ := List.nodup_cons.mp hnodup
    rw [observe_cons] at hc
    split at hc
    · next heq =>
      rcases List.mem_cons.mp hc with hc | hc
      · exact .inr (.inl ⟨d, List.mem_cons_self, heq, hc⟩)
      · refine .inl ⟨List.mem_cons_of_mem d hc, fun hsame => hd ?_⟩
        rw [heq, ← hsame]
        exact List.mem_map_of_mem hc
    · next hne =>
      rcases List.mem_cons.mp hc with rfl | hc
      · exact .inl ⟨List.mem_cons_self, hne⟩
      · rcases ih hrest hc with ⟨hmem, hother⟩ | ⟨e, he, hsame, heq⟩ | ⟨hnew, heq⟩
        · exact .inl ⟨List.mem_cons_of_mem d hmem, hother⟩
        · exact .inr (.inl ⟨e, List.mem_cons_of_mem d he, hsame, heq⟩)
        · exact .inr (.inr ⟨by simpa [Ne.symm hne] using hnew, heq⟩)

/-! ### All observations -/

/-- The conditions after all observations, with none to begin with. -/
def observed (observations : List (Observation τ)) : List (Condition τ) :=
  observations.foldl observe []

theorem observed_append (observations : List (Observation τ)) (o : Observation τ) :
    observed (observations ++ [o]) = observe (observed observations) o := by
  rw [observed, List.foldl_append]
  rfl

theorem nodup_types_observed (observations : List (Observation τ)) :
    ((observed observations).map type).Nodup := by
  induction observations using List.reverseRecOn with
  | nil => exact List.nodup_nil
  | append_singleton observations o ih =>
    rw [observed_append, types_observe]
    split
    · rwa [List.append_nil]
    · next hnew => exact List.nodup_append.mpr ⟨ih, by simp, by simpa using hnew⟩

theorem types_observed (observations : List (Observation τ)) :
    (observed observations).map type = (observations.map Observation.type).eraseDups := by
  induction observations using List.reverseRecOn with
  | nil => rfl
  | append_singleton observations o ih =>
    rw [observed_append, types_observe, List.map_append, List.eraseDups_append, ← ih]
    by_cases h : o.type ∈ observations.map Observation.type
    · have hold : o.type ∈ (observed observations).map type := by rwa [ih, List.mem_eraseDups]
      have hremoved : [o.type].removeAll (observations.map Observation.type) = [] :=
        List.filter_cons_of_neg (by simpa using h)
      rw [if_pos hold, List.map_singleton, hremoved]
      rfl
    · have hnew : o.type ∉ (observed observations).map type := by rwa [ih, List.mem_eraseDups]
      have hkept : [o.type].removeAll (observations.map Observation.type) = [o.type] :=
        List.filter_cons_of_pos (by simpa using h)
      rw [if_neg hnew, List.map_singleton, hkept]
      rfl

/-- Observations of a type other than the condition's do not count. -/
theorem filter_type_append (observations : List (Observation τ)) (o : Observation τ) (t : τ) :
    (observations ++ [o]).filter (fun p => p.type = t) =
      observations.filter (fun p => p.type = t) ++ if o.type = t then [o] else [] := by
  by_cases h : o.type = t <;> simp [h]

/-- After any observations there is one condition for each type that was observed, in the order of
the first observations. Each has the status and the texts of the last observation of its type, and
the time of the first one in the unbroken stretch of that status that the last one ends. -/
theorem observed_keeps_history (observations : List (Observation τ)) :
    (observed observations).map type = (observations.map Observation.type).eraseDups ∧
      ((observed observations).map type).Nodup ∧
      ∀ c ∈ observed observations, ∃ before stretch,
        observations.filter (fun o => o.type = c.type) = before ++ stretch ∧
          c.SumsUp before stretch := by
  refine ⟨types_observed observations, nodup_types_observed observations, ?_⟩
  induction observations using List.reverseRecOn with
  | nil => exact fun c hc => absurd hc List.not_mem_nil
  | append_singleton observations o ih =>
    intro c hc
    rw [observed_append] at hc
    rw [filter_type_append]
    rcases mem_observe (nodup_types_observed observations) hc with
      ⟨hkept, hother⟩ | ⟨d, hd, hsame, rfl⟩ | ⟨hnew, rfl⟩
    · obtain ⟨before, stretch, hown, hsums⟩ := ih c hkept
      exact ⟨before, stretch, by rw [if_neg (Ne.symm hother), List.append_nil, hown], hsums⟩
    · obtain ⟨before, stretch, hown, hsums⟩ := ih d hd
      rw [afterOne_type, hown, if_pos hsame.symm]
      by_cases hstatus : d.status = o.status
      · exact ⟨before, stretch ++ [o], List.append_assoc .., hsums.extend hstatus⟩
      · exact ⟨before ++ stretch, [o], rfl, hsums.turn hstatus⟩
    · have hnone : observations.filter (fun p => p.type = o.type) = [] := by
        rw [List.filter_eq_nil_iff]
        intro p hp hsame
        rw [types_observed, List.mem_eraseDups] at hnew
        exact hnew (List.mem_map.mpr ⟨p, hp, of_decide_eq_true hsame⟩)
      refine ⟨[], [o], ?_, ofFirst_sumsUp o⟩
      rw [show (ofFirst o).type = o.type from rfl, hnone, if_pos rfl]

end Condition

end WorkloadTuning
