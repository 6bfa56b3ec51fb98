import Mathlib.Data.List.Forall2
import WorkloadTuning.Generation.Generator
import WorkloadTuning.Proofs.Dict

/-! The defaults of an application. They are filled in step by step, and no step changes what is
given. What they leave is settled: the objectives have what their names imply, also the names that
were made up for them, so filling in the defaults once more changes nothing. -/

namespace WorkloadTuning

namespace Objective

variable {o : Objective} {defaults : List (String × Quantity)} {latency : Latency}

/-- The weight that the objective gives to a resource. -/
def weight? (o : Objective) (key : String) : Option Quantity :=
  (o.requests.bind RequestsObjective.weights).bind fun given => given.get? key

def IsMeasured (o : Objective) : Prop :=
  o.requests.isSome ∨ o.latency.isSome

theorem not_isMeasured_iff : ¬o.IsMeasured ↔ o.requests = none ∧ o.latency = none := by
  simp [IsMeasured]

/-! ### What is given is kept -/

/-- What is given before is there after, and no objective gets a second measure. -/
structure Keeps (before after : Objective) : Prop where
  name : before.name ≠ "" → after.name = before.name
  weight : ∀ key weight, before.weight? key = some weight → after.weight? key = some weight
  latency : ∀ given, before.latency = some given → after.latency = some given
  measure : before.IsMeasured → after.requests.isSome = before.requests.isSome ∧
    after.latency.isSome = before.latency.isSome

namespace Keeps

theorem refl (o : Objective) : Keeps o o :=
  ⟨fun _ => rfl, fun _ _ h => h, fun _ h => h, fun _ => ⟨rfl, rfl⟩⟩

theorem isMeasured {before after : Objective} (h : Keeps before after)
    (hmeasured : before.IsMeasured) : after.IsMeasured := by
  obtain ⟨hrequests, hlatency⟩ := h.measure hmeasured
  rwa [IsMeasured, hrequests, hlatency]

theorem trans {before between after : Objective} (h : Keeps before between)
    (hlater : Keeps between after) : Keeps before after where
  name hname := by rw [hlater.name (h.name hname ▸ hname), h.name hname]
  weight key weight hweight := hlater.weight key weight (h.weight key weight hweight)
  latency given hgiven := hlater.latency given (h.latency given hgiven)
  measure hmeasured := by
    obtain ⟨hrequests, hlatency⟩ := h.measure hmeasured
    obtain ⟨hrequests', hlatency'⟩ := hlater.measure (h.isMeasured hmeasured)
    exact ⟨hrequests'.trans hrequests, hlatency'.trans hlatency⟩

end Keeps

/-! ### The steps -/

/-- Every one of the resources has a weight. -/
def HasWeights (o : Objective) (defaults : List (String × Quantity)) : Prop :=
  ∃ given, o.requests = some ⟨some given⟩ ∧ ∀ e ∈ defaults, given.contains e.1

theorem withWeights_of_latency (hrequests : o.requests = none) (hlatency : o.latency.isSome) :
    o.withWeights defaults = o := by
  simp [withWeights, hrequests, hlatency]

theorem withWeights_of_or (h : o.requests.isSome ∨ o.latency = none) :
    o.withWeights defaults =
      { o with requests := some ⟨some (defaults.foldl (fun d e => d.insertIfNew e.1 e.2)
        ((o.requests.bind RequestsObjective.weights).getD Dict.empty))⟩ } := by
  have hneither : (o.requests.isNone && o.latency.isSome) = false := by
    rcases h with h | h
    · rw [← Option.not_isSome, h]
      rfl
    · rw [h]
      exact Bool.and_false _
  rw [withWeights, hneither]
  rfl

theorem requests_or_latency (o : Objective) :
    o.requests = none ∧ o.latency.isSome ∨ o.requests.isSome ∨ o.latency = none := by
  cases o.requests with
  | some r => exact .inr (.inl rfl)
  | none =>
    cases o.latency with
    | some l => exact .inl ⟨rfl, rfl⟩
    | none => exact .inr (.inr rfl)

theorem withWeights_of_hasWeights (h : o.HasWeights defaults) : o.withWeights defaults = o := by
  obtain ⟨given, hrequests, hall⟩ := h
  rw [withWeights_of_or (.inl (by rw [hrequests]; rfl)), hrequests, Option.bind_some,
    Option.getD_some, Dict.foldl_insertIfNew_of_contains hall, ← hrequests]

theorem withWeights_hasWeights (h : o.requests.isSome ∨ o.latency = none) :
    (o.withWeights defaults).HasWeights defaults := by
  rw [withWeights_of_or h]
  exact ⟨_, rfl, Dict.contains_foldl_insertIfNew _ _⟩

theorem withWeights_name (o : Objective) (defaults : List (String × Quantity)) :
    (o.withWeights defaults).name = o.name := by
  rcases o.requests_or_latency with ⟨hrequests, hlatency⟩ | h
  · rw [withWeights_of_latency hrequests hlatency]
  · rw [withWeights_of_or h]

theorem withWeights_latency (o : Objective) (defaults : List (String × Quantity)) :
    (o.withWeights defaults).latency = o.latency := by
  rcases o.requests_or_latency with ⟨hrequests, hlatency⟩ | h
  · rw [withWeights_of_latency hrequests hlatency]
  · rw [withWeights_of_or h]

theorem keeps_withWeights (o : Objective) (defaults : List (String × Quantity)) :
    o.Keeps (o.withWeights defaults) := by
  rcases o.requests_or_latency with ⟨hrequests, hlatency⟩ | h
  · rw [withWeights_of_latency hrequests hlatency]
    exact .refl o
  · refine ⟨fun _ => o.withWeights_name defaults, ?_, fun given hgiven => ?_, fun hmeasured => ?_⟩
    · intro key weight hweight
      obtain ⟨given, hgiven, hkey⟩ := Option.bind_eq_some_iff.mp hweight
      rw [withWeights_of_or h, hgiven]
      show (Dict.get? _ key) = some weight
      rw [Option.getD_some, Dict.get?_foldl_insertIfNew, hkey, Option.some_or]
    · rw [withWeights_latency, hgiven]
    · have hrequests : o.requests.isSome := by
        rcases h with h | h
        · exact h
        · exact hmeasured.resolve_right (by simp [h])
      rw [withWeights_latency, withWeights_of_or h, hrequests]
      exact ⟨rfl, rfl⟩

theorem withLatency_of_isMeasured (h : o.IsMeasured) : o.withLatency latency = o := by
  refine if_neg fun hneither => ?_
  rw [Bool.and_eq_true, Option.isNone_iff_eq_none, Option.isNone_iff_eq_none] at hneither
  exact not_isMeasured_iff.mpr hneither h

theorem withLatency_of_not_isMeasured (h : ¬o.IsMeasured) :
    o.withLatency latency = { o with latency := some ⟨latency⟩ } := by
  obtain ⟨hrequests, hlatency⟩ := not_isMeasured_iff.mp h
  simp [withLatency, hrequests, hlatency]

theorem withLatency_name (o : Objective) (latency : Latency) :
    (o.withLatency latency).name = o.name := by
  by_cases h : o.IsMeasured
  · rw [withLatency_of_isMeasured h]
  · rw [withLatency_of_not_isMeasured h]

theorem withLatency_requests (o : Objective) (latency : Latency) :
    (o.withLatency latency).requests = o.requests := by
  by_cases h : o.IsMeasured
  · rw [withLatency_of_isMeasured h]
  · rw [withLatency_of_not_isMeasured h]

theorem withLatency_isMeasured (o : Objective) (latency : Latency) :
    (o.withLatency latency).IsMeasured := by
  by_cases h : o.IsMeasured
  · rwa [withLatency_of_isMeasured h]
  · rw [withLatency_of_not_isMeasured h]
    exact .inr rfl

theorem keeps_withLatency (o : Objective) (latency : Latency) :
    o.Keeps (o.withLatency latency) := by
  by_cases h : o.IsMeasured
  · rw [withLatency_of_isMeasured h]
    exact .refl o
  · rw [withLatency_of_not_isMeasured h]
    refine ⟨fun _ => rfl, fun _ _ hweight => hweight, fun given hgiven => ?_,
      fun hmeasured => absurd hmeasured h⟩
    rw [(not_isMeasured_iff.mp h).2] at hgiven
    cases hgiven

theorem withName_of_ne (h : o.name ≠ "") : o.withName = o := by
  simp [withName, h]

theorem withName_of_not_isMeasured (h : ¬o.IsMeasured) : o.withName = o := by
  obtain ⟨hrequests, hlatency⟩ := not_isMeasured_iff.mp h
  simp [withName, hrequests, hlatency]

/-- The names that are made up. -/
theorem withName_of_isMeasured (hname : o.name = "") (h : o.IsMeasured) :
    o.withName = { o with name := "requests" } ∨
      ∃ latency : Latency, o.withName = { o with name := "latency-" ++ latency.toText } := by
  cases hrequests : o.requests with
  | some r => exact .inl (by simp [withName, hname, hrequests])
  | none =>
    have hlatency : o.latency.isSome := h.resolve_left (by simp [hrequests])
    obtain ⟨l, hl⟩ := Option.isSome_iff_exists.mp hlatency
    exact .inr ⟨l.latencyType, by simp [withName, hname, hrequests, hl]⟩

/-- A made up name only adds to the objective. -/
theorem withName_cases (o : Objective) : o.withName = o ∧ (o.IsMeasured → o.name ≠ "") ∨
    o.name = "" ∧ o.IsMeasured ∧ ∃ name, o.withName = { o with name } ∧ name ≠ "" ∧
      knownWeights? name = none := by
  by_cases hname : o.name = ""
  · by_cases h : o.IsMeasured
    · have hmadeUp : ∀ latency : Latency, "latency-" ++ latency.toText ≠ "" ∧
          knownWeights? ("latency-" ++ latency.toText) = none := by
        intro latency
        cases latency <;> decide
      rcases withName_of_isMeasured hname h with heq | ⟨latency, heq⟩
      · exact .inr ⟨hname, h, _, heq, by decide, by decide⟩
      · exact .inr ⟨hname, h, _, heq, hmadeUp latency⟩
    · exact .inl ⟨withName_of_not_isMeasured h, fun hmeasured => absurd hmeasured h⟩
  · exact .inl ⟨withName_of_ne hname, fun _ => hname⟩

theorem keeps_withName (o : Objective) : o.Keeps o.withName := by
  rcases o.withName_cases with ⟨heq, -⟩ | ⟨hname, -, name, heq, -⟩
  · rw [heq]
    exact .refl o
  · rw [heq]
    exact ⟨fun hne => absurd hname hne, fun _ _ hweight => hweight, fun _ hgiven => hgiven,
      fun _ => ⟨rfl, rfl⟩⟩

/-! ### All steps -/

/-- The latency that the name stands for, in an objective without a measure. -/
def withNamedLatency (o : Objective) : Objective :=
  match latencyOfName? o.name with
  | some latency => o.withLatency latency
  | none => o

/-- Equal weights for an objective that is measured by requests without a weight. -/
def withEqualWeights (o : Objective) : Objective :=
  if o.requests.any fun r => r.weights.isNone then
    o.withWeights [("cpu", units 1), ("memory", units 1)]
  else o

theorem applyDefaults_of_known (h : knownWeights? o.name = some defaults) :
    o.applyDefaults = o.withWeights defaults := by
  rw [applyDefaults, h]

theorem applyDefaults_of_unknown (h : knownWeights? o.name = none) :
    o.applyDefaults = o.withNamedLatency.withEqualWeights.withName := by
  unfold applyDefaults
  simp only [h]
  unfold withNamedLatency withEqualWeights
  cases latencyOfName? o.name with
  | some latency => simp only []
  | none => simp only []

theorem withNamedLatency_cases (o : Objective) :
    latencyOfName? o.name = none ∧ o.withNamedLatency = o ∨
      ∃ latency, o.withNamedLatency = o.withLatency latency := by
  unfold withNamedLatency
  split
  · exact .inr ⟨_, rfl⟩
  · next hnone => exact .inl ⟨hnone, rfl⟩

theorem withEqualWeights_cases (o : Objective) :
    (∀ r, o.requests = some r → r.weights.isSome) ∧ o.withEqualWeights = o ∨
      o.requests.isSome ∧ ∃ defaults, o.withEqualWeights = o.withWeights defaults := by
  unfold withEqualWeights
  split
  · next hopen => exact .inr ⟨Option.isSome_of_any hopen, _, rfl⟩
  · next hclosed =>
    refine .inl ⟨fun r hr => ?_, rfl⟩
    simpa [hr, Option.isSome_iff_ne_none] using hclosed

theorem keeps_withNamedLatency (o : Objective) : o.Keeps o.withNamedLatency := by
  rcases o.withNamedLatency_cases with ⟨-, heq⟩ | ⟨latency, heq⟩
  · rw [heq]
    exact .refl o
  · rw [heq]
    exact o.keeps_withLatency latency

theorem keeps_withEqualWeights (o : Objective) : o.Keeps o.withEqualWeights := by
  rcases o.withEqualWeights_cases with ⟨-, heq⟩ | ⟨-, defaults, heq⟩
  · rw [heq]
    exact .refl o
  · rw [heq]
    exact o.keeps_withWeights defaults

/-- Nothing that an objective is given is changed by its defaults. -/
theorem keeps_applyDefaults (o : Objective) : o.Keeps o.applyDefaults := by
  cases h : knownWeights? o.name with
  | some defaults =>
    rw [applyDefaults_of_known h]
    exact o.keeps_withWeights defaults
  | none =>
    rw [applyDefaults_of_unknown h]
    exact (o.keeps_withNamedLatency.trans (keeps_withEqualWeights _)).trans (keeps_withName _)

/-! ### What the steps leave -/

theorem withNamedLatency_name (o : Objective) : o.withNamedLatency.name = o.name := by
  rcases o.withNamedLatency_cases with ⟨-, heq⟩ | ⟨latency, heq⟩
  · rw [heq]
  · rw [heq, withLatency_name]

theorem withEqualWeights_name (o : Objective) : o.withEqualWeights.name = o.name := by
  rcases o.withEqualWeights_cases with ⟨-, heq⟩ | ⟨-, defaults, heq⟩
  · rw [heq]
  · rw [heq, withWeights_name]

theorem withNamedLatency_isMeasured (h : latencyOfName? o.name ≠ none) :
    o.withNamedLatency.IsMeasured := by
  rcases o.withNamedLatency_cases with ⟨hnone, -⟩ | ⟨latency, heq⟩
  · exact absurd hnone h
  · rw [heq]
    exact o.withLatency_isMeasured latency

theorem withEqualWeights_weighted {r : RequestsObjective}
    (h : o.withEqualWeights.requests = some r) : r.weights.isSome := by
  rcases o.withEqualWeights_cases with ⟨hgiven, heq⟩ | ⟨hrequests, defaults, heq⟩
  · exact hgiven r (heq ▸ h)
  · have hfilled : (o.withWeights defaults).HasWeights defaults :=
      withWeights_hasWeights (.inl hrequests)
    obtain ⟨given, hweights, -⟩ := hfilled
    rw [heq, hweights] at h
    obtain rfl := Option.some.inj h
    rfl

/-- The objective has what its name implies, and a name if it is measured. -/
structure IsSettled (o : Objective) : Prop where
  known : ∀ defaults, knownWeights? o.name = some defaults →
    o.requests = none ∧ o.latency.isSome ∨ o.HasWeights defaults
  measured : knownWeights? o.name = none → latencyOfName? o.name ≠ none → o.IsMeasured
  weighted : knownWeights? o.name = none → ∀ r, o.requests = some r → r.weights.isSome
  named : o.IsMeasured → o.name ≠ ""

theorem knownWeights?_of_empty : knownWeights? "" = none := by decide

theorem isSettled_applyDefaults (o : Objective) : o.applyDefaults.IsSettled := by
  cases h : knownWeights? o.name with
  | some defaults =>
    rw [applyDefaults_of_known h]
    have hname : o.name ≠ "" := by
      intro hempty
      rw [hempty, knownWeights?_of_empty] at h
      cases h
    rw [← o.withWeights_name defaults] at h hname
    refine ⟨fun known hknown => ?_, fun hunknown => ?_, fun hunknown => ?_, fun _ => hname⟩
    · obtain rfl : defaults = known := Option.some.inj (h.symm.trans hknown)
      rcases o.requests_or_latency with ⟨hrequests, hlatency⟩ | hmeasure
      · rw [withWeights_of_latency hrequests hlatency]
        exact .inl ⟨hrequests, hlatency⟩
      · exact .inr (withWeights_hasWeights hmeasure)
    · cases hunknown.symm.trans h
    · cases hunknown.symm.trans h
  | none =>
    rw [applyDefaults_of_unknown h]
    have hname : o.withNamedLatency.withEqualWeights.name = o.name := by
      rw [withEqualWeights_name, withNamedLatency_name]
    have hmeasured : latencyOfName? o.name ≠ none →
        o.withNamedLatency.withEqualWeights.IsMeasured := fun hlatency =>
      (keeps_withEqualWeights _).isMeasured (withNamedLatency_isMeasured hlatency)
    have hweighted : ∀ r, o.withNamedLatency.withEqualWeights.requests = some r →
        r.weights.isSome := fun _ => withEqualWeights_weighted
    rw [← hname] at h hmeasured
    generalize o.withNamedLatency.withEqualWeights = filled at *
    rcases filled.withName_cases with ⟨heq, hnamed⟩ | ⟨-, hgiven, name, heq, hne, hunknown⟩
    · rw [heq]
      refine ⟨fun _ hknown => ?_, fun _ => hmeasured, fun _ => hweighted, hnamed⟩
      cases h.symm.trans hknown
    · rw [heq]
      refine ⟨fun _ hknown => ?_, fun _ _ => hgiven, fun _ => hweighted, fun _ => hne⟩
      cases hunknown.symm.trans hknown

theorem applyDefaults_of_isSettled (h : o.IsSettled) : o.applyDefaults = o := by
  cases hknown : knownWeights? o.name with
  | some defaults =>
    rw [applyDefaults_of_known hknown]
    rcases h.known defaults hknown with ⟨hrequests, hlatency⟩ | hweights
    · exact withWeights_of_latency hrequests hlatency
    · exact withWeights_of_hasWeights hweights
  | none =>
    have hlatency : o.withNamedLatency = o := by
      unfold withNamedLatency
      split
      · next latency hlatency =>
        exact withLatency_of_isMeasured (h.measured hknown (by simp [hlatency]))
      · rfl
    have hweights : o.withEqualWeights = o := by
      refine if_neg ?_
      cases hrequests : o.requests with
      | none => simp
      | some r => simpa [Option.isSome_iff_ne_none] using h.weighted hknown r hrequests
    rw [applyDefaults_of_unknown hknown, hlatency, hweights]
    by_cases hmeasured : o.IsMeasured
    · exact withName_of_ne (h.named hmeasured)
    · exact withName_of_not_isMeasured hmeasured

theorem applyDefaults_eq_self_iff : o.applyDefaults = o ↔ o.IsSettled :=
  ⟨fun h => h ▸ o.isSettled_applyDefaults, applyDefaults_of_isSettled⟩

end Objective

/-! ### Scenarios and applications -/

theorem Scenario.applyDefaults_eq_self_iff {s : Scenario} :
    s.applyDefaults = s ↔ s.name ≠ "" := by
  unfold Scenario.applyDefaults
  split
  · next hempty =>
    have hname : s.name = "" := String.isEmpty_iff.mp hempty
    refine ⟨fun h => ?_, fun hne => absurd hname hne⟩
    rw [← h]
    exact (by decide : "default" ≠ "")
  · next hne =>
    exact ⟨fun _ hname => hne (by rw [hname]; rfl), fun _ => rfl⟩

theorem Scenario.applyDefaults_name_ne (s : Scenario) : s.applyDefaults.name ≠ "" := by
  unfold Scenario.applyDefaults
  split
  · exact (by decide : "default" ≠ "")
  · next hne => exact fun hname => hne (by rw [hname]; rfl)

namespace Application

/-- Nothing is left to be filled in. -/
structure IsSettled (app : Application) : Prop where
  scenarios : ∀ s ∈ app.scenarios, s.name ≠ ""
  objectives : ∀ o ∈ app.objectives, o.IsSettled

/-- What is given before is there after, in its place. -/
structure Keeps (before after : Application) : Prop where
  metadata : after.metadata = before.metadata
  resources : after.resources = before.resources
  parameters : after.parameters = before.parameters
  scenarios : List.Forall₂ (fun s t => s.name ≠ "" → t = s) before.scenarios after.scenarios
  objectives : List.Forall₂ Objective.Keeps before.objectives after.objectives

theorem applyDefaults_eq_self_iff {app : Application} :
    app.applyDefaults = app ↔ app.IsSettled := by
  have hfields : app.applyDefaults = app ↔
      app.scenarios.map Scenario.applyDefaults = app.scenarios.map id ∧
        app.objectives.map Objective.applyDefaults = app.objectives.map id := by
    cases app
    simp [applyDefaults]
  rw [hfields, List.map_inj_left, List.map_inj_left]
  constructor
  · rintro ⟨hscenarios, hobjectives⟩
    exact ⟨fun s hs => Scenario.applyDefaults_eq_self_iff.mp (hscenarios s hs),
      fun o ho => Objective.applyDefaults_eq_self_iff.mp (hobjectives o ho)⟩
  · rintro ⟨hscenarios, hobjectives⟩
    exact ⟨fun s hs => Scenario.applyDefaults_eq_self_iff.mpr (hscenarios s hs),
      fun o ho => Objective.applyDefaults_eq_self_iff.mpr (hobjectives o ho)⟩

theorem isSettled_applyDefaults (app : Application) : app.applyDefaults.IsSettled where
  scenarios := by
    rw [applyDefaults, List.forall_mem_map]
    exact fun s _ => s.applyDefaults_name_ne
  objectives := by
    rw [applyDefaults, List.forall_mem_map]
    exact fun o _ => o.isSettled_applyDefaults

theorem keeps_applyDefaults (app : Application) : app.Keeps app.applyDefaults where
  metadata := rfl
  resources := rfl
  parameters := rfl
  scenarios := by
    rw [applyDefaults, List.forall₂_map_right_iff, List.forall₂_same]
    exact fun s _ => Scenario.applyDefaults_eq_self_iff.mpr
  objectives := by
    rw [applyDefaults, List.forall₂_map_right_iff, List.forall₂_same]
    exact fun o _ => o.keeps_applyDefaults

/-- Defaults that have been filled in are not filled in again, so a generator comes out the same of
an application with them; what is given is kept; and an application stays as it is exactly if there
is nothing to fill in. -/
theorem applyDefaults_settles (app : Application) :
    app.applyDefaults.applyDefaults = app.applyDefaults ∧
      Generator.forApplication app.applyDefaults = Generator.forApplication app ∧
      app.Keeps app.applyDefaults ∧ (app.applyDefaults = app ↔ app.IsSettled) := by
  have hagain : app.applyDefaults.applyDefaults = app.applyDefaults :=
    applyDefaults_eq_self_iff.mpr app.isSettled_applyDefaults
  refine ⟨hagain, ?_, app.keeps_applyDefaults, applyDefaults_eq_self_iff⟩
  unfold Generator.forApplication
  rw [hagain]

end Application

end WorkloadTuning
