import WorkloadTuning.Proofs.Service.Baseline

/-! The constraints that are sent with an experiment. A parameter with a single value is not sent,
but the constraints on it are, so a definition names parameters that it does not have as soon as an
order, or a weight other than zero, bears on such a parameter. -/

namespace WorkloadTuning

/-- The parameters that the constraint is about. -/
def Constraint.names (c : Constraint) : List String :=
  (c.order.elim [] fun order => [order.lowerParameter, order.upperParameter]) ++
    c.sum.elim [] fun sum => sum.parameters.map WeightedParameter.name

/-- The parameters that the service is told of: those of an order, or else those that have a weight
in a sum. -/
def Constraint.namesSent (c : Constraint) : List String :=
  match c.order, c.sum with
  | some order, _ => [order.lowerParameter, order.upperParameter]
  | none, some sum =>
    (sum.parameters.filter fun p => !p.weight.isZero).map WeightedParameter.name
  | none, none => []

namespace Service

def Constraint.names (c : Constraint) : List String :=
  match c.form with
  | .order order => [order.lowerParameter, order.upperParameter]
  | .sum sum => sum.parameters.map WeightedParameter.name

/-- The constraints are about parameters of the definition only. -/
def Definition.IsSelfContained (d : Definition) : Prop :=
  ∀ c ∈ d.constraints, ∀ name ∈ c.names, name ∈ d.parameters.map Parameter.name

end Service

namespace Constraint

variable {c : Constraint}

theorem namesSent_subset : c.namesSent ⊆ c.names := by
  intro name hname
  obtain ⟨_, order, sum⟩ := c
  rcases order with _ | order
  · rcases sum with _ | sum
    · cases hname
    · obtain ⟨p, hp, rfl⟩ := List.mem_map.mp hname
      exact List.mem_map_of_mem (List.mem_filter.mp hp).1
  · exact List.mem_append_left _ hname

theorem names_toService {sent : Service.Constraint} (h : c.toService? = some sent) :
    sent.names = c.namesSent := by
  obtain ⟨_, order, sum⟩ := c
  rcases order with _ | order
  · rcases sum with _ | sum
    · cases h
    · obtain rfl := Option.some.inj h
      simp only [Service.Constraint.names, SumConstraint.toService, List.map_map, namesSent]
      rfl
  · obtain rfl := Option.some.inj h
    rfl

/-- A constraint that is not sent has no names to send. -/
theorem toService?_of_mem_namesSent {name : String} (h : name ∈ c.namesSent) :
    ∃ sent, c.toService? = some sent := by
  obtain ⟨_, order, sum⟩ := c
  rcases order with _ | order
  · rcases sum with _ | sum
    · cases h
    · exact ⟨_, rfl⟩
  · exact ⟨_, rfl⟩

end Constraint

namespace Experiment

variable {e : Experiment} {s : Submission}

/-- No parameter of that name has a choice of values. -/
def IsPinned (e : Experiment) (name : String) : Prop :=
  ∀ p ∈ e.spec.parameters, p.name = name → p.isDegenerate

theorem not_isPinned_iff {name : String} : ¬ e.IsPinned name ↔
    name ∈ e.toDefinition.parameters.map Service.Parameter.name := by
  have hnames : e.toDefinition.parameters.map Service.Parameter.name =
      e.freeParameters.map Parameter.name := by
    rw [toDefinition, List.map_map]
    exact List.map_congr_left fun p _ => p.toService_name
  rw [hnames, List.mem_map, IsPinned]
  push Not
  refine exists_congr fun p => ?_
  rw [mem_freeParameters, ← Bool.not_eq_true, and_assoc, and_comm (a := p.name = name)]

theorem mem_constraintNames_iff {name : String} :
    (∃ sent ∈ e.toDefinition.constraints, name ∈ sent.names) ↔
      ∃ c ∈ e.spec.constraints, name ∈ c.namesSent := by
  constructor
  · rintro ⟨sent, hsent, hname⟩
    obtain ⟨c, hc, hform⟩ := List.mem_filterMap.mp hsent
    exact ⟨c, hc, Constraint.names_toService hform ▸ hname⟩
  · rintro ⟨c, hc, hname⟩
    obtain ⟨sent, hform⟩ := Constraint.toService?_of_mem_namesSent hname
    refine ⟨sent, List.mem_filterMap.mpr ⟨c, hc, hform⟩, ?_⟩
    rwa [Constraint.names_toService hform]

/-- What a constraint of the submitted definition names is either sent or pinned, and the definition
is about its own parameters exactly if no order and no weight bears on a pinned one. -/
theorem submission_isSelfContained_iff (h : e.submission = .ok s)
    (hnames : ∀ c ∈ e.spec.constraints, ∀ name ∈ c.names,
      name ∈ e.spec.parameters.map Parameter.name) :
    (∀ sent ∈ s.definition.constraints, ∀ name ∈ sent.names,
      name ∈ e.spec.parameters.map Parameter.name ∧
        (name ∈ s.definition.parameters.map Service.Parameter.name ∨ e.IsPinned name)) ∧
    (s.definition.IsSelfContained ↔
      ∀ c ∈ e.spec.constraints, ∀ name ∈ c.namesSent, ¬ e.IsPinned name) := by
  have hdefinition : s.definition = e.toDefinition := by
    obtain ⟨_, -, hs⟩ := bind_eq_ok.mp h
    obtain rfl := Except.ok.inj hs
    rfl
  rw [hdefinition]
  constructor
  · intro sent hsent name hname
    obtain ⟨c, hc, hmem⟩ := mem_constraintNames_iff.mp ⟨sent, hsent, hname⟩
    refine ⟨hnames c hc name (Constraint.namesSent_subset hmem), ?_⟩
    by_cases hpinned : e.IsPinned name
    · exact .inr hpinned
    · exact .inl (not_isPinned_iff.mp hpinned)
  · constructor
    · intro hclosed c hc name hname
      obtain ⟨sent, hsent, hmem⟩ := mem_constraintNames_iff.mpr ⟨c, hc, hname⟩
      exact not_isPinned_iff.mpr (hclosed sent hsent name hmem)
    · intro hfree sent hsent name hname
      obtain ⟨c, hc, hmem⟩ := mem_constraintNames_iff.mp ⟨sent, hsent, hname⟩
      exact not_isPinned_iff.mp (hfree c hc name hmem)

/-- An experiment with an order on two parameters with a choice, and a third one that is fixed and
has no weight in a sum. -/
def weighedExperiment : Experiment :=
  { metadata := { name := "web" }
    spec := {
      parameters := [.integer "requests" 100 2000 500, .integer "limits" 100 4000 1000,
        { name := "zone", min := 3, max := 3 }]
      constraints := [
        { name := "order"
          order := some { lowerParameter := "requests", upperParameter := "limits" } },
        { name := "budget"
          sum := some {
            isUpperBound := true
            bound := { text := "3", milli := 3000 }
            parameters := [{ name := "limits", weight := { text := "1", milli := 1000 } },
              { name := "zone", weight := { text := "0", milli := 0 } }] } }] } }

theorem weighed_isSelfContained :
    (∀ c ∈ weighedExperiment.spec.constraints, ∀ name ∈ c.names,
      name ∈ weighedExperiment.spec.parameters.map Parameter.name) ∧
    ∃ s, weighedExperiment.submission = .ok s ∧ s.definition.constraints.length = 2 ∧
      s.definition.IsSelfContained := by
  have hnames : ∀ c ∈ weighedExperiment.spec.constraints, ∀ name ∈ c.names,
      name ∈ weighedExperiment.spec.parameters.map Parameter.name := by
    decide
  refine ⟨hnames, _, by rfl, by decide, (submission_isSelfContained_iff rfl hnames).2.mpr ?_⟩
  simp only [not_isPinned_iff]
  decide

/-- An experiment that orders a parameter with a choice after one that is fixed. -/
def pinnedExperiment : Experiment :=
  { metadata := { name := "web" }
    spec := {
      parameters := [.integer "limits" 100 4000 1000, { name := "requests", min := 500, max := 500 }]
      constraints := [
        { name := "order"
          order := some { lowerParameter := "requests", upperParameter := "limits" } }] } }

theorem pinned_still_constrained :
    (∀ c ∈ pinnedExperiment.spec.constraints, ∀ name ∈ c.names,
      name ∈ pinnedExperiment.spec.parameters.map Parameter.name) ∧
    ∃ s, pinnedExperiment.submission = .ok s ∧
      s.definition.parameters.map Service.Parameter.name = ["limits"] ∧
      s.definition.constraints =
        [{ name := "order", form := .order { lowerParameter := "requests"
                                             upperParameter := "limits" } }] ∧
      ¬ s.definition.IsSelfContained := by
  refine ⟨by decide, _, by rfl, by decide, by rfl, fun hclosed => ?_⟩
  have hmem := hclosed _ List.mem_cons_self "requests" List.mem_cons_self
  revert hmem
  decide

end Experiment

end WorkloadTuning
