import WorkloadTuning.Proofs.Service.Wire
import WorkloadTuning.Proofs.Trial.Bindings
import WorkloadTuning.Service.Experiment

/-! The baseline that is submitted with an experiment. It has one assignment for each parameter with
a choice, and comes back from the service as the trial that binds every parameter to its baseline. -/

namespace WorkloadTuning

open Service (Suggestion)

/-! ### What is submitted -/

/-- The assignment gives the parameter its baseline, which the parameter admits. -/
structure Parameter.IsSubmittedAs (p : Parameter) (a : Service.Assignment) : Prop where
  name : a.parameterName = p.name
  value : ∃ value, p.baseline = some value ∧ p.admits value ∧ a.value = .ofIntOrString value

theorem Parameter.baselineAssignment_eq_some {p : Parameter} {a : Service.Assignment}
    (h : p.baselineAssignment = .ok (some a)) : p.IsSubmittedAs a := by
  rw [baselineAssignment] at h
  split at h
  · cases h
  · next value hbaseline =>
    split at h
    · next hadmits =>
      obtain rfl := Option.some.inj (Except.ok.inj h)
      exact ⟨rfl, value, hbaseline, hadmits, rfl⟩
    · cases h

namespace Experiment

variable {e : Experiment} {s : Submission} {b : Suggestion}

/-- A baseline that is submitted covers the parameters with a choice, in their order. -/
theorem baseline_isSubmitted (h : e.submission = .ok s) (hb : s.baseline = some b) :
    List.Forall₂ Parameter.IsSubmittedAs e.freeParameters b.assignments := by
  obtain ⟨baseline, hbaseline, hs⟩ := bind_eq_ok.mp h
  obtain rfl := Except.ok.inj hs
  obtain rfl : baseline = some b := hb
  obtain ⟨found, hfound, hlater⟩ := bind_eq_ok.mp hbaseline
  have hsteps := mapM_eq_ok.mp hfound
  dsimp only at hlater
  split at hlater
  · cases hlater
  · split at hlater
    · cases hlater
    · next hlength =>
      obtain rfl := Option.some.inj (Except.ok.inj hlater)
      -- There are as many assignments as parameters, so none was left out on the way.
      have hall : ∀ o ∈ found, (id o).isSome := by
        rw [← List.filterMap_length_eq_length, ← hsteps.length_eq]
        exact not_not.mp hlength
      exact (forall₂_filterMap_id hsteps hall).imp fun p a => p.baselineAssignment_eq_some

end Experiment

/-! ### What the service is told is possible -/

namespace Service

/-- The value is a possible one of the parameter: a whole number within its bounds, or a text among
its values. -/
inductive Parameter.Allows (p : Parameter) : NumberOrString → Prop
  | integer {min max i : Int} (htype : p.type = .integer)
      (hbounds : p.bounds = some ⟨.int min, .int max⟩) (hmin : min ≤ i) (hmax : i ≤ max) :
      p.Allows (.ofInt i)
  | categorical {text : String} (htype : p.type = .categorical) (hmem : text ∈ p.values) :
      p.Allows (.string text)

end Service

namespace Parameter

variable {p : Parameter} {value : IntOrString}

/-- A parameter may admit a number although it is categorical; apart from that, the service allows
what it admits. -/
theorem toService_allows_iff (h : p.admits value) :
    p.toService.Allows (.ofIntOrString value) ↔
      (p.isCategorical → ∃ text, value = .string text) := by
  cases value with
  | string text =>
    refine iff_of_true ?_ fun _ => ⟨text, rfl⟩
    have hmem : text ∈ p.values := List.contains_iff_mem.mp h
    have hcategorical : p.isCategorical := by
      rw [isCategorical, List.isEmpty_eq_false_iff_exists_mem.mpr ⟨text, hmem⟩]
      rfl
    rw [toService, if_pos hcategorical]
    exact .categorical rfl hmem
  | int i =>
    rw [toService]
    split
    · next hcategorical =>
      refine iff_of_false ?_ fun htext => ?_
      · rintro (⟨htype⟩ | _)
        cases htype
      · obtain ⟨text, htext⟩ := htext hcategorical
        cases htext
    · next hnumeric =>
      refine iff_of_true ?_ fun hcategorical => absurd hcategorical hnumeric
      obtain ⟨hmin, hmax⟩ : p.min ≤ i ∧ i ≤ p.max := by simpa [admits] using h
      exact .integer rfl rfl (Int32.le_iff_toInt_le.mp hmin) (Int32.le_iff_toInt_le.mp hmax)

/-- What the service does not allow of it is a number for a categorical parameter. -/
theorem toService_allows_or (h : p.admits value) :
    p.toService.Allows (.ofIntOrString value) ∨
      p.toService.type = .categorical ∧ ∃ i, NumberOrString.ofIntOrString value = .ofInt i := by
  by_cases hallowed : p.isCategorical → ∃ text, value = .string text
  · exact .inl ((toService_allows_iff h).mpr hallowed)
  · obtain ⟨hcategorical, hnumber⟩ := Classical.not_imp.mp hallowed
    refine .inr ⟨by rw [toService, if_pos hcategorical], ?_⟩
    cases value with
    | string text => exact absurd ⟨text, rfl⟩ hnumber
    | int i => exact ⟨i.toInt, rfl⟩

theorem IsSubmittedAs.allows_iff {a : Service.Assignment} (h : p.IsSubmittedAs a) :
    p.toService.Allows a.value ↔
      (p.isCategorical → ∃ text, p.baseline = some (.string text)) := by
  obtain ⟨-, value, hbaseline, hadmits, hvalue⟩ := h
  rw [hvalue, toService_allows_iff hadmits, hbaseline]
  simp only [Option.some.injEq]

theorem isDegenerate_of_isCategorical (h : p.isCategorical) : p.isDegenerate = false := by
  simp_all [isCategorical, isDegenerate]

end Parameter

namespace Experiment

variable {e : Experiment} {s : Submission} {b : Suggestion}

theorem mem_freeParameters {p : Parameter} :
    p ∈ e.freeParameters ↔ p ∈ e.spec.parameters ∧ p.isDegenerate = false := by
  simp [freeParameters]

/-- The submitted assignments name the submitted parameters one by one. A value is allowed, or is a
number for a categorical parameter; so all are allowed exactly if the baselines of the categorical
parameters are texts. -/
theorem submission_baseline_allows (h : e.submission = .ok s) (hb : s.baseline = some b) :
    List.Forall₂ (fun p a => a.parameterName = p.name ∧
        (p.Allows a.value ∨ p.type = .categorical ∧ ∃ i, a.value = .ofInt i))
      s.definition.parameters b.assignments ∧
    (List.Forall₂ (fun p a => p.Allows a.value) s.definition.parameters b.assignments ↔
      ∀ p ∈ e.spec.parameters, p.isCategorical → ∃ text, p.baseline = some (.string text)) := by
  have hall := baseline_isSubmitted h hb
  have hdefinition : s.definition.parameters = e.freeParameters.map Parameter.toService := by
    obtain ⟨_, -, hs⟩ := bind_eq_ok.mp h
    obtain rfl := Except.ok.inj hs
    rfl
  rw [hdefinition, List.forall₂_map_left_iff, List.forall₂_map_left_iff]
  constructor
  · refine hall.imp ?_
    rintro p a ⟨hname, value, -, hadmits, hvalue⟩
    rw [hvalue]
    exact ⟨hname.trans p.toService_name.symm, Parameter.toService_allows_or hadmits⟩
  · rw [forall₂_iff_left hall fun p a h => h.allows_iff]
    constructor
    · intro htexts p hp hcategorical
      exact htexts p (mem_freeParameters.mpr
        ⟨hp, Parameter.isDegenerate_of_isCategorical hcategorical⟩) hcategorical
    · intro htexts p hp
      exact htexts p (mem_freeParameters.mp hp).1

/-- An experiment with a numeric, a categorical and a fixed parameter. -/
def sampleExperiment : Experiment :=
  { metadata := { name := "web" }
    spec := {
      parameters := [.integer "replicas" 1 5 2, .categorical "mode" ["fast", "safe"] "safe",
        { name := "zone", min := 3, max := 3 }] } }

def sampleSubmission : Submission :=
  { name := "web"
    definition := sampleExperiment.toDefinition
    baseline := some {
      labels := Dict.ofList [("baseline", "true")]
      assignments := [{ parameterName := "replicas", value := .ofInt 2 },
        { parameterName := "mode", value := .string "safe" }] } }

theorem sample_submission : sampleExperiment.submission = .ok sampleSubmission := by
  decide +kernel

theorem sample_baseline_allows : ∃ b, sampleExperiment.submission = .ok sampleSubmission ∧
    sampleSubmission.baseline = some b ∧
    List.Forall₂ (fun p a => p.Allows a.value) sampleSubmission.definition.parameters
      b.assignments := by
  refine ⟨_, sample_submission, rfl, (submission_baseline_allows sample_submission rfl).2.mpr ?_⟩
  intro p hp hcategorical
  have hcases : p = .integer "replicas" 1 5 2 ∨ p = .categorical "mode" ["fast", "safe"] "safe" ∨
      p = { name := "zone", min := 3, max := 3 } := by
    simpa [sampleExperiment] using hp
  rcases hcases with rfl | rfl | rfl
  · cases hcategorical
  · exact ⟨"safe", rfl⟩
  · cases hcategorical

/-- A number within bounds that say nothing, as the baseline of a parameter with two texts. -/
def numberedExperiment : Experiment :=
  { metadata := { name := "web" }
    spec := { parameters :=
      [{ name := "mode", values := ["fast", "safe"], baseline := some (.int 0) }] } }

theorem number_for_categorical : ∃ s b, numberedExperiment.submission = .ok s ∧
    s.baseline = some b ∧
    s.definition.parameters =
      [{ type := .categorical, name := "mode", values := ["fast", "safe"] }] ∧
    b.assignments = [{ parameterName := "mode", value := .ofInt 0 }] ∧
    ¬ List.Forall₂ (fun p a => p.Allows a.value) s.definition.parameters b.assignments := by
  refine ⟨{ name := "web", definition := numberedExperiment.toDefinition, baseline := some _ }, _,
    by rfl, rfl, by decide, rfl, ?_⟩
  intro hallows
  obtain ⟨hallowed, -⟩ := List.forall₂_cons.mp hallows
  rcases hallowed with ⟨htype⟩ | _
  cases htype

/-! ### What comes back -/

/-- Every parameter is bound to its baseline, those without a choice to their value, and nothing else
is bound. -/
structure BindsBaseline (e : Experiment) (bindings : Bindings) : Prop where
  choice : ∀ p ∈ e.spec.parameters, p.isDegenerate = false →
    ∃ value, p.baseline = some value ∧ bindings.get? p.name = some value
  single : ∀ p ∈ e.spec.parameters, p.isDegenerate →
    bindings.get? p.name = some (.int p.min)
  only : ∀ name value, bindings.get? name = some value → ∃ p ∈ e.spec.parameters, p.name = name

section Submitted
variable (hnames : (e.spec.parameters.map Parameter.name).Nodup)
  (hall : List.Forall₂ Parameter.IsSubmittedAs e.freeParameters b.assignments)
include hall

theorem submitted_names : b.assignments.map Service.Assignment.parameterName =
    e.freeParameters.map Parameter.name := by
  have hsame : List.Forall₂ (fun name other => name = other)
      (b.assignments.map Service.Assignment.parameterName)
      (e.freeParameters.map Parameter.name) := by
    rw [List.forall₂_map_left_iff, List.forall₂_map_right_iff]
    exact hall.flip.imp fun a p h => h.name
  rwa [List.forall₂_eq_eq_eq] at hsame

include hnames in
theorem submitted_assignsOnce : b.AssignsOnce := by
  rw [Suggestion.AssignsOnce, submitted_names hall]
  exact hnames.sublist (List.filter_sublist.map _)

theorem mem_submitted_pairs {name : String} {value : IntOrString} :
    (name, value) ∈ b.pairs ↔
      ∃ p ∈ e.freeParameters, p.name = name ∧ p.baseline = some value := by
  constructor
  · intro h
    obtain ⟨a, ha, heq⟩ := List.mem_map.mp h
    obtain ⟨p, hp, hname, value, hbaseline, -, hvalue⟩ := exists_left_of_mem hall ha
    obtain ⟨rfl, rfl⟩ := Prod.mk.inj heq
    refine ⟨p, hp, hname.symm, ?_⟩
    rw [hbaseline, hvalue, NumberOrString.toIntOrString_ofIntOrString]
  · rintro ⟨p, hp, rfl, hbaseline⟩
    obtain ⟨a, ha, hname, other, hother, -, hvalue⟩ := exists_right_of_mem hall hp
    obtain rfl := Option.some.inj (hother.symm.trans hbaseline)
    refine List.mem_map.mpr ⟨a, ha, ?_⟩
    rw [hname, hvalue, NumberOrString.toIntOrString_ofIntOrString]

theorem submitted_isRead : ∀ a ∈ b.assignments, a.value.IsRead := by
  intro a ha
  obtain ⟨p, -, -, value, -, -, hvalue⟩ := exists_left_of_mem hall ha
  rw [hvalue]
  exact NumberOrString.ofIntOrString_isRead value

include hnames in
/-- With the submitted values, a trial without others assigns the baselines of the parameters with a
choice. -/
theorem accept_submitted {t : Trial} (ht : t.spec.assignments = []) {name : String}
    {value : IntOrString} : (t.accept b).assigned.get? name = some value ↔
      ∃ p ∈ e.freeParameters, p.name = name ∧ p.baseline = some value := by
  have hpairs : (t.accept b).pairs = b.pairs := by
    rw [Trial.accept_pairs, Trial.pairs, ht]
    rfl
  rw [← mem_submitted_pairs hall,
    ← Dict.get?_ofList_eq_some (submitted_assignsOnce hnames hall).pairs_nodup, ← hpairs]
  rfl

include hnames in
theorem accept_submitted_single {t : Trial} (ht : t.spec.assignments = []) {p : Parameter}
    (hp : p ∈ e.spec.parameters) (hsingle : p.isDegenerate) :
    (t.accept b).bound? e p.name = some (.int p.min) := by
  -- A submitted name belongs to a parameter with a choice, and no two parameters share one.
  have hnone : (t.accept b).assigned.get? p.name = none := by
    rw [Option.eq_none_iff_forall_ne_some]
    intro value hvalue
    obtain ⟨q, hq, hname, -⟩ := (accept_submitted hnames hall ht).mp hvalue
    obtain ⟨hmem, hfree⟩ := mem_freeParameters.mp hq
    obtain rfl := List.inj_on_of_nodup_map hnames hmem hp hname
    exact absurd hsingle (by simp [hfree])
  rw [Trial.bound?_of_unassigned hnone, parameter?_of_mem hnames hp]
  exact if_pos hsingle

include hnames in
theorem accept_submitted_bindings {t : Trial} (ht : t.spec.assignments = []) :
    ∃ bindings, (t.accept b).bindings e = .ok bindings ∧ e.BindsBaseline bindings := by
  have hchoice : ∀ p ∈ e.spec.parameters, p.isDegenerate = false →
      ∃ value, p.baseline = some value ∧ (t.accept b).bound? e p.name = some value := by
    intro p hp hfree
    have hmem := mem_freeParameters.mpr ⟨hp, hfree⟩
    obtain ⟨a, -, -, value, hbaseline, -⟩ := exists_right_of_mem hall hmem
    exact ⟨value, hbaseline, Trial.bound?_of_assigned
      ((accept_submitted hnames hall ht).mpr ⟨p, hmem, rfl, hbaseline⟩)⟩
  have hcovered : ∀ p ∈ e.spec.parameters, ((t.accept b).bound? e p.name).isSome := by
    intro p hp
    cases hdegenerate : p.isDegenerate with
    | true =>
      rw [accept_submitted_single hnames hall ht hp hdegenerate]
      rfl
    | false =>
      obtain ⟨value, -, hvalue⟩ := hchoice p hp hdegenerate
      rw [hvalue]
      rfl
  obtain ⟨bindings, hbindings⟩ := Trial.bindings_ok_iff.mpr hcovered
  have hget := Trial.bindings_get? hbindings
  refine ⟨bindings, hbindings, ?_, ?_, ?_⟩
  · intro p hp hfree
    rw [hget]
    exact hchoice p hp hfree
  · intro p hp hdegenerate
    rw [hget]
    exact accept_submitted_single hnames hall ht hp hdegenerate
  · intro name value hvalue
    rw [hget] at hvalue
    cases hown : (t.accept b).assigned.get? name with
    | some _ =>
      obtain ⟨p, hp, hname, -⟩ := (accept_submitted hnames hall ht).mp hown
      exact ⟨p, (mem_freeParameters.mp hp).1, hname⟩
    | none =>
      rw [Trial.bound?_of_unassigned hown] at hvalue
      obtain ⟨p, hp, -⟩ := Option.bind_eq_some_iff.mp hvalue
      exact ⟨p, mem_of_parameter? hp⟩

end Submitted

/-- The submitted baseline is written, read and given a location without loss: the trial that takes
it over binds every parameter to its baseline. -/
theorem submission_baseline_survives (hnames : (e.spec.parameters.map Parameter.name).Nodup)
    (htemplate : e.spec.trialTemplate.spec.assignments = []) (h : e.submission = .ok s)
    (hb : s.baseline = some b) (url : String) :
    ∃ received : Suggestion, Record.ofText (Record.toText b) = .ok received ∧
      ∃ bindings, (e.newTrial.accept { received with selfUrl := url }).bindings e = .ok bindings ∧
        e.BindsBaseline bindings := by
  have hall := baseline_isSubmitted h hb
  refine ⟨_, Suggestion.ofText_toText (submitted_isRead hall), ?_⟩
  have hlocated : List.Forall₂ Parameter.IsSubmittedAs e.freeParameters
      ({ b with selfUrl := url } : Suggestion).assignments := hall
  exact accept_submitted_bindings hnames hlocated (t := e.newTrial) htemplate

theorem sample_baseline_survives :
    (sampleExperiment.spec.parameters.map Parameter.name).Nodup ∧
      ∃ b received : Suggestion, sampleExperiment.submission = .ok sampleSubmission ∧
        sampleSubmission.baseline = some b ∧ Record.ofText (Record.toText b) = .ok received ∧
        ∃ bindings, (sampleExperiment.newTrial.accept
            { received with selfUrl := "https://api.test/trials/1" }).bindings sampleExperiment =
              .ok bindings ∧
          bindings.get? "replicas" = some (.int 2) ∧
          bindings.get? "mode" = some (.string "safe") ∧ bindings.get? "zone" = some (.int 3) := by
  have hnames : (sampleExperiment.spec.parameters.map Parameter.name).Nodup := by decide
  obtain ⟨received, hreceived, bindings, hbindings, hchoice, hsingle, -⟩ :=
    submission_baseline_survives hnames rfl sample_submission rfl "https://api.test/trials/1"
  obtain ⟨replicas, hvalue, hreplicas⟩ := hchoice (.integer "replicas" 1 5 2) (by decide) rfl
  obtain rfl : _ = replicas := Option.some.inj hvalue
  obtain ⟨mode, hvalue, hmode⟩ :=
    hchoice (.categorical "mode" ["fast", "safe"] "safe") (by decide) rfl
  obtain rfl : _ = mode := Option.some.inj hvalue
  have hzone := hsingle { name := "zone", min := 3, max := 3 } (by decide) rfl
  exact ⟨hnames, _, received, sample_submission, rfl, hreceived, bindings, hbindings, hreplicas,
    hmode, hzone⟩

end Experiment

end WorkloadTuning
