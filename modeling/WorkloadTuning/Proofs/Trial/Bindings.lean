import WorkloadTuning.Patch.Rendering
import WorkloadTuning.Proofs.Dict
import WorkloadTuning.Proofs.Generation.Parameters
import WorkloadTuning.Service.Trial

/-! The values of a trial. What is bound for its patches is what it assigns, of several values for a
name the last, and for the other parameters the one value that they have. What is recorded of it is
the first value for a name. -/

namespace WorkloadTuning

/-! ### Parameters by name -/

namespace Experiment

variable {e : Experiment}

theorem mem_of_parameter? {name : String} {p : Parameter} (h : e.parameter? name = some p) :
    p ∈ e.spec.parameters ∧ p.name = name :=
  ⟨List.mem_of_find?_eq_some h, by simpa using List.find?_some (show _ = some p from h)⟩

theorem exists_parameter? {p : Parameter} (hp : p ∈ e.spec.parameters) :
    ∃ first, e.parameter? p.name = some first := by
  cases hfound : e.parameter? p.name with
  | none => exact absurd (beq_self_eq_true p.name) (List.find?_eq_none.mp hfound p hp)
  | some first => exact ⟨first, rfl⟩

theorem parameter?_of_mem (hnames : (e.spec.parameters.map Parameter.name).Nodup) {p : Parameter}
    (hp : p ∈ e.spec.parameters) : e.parameter? p.name = some p := by
  obtain ⟨first, hfirst⟩ := exists_parameter? hp
  obtain ⟨hmem, hname⟩ := mem_of_parameter? hfirst
  rw [hfirst, List.inj_on_of_nodup_map hnames hmem hp hname]

end Experiment

/-! ### Bindings -/

/-- The value of a parameter without a choice. -/
def Parameter.onlyValue? (p : Parameter) : Option IntOrString :=
  if p.isDegenerate then some (.int p.min) else none

namespace Trial

/-- The value of the name, or else that of the first parameter of the name if it has no choice. -/
def boundTo? (bindings : Bindings) (parameters : List Parameter) (name : String) :
    Option IntOrString :=
  (bindings.get? name).or
    ((parameters.find? fun p => p.name == name).bind Parameter.onlyValue?)

section Rest
variable {t : Trial} {bindings : Bindings} {p : Parameter} (rest : List Parameter) (name : String)

theorem boundTo?_of_contains (h : bindings.contains p.name) :
    boundTo? bindings (p :: rest) name = boundTo? bindings rest name := by
  rw [boundTo?, boundTo?, List.find?_cons]
  split
  · next heq =>
    obtain ⟨value, hvalue⟩ := Option.isSome_iff_exists.mp h
    rw [← beq_iff_eq.mp heq, hvalue]
    rfl
  · rfl

theorem boundTo?_of_new (hnew : bindings.get? p.name = none) (h : p.isDegenerate) :
    boundTo? bindings (p :: rest) name =
      boundTo? (bindings.insert p.name (.int p.min)) rest name := by
  rw [boundTo?, boundTo?, List.find?_cons, Dict.get?_insert]
  by_cases heq : p.name = name
  · subst heq
    simp [hnew, Parameter.onlyValue?, h]
  · rw [if_neg (Ne.symm heq), beq_eq_false_iff_ne.mpr heq]

theorem boundTo?_of_choice (hnew : bindings.get? p.name = none) (h : p.isDegenerate = false) :
    boundTo? bindings (p :: rest) p.name = none := by
  simp [boundTo?, hnew, Parameter.onlyValue?, h]

theorem bindRest_get? {parameters : List Parameter} {start : Bindings}
    (h : t.bindRest start parameters = .ok bindings) :
    bindings.get? name = boundTo? start parameters name := by
  induction parameters generalizing start with
  | nil =>
    obtain rfl := Except.ok.inj h
    simp [boundTo?]
  | cons p rest ih =>
    rw [bindRest] at h
    split at h
    · next hbound => rw [ih h, boundTo?_of_contains rest name hbound]
    · next hnew =>
      have hnone : start.get? p.name = none := by simpa [Dict.contains] using hnew
      split at h
      · next hsingle => rw [ih h, boundTo?_of_new rest name hnone hsingle]
      · cases h

theorem bindRest_ok_iff (t : Trial) {parameters : List Parameter} {start : Bindings} :
    (∃ bindings, t.bindRest start parameters = .ok bindings) ↔
      ∀ p ∈ parameters, (boundTo? start parameters p.name).isSome := by
  induction parameters generalizing start with
  | nil => simp [bindRest]
  | cons p rest ih =>
    rw [bindRest, List.forall_mem_cons]
    split
    · next hbound =>
      have hself : (boundTo? start (p :: rest) p.name).isSome := by
        obtain ⟨value, hvalue⟩ := Option.isSome_iff_exists.mp hbound
        rw [boundTo?, hvalue]
        rfl
      rw [and_iff_right hself]
      simp only [boundTo?_of_contains rest _ hbound]
      exact ih
    · next hnew =>
      have hnone : start.get? p.name = none := by simpa [Dict.contains] using hnew
      split
      · next hsingle =>
        have hself : (boundTo? start (p :: rest) p.name).isSome := by
          simp [boundTo?, Parameter.onlyValue?, hsingle]
        rw [and_iff_right hself]
        simp only [boundTo?_of_new rest _ hnone hsingle]
        exact ih
      · next hchoice =>
        have hself := boundTo?_of_choice rest hnone (Bool.eq_false_iff.mpr hchoice)
        simp [hself]

theorem bindRest_of_bound {bindings : Bindings} {parameters : List Parameter}
    (h : ∀ p ∈ parameters, ∃ value, bindings.get? p.name = some value) :
    t.bindRest bindings parameters = .ok bindings := by
  induction parameters with
  | nil => rfl
  | cons p rest ih =>
    obtain ⟨value, hvalue⟩ := h p List.mem_cons_self
    have hcontains : bindings.contains p.name = true := by
      simp [Dict.contains, hvalue]
    rw [bindRest, if_pos hcontains]
    exact ih fun q hq => h q (List.mem_cons_of_mem _ hq)

end Rest

section Bindings
variable {t : Trial} {e : Experiment} {bindings : Bindings}

theorem assigned_isSome_iff {name : String} :
    (t.assigned.get? name).isSome ↔ ∃ a ∈ t.spec.assignments, a.name = name := by
  rw [assigned, Dict.get?_ofList, List.lookup_isSome_iff]
  simp [@eq_comm _ name]

theorem exists_assigned {name : String} (h : ∃ a ∈ t.spec.assignments, a.name = name) :
    ∃ value, t.assigned.get? name = some value :=
  Option.isSome_iff_exists.mp (assigned_isSome_iff.mpr h)

/-- A trial that assigns every parameter binds what it assigns. -/
theorem bindings_of_bound
    (h : ∀ p ∈ e.spec.parameters, ∃ value, t.assigned.get? p.name = some value) :
    t.bindings e = .ok t.assigned :=
  bindRest_of_bound h

/-- The value of a name: the last that the trial assigns, or that of a parameter without a choice. -/
def bound? (t : Trial) (e : Experiment) (name : String) : Option IntOrString :=
  boundTo? t.assigned e.spec.parameters name

theorem bound?_of_assigned {name : String} {value : IntOrString}
    (h : t.assigned.get? name = some value) : t.bound? e name = some value := by
  rw [bound?, boundTo?, h]
  rfl

theorem bound?_of_unassigned {name : String} (h : t.assigned.get? name = none) :
    t.bound? e name = (e.parameter? name).bind Parameter.onlyValue? := by
  rw [bound?, boundTo?, h]
  rfl

theorem bindings_get? (h : t.bindings e = .ok bindings) (name : String) :
    bindings.get? name = t.bound? e name :=
  bindRest_get? name h

theorem bindings_ok_iff :
    (∃ bindings, t.bindings e = .ok bindings) ↔
      ∀ p ∈ e.spec.parameters, (t.bound? e p.name).isSome :=
  bindRest_ok_iff t

theorem bound?_isSome_iff {name : String} :
    (t.bound? e name).isSome ↔ (∃ a ∈ t.spec.assignments, a.name = name) ∨
      ∃ p, e.parameter? name = some p ∧ p.isDegenerate := by
  have honly : ((e.parameter? name).bind Parameter.onlyValue?).isSome ↔
      ∃ p, e.parameter? name = some p ∧ p.isDegenerate := by
    cases e.parameter? name <;> simp [Parameter.onlyValue?]
  rw [← assigned_isSome_iff, ← honly]
  simp [bound?, boundTo?, Experiment.parameter?]

end Bindings

end Trial

/-! ### Suggested values -/

namespace NumberOrString

/-- How a suggested value is kept: a text as it is, a number by its integer part, within 32 bits. -/
def IsKeptAs : NumberOrString → IntOrString → Prop
  | string s, value => value = .string s
  | number (.int i), value => ∃ j, value = .int j ∧
      j.toInt = max (-2147483648) (min 2147483647 i)
  | number (.float x), value => ∃ j, value = .int j ∧
      j.toInt = max (-2147483648) (min 2147483647
        (x.truncate (-9223372036854775808) 9223372036854775807))

theorem toIntOrString_isKept (v : NumberOrString) : v.IsKeptAs v.toIntOrString := by
  cases v with
  | string s => rfl
  | number n =>
    cases n with
    | int i =>
      refine ⟨_, rfl, ?_⟩
      rw [toInt_clampInt32, Number.toInt64, clampInt64]
      omega
    | float x => exact ⟨_, rfl, toInt_clampInt32 _⟩

/-- What is sent of a value is kept as that value. -/
theorem toIntOrString_ofIntOrString (v : IntOrString) : (ofIntOrString v).toIntOrString = v := by
  cases v with
  | int i =>
    have hmin := i.le_toInt
    have hmax := i.toInt_lt
    refine congrArg IntOrString.int (Int32.toInt_inj.mp ?_)
    rw [toInt_clampInt32, Number.toInt64, clampInt64]
    omega
  | string s => rfl

end NumberOrString

namespace Trial

/-- The assignments as names with values. -/
def pairs (t : Trial) : List (String × IntOrString) :=
  t.spec.assignments.map fun a => (a.name, a.value)

theorem assigned_get? (t : Trial) (name : String) :
    t.assigned.get? name = t.pairs.reverse.lookup name :=
  Dict.get?_ofList t.pairs name

theorem assignment?_eq_lookup (t : Trial) (name : String) :
    t.assignment? name = t.pairs.lookup name := by
  rw [assignment?, pairs]
  induction t.spec.assignments with
  | nil => rfl
  | cons a rest ih =>
    rw [List.find?_cons, List.map_cons, Dict.lookup_cons_ite, ← ih]
    by_cases h : a.name = name
    · simp [h]
    · rw [if_neg (Ne.symm h), beq_eq_false_iff_ne.mpr h]

end Trial

namespace Service.Suggestion

/-- The suggested values as they are kept. -/
def pairs (s : Suggestion) : List (String × IntOrString) :=
  s.assignments.map fun a => (a.parameterName, a.value.toIntOrString)

/-- The suggestion has at most one value for a parameter. -/
def AssignsOnce (s : Suggestion) : Prop :=
  (s.assignments.map Assignment.parameterName).Nodup

theorem AssignsOnce.pairs_nodup {s : Suggestion} (h : s.AssignsOnce) :
    (s.pairs.map Prod.fst).Nodup := by
  rw [pairs, List.map_map]
  exact h

end Service.Suggestion

namespace Trial

theorem accept_pairs (t : Trial) (s : Service.Suggestion) :
    (t.accept s).pairs = t.pairs ++ s.pairs := by
  simp only [pairs, Service.Suggestion.pairs, accept, updateStatus, List.map_append, List.map_map]
  rfl

section Accept
variable {e : Experiment} {s : Service.Suggestion} {a : Service.Assignment}

/-- The suggested value is what the trial assigns last. -/
theorem accept_assigned (t : Trial) (hs : s.AssignsOnce) (ha : a ∈ s.assignments) :
    (t.accept s).assigned.get? a.parameterName = some a.value.toIntOrString := by
  have hmem : (a.parameterName, a.value.toIntOrString) ∈ s.pairs := List.mem_map_of_mem ha
  have hlookup : s.pairs.reverse.lookup a.parameterName = some a.value.toIntOrString := by
    rw [← Dict.get?_ofList]
    exact (Dict.get?_ofList_eq_some hs.pairs_nodup).mpr hmem
  rw [assigned_get?, accept_pairs, List.reverse_append, List.lookup_append, hlookup]
  rfl

/-- What the trial assigned before is found first. -/
theorem accept_assignment? (t : Trial) (hs : s.AssignsOnce) (ha : a ∈ s.assignments) :
    (t.accept s).assignment? a.parameterName =
      some ((t.assignment? a.parameterName).getD a.value.toIntOrString) := by
  have hmem : (a.parameterName, a.value.toIntOrString) ∈ s.pairs := List.mem_map_of_mem ha
  rw [assignment?_eq_lookup, assignment?_eq_lookup, accept_pairs, List.lookup_append,
    Dict.lookup_of_mem hs.pairs_nodup hmem]
  cases t.pairs.lookup a.parameterName <;> rfl

/-- With every suggested parameter, patches get the value that is suggested for it, and the rest is
bound as before. The trial's record shows that value as well, unless the experiment's template
assigns the parameter: then it shows the template's value. -/
theorem newTrial_accept_values (e : Experiment) {s : Service.Suggestion} (hs : s.AssignsOnce) :
    ((∃ bindings, (e.newTrial.accept s).bindings e = .ok bindings) ↔
      ∀ p ∈ e.spec.parameters, (∃ a ∈ s.assignments, a.parameterName = p.name) ∨
        (∃ a ∈ e.spec.trialTemplate.spec.assignments, a.name = p.name) ∨
        ∃ first, e.parameter? p.name = some first ∧ first.isDegenerate) ∧
    ∀ a ∈ s.assignments, ∃ value, a.value.IsKeptAs value ∧
      (∀ bindings, (e.newTrial.accept s).bindings e = .ok bindings →
        bindings.get? a.parameterName = some value) ∧
      (e.newTrial.accept s).assignment? a.parameterName =
        some ((e.newTrial.assignment? a.parameterName).getD value) := by
  constructor
  · rw [bindings_ok_iff]
    refine forall₂_congr fun p _ => ?_
    -- What is suggested comes behind what the template assigns.
    have hassignments : (e.newTrial.accept s).spec.assignments =
        e.spec.trialTemplate.spec.assignments ++
          s.assignments.map fun a => ⟨a.parameterName, a.value.toIntOrString⟩ := rfl
    rw [bound?_isSome_iff, hassignments]
    simp only [List.mem_append, or_and_right, exists_or, List.mem_map, exists_exists_and_eq_and]
    rw [← or_assoc, or_comm (a := ∃ a ∈ s.assignments, _)]
  · intro a ha
    refine ⟨_, a.value.toIntOrString_isKept, ?_, accept_assignment? _ hs ha⟩
    intro bindings hbindings
    rw [bindings_get? hbindings, bound?_of_assigned (accept_assigned _ hs ha)]

end Accept

/-- An experiment with one parameter, whose template makes these assignments. -/
def sampleExperiment (assignments : List Assignment) : Experiment :=
  { metadata := { name := "web" }
    spec := {
      parameters := [{ name := "cpu", min := 100, max := 4000 }]
      trialTemplate := { spec := { assignments } } } }

def sampleSuggestion (cpu : Int) : Service.Suggestion :=
  { assignments := [{ parameterName := "cpu", value := .ofInt cpu }] }

theorem sample_accept_values : (sampleSuggestion 5000000000).AssignsOnce ∧
    let t := (sampleExperiment []).newTrial.accept (sampleSuggestion 5000000000)
    t.assignment? "cpu" = some (.int 2147483647) ∧
      ∃ bindings, t.bindings (sampleExperiment []) = .ok bindings ∧
        bindings.get? "cpu" = some (.int 2147483647) := by
  have hs : (sampleSuggestion 5000000000).AssignsOnce := List.nodup_singleton "cpu"
  obtain ⟨hsuccess, hvalues⟩ := newTrial_accept_values (sampleExperiment []) hs
  have hcovered : ∃ bindings, ((sampleExperiment []).newTrial.accept
      (sampleSuggestion 5000000000)).bindings (sampleExperiment []) = .ok bindings := by
    refine hsuccess.mpr fun p hp => .inl ⟨_, List.mem_singleton_self _, ?_⟩
    obtain rfl := List.mem_singleton.mp hp
    rfl
  obtain ⟨bindings, hbindings⟩ := hcovered
  obtain ⟨value, hkept, hbound, hrecord⟩ := hvalues _ (List.mem_singleton_self _)
  obtain ⟨j, rfl, hj⟩ := hkept
  obtain rfl : j = 2147483647 := Int32.toInt_inj.mp hj
  exact ⟨hs, hrecord, bindings, hbindings, hbound bindings hbindings⟩

/-- The suggested value is bound, but the trial's record still shows the template's. -/
theorem template_hides_value :
    let e := sampleExperiment [{ name := "cpu", value := .int 100 }]
    let t := e.newTrial.accept (sampleSuggestion 200)
    (sampleSuggestion 200).AssignsOnce ∧ t.assignment? "cpu" = some (.int 100) ∧
      ∃ bindings, t.bindings e = .ok bindings ∧ bindings.get? "cpu" = some (.int 200) :=
  ⟨List.nodup_singleton "cpu", by decide, Dict.ofList [("cpu", .int 200)], by decide, by decide⟩

end Trial

end WorkloadTuning
