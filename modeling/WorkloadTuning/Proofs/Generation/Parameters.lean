import WorkloadTuning.Proofs.Generation.Fields
import WorkloadTuning.Service.Experiment

/-! The parameters of the fields that were found. A field's parameters are named by its keys, so the
names in patches are names of parameters; each parameter has a baseline that it admits. -/

namespace WorkloadTuning

/-! ### Integers of 32 bits -/

theorem toInt_clampInt32 (i : Int) :
    (clampInt32 i).toInt = max (-2147483648) (min 2147483647 i) := by
  rw [clampInt32, Int32.toInt_ofInt_of_le (by omega) (by omega)]

theorem clampInt32_mono {i j : Int} (h : i ≤ j) : clampInt32 i ≤ clampInt32 j := by
  rw [Int32.le_iff_toInt_le, toInt_clampInt32, toInt_clampInt32]
  omega

theorem toInt_max (a b : Int32) : (max a b).toInt = max a.toInt b.toInt := by
  rw [Int.max_def]
  show (if a ≤ b then b else a).toInt = _
  simp only [Int32.le_iff_toInt_le]
  split <;> rfl

/-! ### Baselines -/

/-- The baseline is one of the values, or lies within bounds that leave a choice. -/
structure Parameter.IsSound (p : Parameter) : Prop where
  categorical : p.values ≠ [] → ∃ value ∈ p.values, p.baseline = some (.string value)
  integer : p.values = [] → p.min < p.max ∧
    ∃ value, p.baseline = some (.int value) ∧ p.min ≤ value ∧ value ≤ p.max

theorem Parameter.integer_isSound {name : String} {min max baseline : Int32} (h : min < max)
    (hmin : min ≤ baseline) (hmax : baseline ≤ max) : (integer name min max baseline).IsSound where
  categorical hne := absurd rfl hne
  integer _ := ⟨h, baseline, rfl, hmin, hmax⟩

theorem Parameter.categorical_isSound {name baseline : String} {values : List String}
    (h : baseline ∈ values) : (categorical name values baseline).IsSound where
  categorical _ := ⟨baseline, h, rfl⟩
  integer hnil := by
    rw [show values = [] from hnil] at h
    simp at h

theorem ReplicaField.parameters_isSound (f : ReplicaField) (namer : Namer) :
    ∀ p ∈ f.parameters namer, p.IsSound := by
  intro p hp
  simp only [ReplicaField.parameters, ReplicaField.baseline?] at hp
  generalize f.value.getD 1 = value at hp
  by_cases hpos : (0 : Int32) < value
  · rw [if_pos hpos] at hp
    obtain rfl := List.mem_singleton.mp hp
    have hvalue : 1 ≤ value.toInt := Int32.lt_iff_toInt_lt.mp hpos
    have hmax := toInt_max value 5
    have hfive : (5 : Int32).toInt = 5 := by decide
    have hone : (1 : Int32).toInt = 1 := by decide
    refine Parameter.integer_isSound ?_ ?_ ?_
    · rw [Int32.lt_iff_toInt_lt]
      omega
    · rw [Int32.le_iff_toInt_le]
      omega
    · rw [Int32.le_iff_toInt_le]
      omega
  · rw [if_neg hpos] at hp
    simp at hp

/-- Bounds within 32 bits that are widened to a positive value keep a choice, and the value's
nearest integer of 32 bits lies within them. -/
theorem Bounds.including_clamped {b : Bounds} (value : Int) (hmin : 0 < b.min) (h : b.min < b.max)
    (hmax : b.max ≤ 2147483647) :
    clampInt32 (b.including value).min < clampInt32 (b.including value).max ∧
      clampInt32 (b.including value).min ≤ clampInt32 value ∧
        clampInt32 value ≤ clampInt32 (b.including value).max := by
  refine ⟨?_, clampInt32_mono (Int.min_le_right _ _), clampInt32_mono (Int.le_max_right _ _)⟩
  rw [Int32.lt_iff_toInt_lt, toInt_clampInt32, toInt_clampInt32]
  simp only [Bounds.including]
  omega

theorem ContainerField.parameters_isSound (f : ContainerField) (namer : Namer) :
    ∀ p ∈ f.parameters namer, p.IsSound := by
  intro p hp
  obtain ⟨b, hb, rfl⟩ := List.mem_map.mp hp
  have hbounds : 0 < b.bounds.min ∧ b.bounds.min < b.bounds.max ∧ b.bounds.max ≤ 2147483647 := by
    rcases (baseline_cases hb).2 with ⟨-, -, h⟩ | ⟨-, -, h⟩
    · rw [h]; decide
    · rw [h]; decide
  obtain ⟨hmin, hlt, hmax⟩ := hbounds
  obtain ⟨hchoice, hlo, hhi⟩ := Bounds.including_clamped b.value hmin hlt hmax
  exact Parameter.integer_isSound hchoice hlo hhi

theorem VariableField.parameters_isSound (f : VariableField) (namer : Namer) :
    ∀ p ∈ f.parameters namer, p.IsSound := by
  intro p hp
  unfold VariableField.parameters at hp
  split at hp
  · simp at hp
  · next first rest hvalues =>
    split at hp
    · obtain rfl := List.mem_singleton.mp hp
      exact Parameter.categorical_isSound (by rw [hvalues]; exact List.mem_cons_self)
    · next value _ =>
      obtain rfl := List.mem_singleton.mp hp
      apply Parameter.categorical_isSound
      split
      · next h => exact List.contains_iff_mem.mp h
      · simp

theorem Parameter.IsSound.not_degenerate {p : Parameter} (h : p.IsSound) :
    p.isDegenerate = false := by
  simp only [isDegenerate, Bool.and_eq_false_iff, beq_eq_false_iff_ne]
  by_cases hvalues : p.values = []
  · left
    intro heq
    have hlt := (h.integer hvalues).1
    rw [heq] at hlt
    exact Int32.lt_irrefl hlt
  · right
    simpa using hvalues

theorem Parameter.toService_name (p : Parameter) : p.toService.name = p.name := by
  rw [toService]
  split <;> rfl

/-- The baseline can be sent to the service. -/
theorem Parameter.IsSound.baselineAssignment {p : Parameter} (h : p.IsSound) :
    ∃ value, p.baseline = some value ∧ p.baselineAssignment =
      .ok (some { parameterName := p.name, value := .ofIntOrString value }) := by
  have hadmits : ∃ value, p.baseline = some value ∧ p.admits value = true := by
    by_cases hvalues : p.values = []
    · obtain ⟨-, value, hbaseline, hmin, hmax⟩ := h.integer hvalues
      exact ⟨_, hbaseline, by simp [admits, hmin, hmax]⟩
    · obtain ⟨value, hmem, hbaseline⟩ := h.categorical hvalues
      exact ⟨_, hbaseline, List.contains_iff_mem.mpr hmem⟩
  obtain ⟨value, hbaseline, hadmit⟩ := hadmits
  refine ⟨value, hbaseline, ?_⟩
  simp only [Parameter.baselineAssignment, hbaseline, hadmit, if_true]

/-! ### Names -/

namespace TunableField

/-- A field has one parameter for each of its keys, and it is named by that key. -/
theorem parameters_names (f : TunableField) (namer : Namer) :
    (f.parameters namer).map Parameter.name =
      f.nameKeys.map fun key => namer.name key.target key.path key.suffix := by
  cases f with
  | replicas f =>
    simp only [parameters, nameKeys, suffixes, ReplicaField.parameters, ReplicaField.suffixes]
    cases f.baseline? <;> rfl
  | container f =>
    simp [parameters, nameKeys, suffixes, ContainerField.parameters, ContainerField.suffixes,
      Parameter.integer, target, path, Function.comp_def]
  | envVar f =>
    simp only [parameters, nameKeys, suffixes, VariableField.parameters, VariableField.suffixes]
    split
    · next h => simp [h]
    · next h => split <;> simp [h, Parameter.categorical, target, path]

theorem parameters_isSound (f : TunableField) (namer : Namer) :
    ∀ p ∈ f.parameters namer, p.IsSound := by
  cases f with
  | replicas f => exact f.parameters_isSound namer
  | container f => exact f.parameters_isSound namer
  | envVar f => exact f.parameters_isSound namer

theorem mem_nameKeys {f : TunableField} {suffix : String} (h : suffix ∈ f.suffixes) :
    (⟨f.target, f.path, suffix⟩ : NameKey) ∈ f.nameKeys :=
  List.mem_map.mpr ⟨suffix, h, rfl⟩

end TunableField

namespace Generator

/-- Only the first parameter of each name is kept. -/
theorem parametersOf_fold (l found : List Parameter) (hnodup : (found.map Parameter.name).Nodup) :
    let result := l.foldl
      (fun found p => if found.any fun q => q.name == p.name then found else found ++ [p]) found
    (result.map Parameter.name).Nodup ∧ (∀ p ∈ result, p ∈ found ∨ p ∈ l) ∧
      ∀ p, p ∈ found ∨ p ∈ l → p.name ∈ result.map Parameter.name := by
  induction l generalizing found with
  | nil =>
    refine ⟨hnodup, fun p hp => .inl hp, ?_⟩
    rintro p (hp | hp)
    · exact List.mem_map_of_mem hp
    · simp at hp
  | cons q rest ih =>
    simp only [List.foldl_cons]
    by_cases hknown : found.any (fun r => r.name == q.name) = true
    · rw [if_pos hknown]
      obtain ⟨hresult, hmem, hnames⟩ := ih found hnodup
      refine ⟨hresult, fun p hp => (hmem p hp).imp id (List.mem_cons_of_mem _), ?_⟩
      rintro p (hp | hp)
      · exact hnames p (.inl hp)
      · rcases List.mem_cons.mp hp with rfl | hp
        · obtain ⟨r, hr, hsame⟩ := List.any_eq_true.mp hknown
          rw [← beq_iff_eq.mp hsame]
          exact hnames r (.inl hr)
        · exact hnames p (.inr hp)
    · rw [if_neg hknown]
      have hfresh : q.name ∉ found.map Parameter.name := by
        intro hmem
        obtain ⟨r, hr, hsame⟩ := List.mem_map.mp hmem
        exact hknown (List.any_eq_true.mpr ⟨r, hr, beq_iff_eq.mpr hsame⟩)
      have hnext : ((found ++ [q]).map Parameter.name).Nodup := by
        rw [List.map_append, List.nodup_append]
        refine ⟨hnodup, by simp, ?_⟩
        intro a ha b hb
        obtain rfl : b = q.name := by simpa using hb
        exact fun heq => hfresh (heq ▸ ha)
      obtain ⟨hresult, hmem, hnames⟩ := ih (found ++ [q]) hnext
      refine ⟨hresult, fun p hp => ?_, fun p hp => hnames p ?_⟩
      · rcases hmem p hp with h | h
        · rcases List.mem_append.mp h with h | h
          · exact .inl h
          · exact .inr (by simp [List.mem_singleton.mp h])
        · exact .inr (List.mem_cons_of_mem _ h)
      · rcases hp with hp | hp
        · exact .inl (List.mem_append_left _ hp)
        · rcases List.mem_cons.mp hp with rfl | hp
          · exact .inl (by simp)
          · exact .inr hp

variable (namer : Namer) (fields : List TunableField)

theorem parametersOf_names_nodup :
    ((parametersOf namer fields).map Parameter.name).Nodup :=
  (parametersOf_fold _ [] List.nodup_nil).1

theorem exists_of_mem_parametersOf {p : Parameter} (hp : p ∈ parametersOf namer fields) :
    ∃ f ∈ fields, p ∈ f.parameters namer := by
  rcases (parametersOf_fold _ [] List.nodup_nil).2.1 p hp with h | h
  · simp at h
  · exact List.mem_flatMap.mp h

theorem name_mem_parametersOf {f : TunableField} (hf : f ∈ fields) {suffix : String}
    (hsuffix : suffix ∈ f.suffixes) :
    namer.name f.target f.path suffix ∈ (parametersOf namer fields).map Parameter.name := by
  have hname : namer.name f.target f.path suffix ∈ (f.parameters namer).map Parameter.name := by
    rw [TunableField.parameters_names]
    exact List.mem_map.mpr ⟨_, TunableField.mem_nameKeys hsuffix, rfl⟩
  obtain ⟨p, hp, heq⟩ := List.mem_map.mp hname
  rw [← heq]
  refine (parametersOf_fold _ [] List.nodup_nil).2.2 p (.inr ?_)
  exact List.mem_flatMap.mpr ⟨f, hf, hp⟩

end Generator

end WorkloadTuning
