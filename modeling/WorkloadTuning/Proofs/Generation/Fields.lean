import WorkloadTuning.Generation.Generator
import WorkloadTuning.Proofs.Naming.Alphabet
import WorkloadTuning.Proofs.Outcome

/-! The fields that generation finds: each lies in a resource of the set, carries the reference of
that resource, and has suffixes to be named by. -/

namespace WorkloadTuning

theorem exists_of_mem_filterMap_mapM {ε α β : Type} {g : α → Except ε (Option β)} {l : List α}
    {r : List (Option β)} (h : l.mapM g = .ok r) {b : β} (hb : b ∈ r.filterMap id) :
    ∃ a ∈ l, g a = .ok (some b) := by
  obtain ⟨o, ho, hsome⟩ := List.mem_filterMap.mp hb
  obtain rfl : o = some b := hsome
  exact exists_of_mem_mapM h ho

/-! ### The fields of one selector -/

namespace ReplicaSelector

variable {s : ReplicaSelector} {target : ObjectReference} {path : FieldPath} {f : ReplicaField}

theorem fieldAt_eq_some {value : Option Json} (h : s.fieldAt target path value = .ok (some f)) :
    f.target = target ∧ f.path = path := by
  unfold fieldAt at h
  split at h
  · split at h
    · obtain rfl := Option.some.inj (Except.ok.inj h)
      exact ⟨rfl, rfl⟩
    · cases h
  · split at h
    · split at h
      · obtain rfl := Option.some.inj (Except.ok.inj h)
        exact ⟨rfl, rfl⟩
      · contradiction
    · contradiction

theorem exists_of_mem_fields {r : Resource} {found : List ReplicaField} (h : s.fields r = .ok found)
    (hf : f ∈ found) : ∃ path places place, FieldPath.parse s.path = .ok path ∧
      path.expand r.tree = .ok places ∧ place ∈ places ∧
      s.fieldAt r.target place.1 place.2 = .ok (some f) := by
  obtain ⟨path, hpath, h⟩ := bind_eq_ok.mp h
  obtain ⟨places, hplaces, h⟩ := bind_eq_ok.mp h
  obtain ⟨fields, hfields, h⟩ := bind_eq_ok.mp h
  obtain rfl := Except.ok.inj h
  obtain ⟨place, hmem, hplace⟩ := exists_of_mem_filterMap_mapM hfields hf
  exact ⟨path, places, place, mapError_eq_ok.mp hpath, mapError_eq_ok.mp hplaces, hmem, hplace⟩

end ReplicaSelector

namespace ContainerSelector

variable {s : ContainerSelector} {target : ObjectReference} {path : FieldPath}
  {f : ContainerField}

theorem fieldAt_eq_some {container : Json} (h : s.fieldAt target path container = .ok (some f)) :
    f.target = target ∧ f.path = path := by
  obtain ⟨cpu, -, h⟩ := bind_eq_ok.mp h
  obtain ⟨memory, -, h⟩ := bind_eq_ok.mp h
  obtain ⟨units, -, h⟩ := bind_eq_ok.mp h
  dsimp only at h
  split at h
  · cases h
  · obtain rfl := Option.some.inj (Except.ok.inj h)
    exact ⟨rfl, rfl⟩

theorem exists_of_mem_fields {r : Resource} {found : List ContainerField}
    (h : s.fields r = .ok found) (hf : f ∈ found) :
    ∃ path places place, FieldPath.parse s.path = .ok path ∧
      (path.push .wildcard).expand r.tree = .ok places ∧ place ∈ places ∧
      s.fieldAt r.target place.1 (place.2.getD .null) = .ok (some f) := by
  obtain ⟨path, hpath, h⟩ := bind_eq_ok.mp h
  obtain ⟨places, hplaces, h⟩ := bind_eq_ok.mp h
  obtain ⟨fields, hfields, h⟩ := bind_eq_ok.mp h
  obtain rfl := Except.ok.inj h
  obtain ⟨place, hmem, hplace⟩ := exists_of_mem_filterMap_mapM hfields hf
  exact ⟨path, places, place, mapError_eq_ok.mp hpath, mapError_eq_ok.mp hplaces, hmem, hplace⟩

end ContainerSelector

namespace VariableSelector

variable {s : VariableSelector} {target : ObjectReference} {path : FieldPath} {f : VariableField}

theorem fieldAt_eq_some {container : Json} (h : s.fieldAt target path container = .ok (some f)) :
    f.target = target ∧ f.path = path ∧ f.name = s.name ∧ f.values = s.values := by
  unfold fieldAt at h
  split at h
  · split at h
    · obtain rfl := Option.some.inj (Except.ok.inj h)
      exact ⟨rfl, rfl, rfl, rfl⟩
    · cases h
  · split at h
    · obtain rfl := Option.some.inj (Except.ok.inj h)
      exact ⟨rfl, rfl, rfl, rfl⟩
    · obtain rfl := Option.some.inj (Except.ok.inj h)
      exact ⟨rfl, rfl, rfl, rfl⟩
    · split at h
      · cases h
      · obtain rfl := Option.some.inj (Except.ok.inj h)
        exact ⟨rfl, rfl, rfl, rfl⟩
    · contradiction

theorem exists_of_mem_fields {r : Resource} {found : List VariableField}
    (h : s.fields r = .ok found) (hf : f ∈ found) :
    s.name ≠ "" ∧ ∃ path places place, FieldPath.parse s.path = .ok path ∧
      (path.push .wildcard).expand r.tree = .ok places ∧ place ∈ places ∧
      s.fieldAt r.target place.1 (place.2.getD .null) = .ok (some f) := by
  simp only [fields] at h
  split at h
  · contradiction
  · next hname =>
    split at h
    · obtain rfl := Except.ok.inj h
      simp at hf
    · obtain ⟨path, hpath, h⟩ := bind_eq_ok.mp h
      obtain ⟨places, hplaces, h⟩ := bind_eq_ok.mp h
      obtain ⟨fields, hfields, h⟩ := bind_eq_ok.mp h
      obtain rfl := Except.ok.inj h
      obtain ⟨place, hmem, hplace⟩ := exists_of_mem_filterMap_mapM hfields hf
      exact ⟨by simpa using hname, path, places, place, mapError_eq_ok.mp hpath,
        mapError_eq_ok.mp hplaces, hmem, hplace⟩

end VariableSelector

/-! ### The fields of all selectors -/

/-- What holds of every field that is found in the set. -/
structure TunableField.IsFound (set : ResourceSet) (f : TunableField) : Prop where
  exists_resource : ∃ r ∈ set.resources, r.target = f.target
  suffixes_ne_nil : f.suffixes ≠ []
  suffix_ne_empty : ∀ suffix ∈ f.suffixes, suffix ≠ ""

theorem ReplicaField.suffix_ne_empty (f : ReplicaField) : ∀ suffix ∈ f.suffixes, suffix ≠ "" := by
  intro suffix hsuffix
  unfold ReplicaField.suffixes at hsuffix
  split at hsuffix
  · rw [List.mem_singleton.mp hsuffix]
    decide
  · simp at hsuffix

/-- What is tuned of a container: a resource of positive value, with the unit and the bounds that
belong to it. -/
theorem ContainerField.baseline_cases {f : ContainerField} {b : ResourceBaseline}
    (h : b ∈ f.baselines) : 0 < b.value ∧
      (b.suffix = "cpu" ∧ b.unit = "m" ∧ b.bounds = cpuBounds ∨
        b.suffix = "memory" ∧ b.unit = f.unit.suffix ∧ b.bounds = memoryBounds) := by
  have hone : ∀ {suffix unit bounds value}, 0 < bounds.min →
      baselineOf? f.synthesized suffix unit bounds value = some b →
        0 < b.value ∧ b.suffix = suffix ∧ b.unit = unit ∧ b.bounds = bounds := by
    intro suffix unit bounds value hmin hb
    cases value with
    | none =>
      simp only [baselineOf?] at hb
      split at hb
      · obtain rfl := Option.some.inj hb
        exact ⟨hmin, rfl, rfl, rfl⟩
      · contradiction
    | some value =>
      simp only [baselineOf?] at hb
      split at hb
      · next hpos =>
        obtain rfl := Option.some.inj hb
        exact ⟨hpos, rfl, rfl, rfl⟩
      · contradiction
  simp only [baselines, List.mem_append, Option.mem_toList] at h
  rcases h with h | h
  · obtain ⟨hpos, hrest⟩ := hone (by decide) h
    exact ⟨hpos, .inl hrest⟩
  · obtain ⟨hpos, hrest⟩ := hone (by decide) h
    exact ⟨hpos, .inr hrest⟩

theorem ContainerField.suffix_ne_empty (f : ContainerField) :
    ∀ suffix ∈ f.suffixes, suffix ≠ "" := by
  intro suffix hsuffix
  obtain ⟨b, hb, rfl⟩ := List.mem_map.mp hsuffix
  rcases (baseline_cases hb).2 with ⟨h, -⟩ | ⟨h, -⟩
  · rw [h]; decide
  · rw [h]; decide

theorem VariableField.suffix_ne_empty {f : VariableField} (hname : f.name ≠ "") :
    ∀ suffix ∈ f.suffixes, suffix ≠ "" := by
  intro suffix hsuffix
  unfold VariableField.suffixes at hsuffix
  split at hsuffix
  · simp at hsuffix
  · rw [List.mem_singleton.mp hsuffix]
    exact Text.lower_ne_empty hname

namespace Selector

theorem fields_target {s : Selector} {r : Resource} {found : List TunableField}
    (h : s.fields r = .ok found) {f : TunableField} (hf : f ∈ found) :
    f.target = r.target ∧ ∀ suffix ∈ f.suffixes, suffix ≠ "" := by
  cases s with
  | replicas s =>
    obtain ⟨l, hl, rfl⟩ := map_eq_ok.mp h
    obtain ⟨g, hg, rfl⟩ := List.mem_map.mp hf
    obtain ⟨_, _, _, -, -, -, hplace⟩ := ReplicaSelector.exists_of_mem_fields hl hg
    exact ⟨(ReplicaSelector.fieldAt_eq_some hplace).1, ReplicaField.suffix_ne_empty g⟩
  | containers s =>
    obtain ⟨l, hl, rfl⟩ := map_eq_ok.mp h
    obtain ⟨g, hg, rfl⟩ := List.mem_map.mp hf
    obtain ⟨_, _, _, -, -, -, hplace⟩ := ContainerSelector.exists_of_mem_fields hl hg
    exact ⟨(ContainerSelector.fieldAt_eq_some hplace).1, ContainerField.suffix_ne_empty g⟩
  | envVar s =>
    obtain ⟨l, hl, rfl⟩ := map_eq_ok.mp h
    obtain ⟨g, hg, rfl⟩ := List.mem_map.mp hf
    obtain ⟨hname, _, _, _, -, -, -, hplace⟩ := VariableSelector.exists_of_mem_fields hl hg
    obtain ⟨htarget, -, hsame, -⟩ := VariableSelector.fieldAt_eq_some hplace
    exact ⟨htarget, VariableField.suffix_ne_empty (hsame ▸ hname)⟩

end Selector

namespace Generator

variable [RegexEngine]

theorem exists_of_mem_fieldsOf {matchers : List (Matcher × Selector)} {r : Resource}
    {found : List TunableField} (h : fieldsOf matchers r = .ok found) {f : TunableField}
    (hf : f ∈ found) : ∃ m ∈ matchers, m.1.selects r ∧ f.suffixes ≠ [] ∧
      ∃ fields, m.2.fields r = .ok fields ∧ f ∈ fields := by
  obtain ⟨lists, hlists, h⟩ := bind_eq_ok.mp h
  obtain rfl := Except.ok.inj h
  obtain ⟨part, hpart, hmem⟩ := List.mem_flatten.mp hf
  obtain ⟨m, hm, htunable⟩ := exists_of_mem_mapM hlists hpart
  obtain ⟨hmatcher, hselects⟩ := List.mem_filter.mp hm
  obtain ⟨fields, hfields, rfl⟩ := map_eq_ok.mp htunable
  obtain ⟨hfound, hsuffixes⟩ := List.mem_filter.mp hmem
  exact ⟨m, hmatcher, hselects, by simpa using hsuffixes, fields, hfields, hfound⟩

/-- The fields of a set are those of its resources, one after another. -/
theorem fields_eq_ok {g : Generator} {set : ResourceSet} {found : List TunableField} :
    g.fields set = .ok found ↔
    ∃ matchers parts, g.matchers = .ok matchers ∧
      List.Forall₂ (fun r part => fieldsOf matchers r = .ok part) set.resources parts ∧
      parts.flatten = found := by
  constructor
  · intro h
    obtain ⟨matchers, hmatchers, h⟩ := bind_eq_ok.mp h
    obtain ⟨parts, hparts, h⟩ := bind_eq_ok.mp h
    exact ⟨matchers, parts, hmatchers, mapM_eq_ok.mp hparts, Except.ok.inj h⟩
  · rintro ⟨matchers, parts, hmatchers, hparts, rfl⟩
    exact bind_eq_ok.mpr ⟨matchers, hmatchers,
      bind_eq_ok.mpr ⟨parts, mapM_eq_ok.mpr hparts, rfl⟩⟩

theorem exists_of_mem_fields {g : Generator} {set : ResourceSet} {found : List TunableField}
    (h : g.fields set = .ok found) {f : TunableField} (hf : f ∈ found) :
    ∃ matchers, g.matchers = .ok matchers ∧ ∃ r ∈ set.resources, ∃ fields,
      fieldsOf matchers r = .ok fields ∧ f ∈ fields := by
  obtain ⟨matchers, parts, hmatchers, hparts, rfl⟩ := fields_eq_ok.mp h
  obtain ⟨part, hpart, hmem⟩ := List.mem_flatten.mp hf
  obtain ⟨r, hr, hfields⟩ := exists_left_of_mem hparts hpart
  exact ⟨matchers, hmatchers, r, hr, part, hfields, hmem⟩

theorem isFound_of_mem_fields {g : Generator} {set : ResourceSet} {found : List TunableField}
    (h : g.fields set = .ok found) {f : TunableField} (hf : f ∈ found) : f.IsFound set := by
  obtain ⟨_, -, r, hr, part, hpart, hmem⟩ := exists_of_mem_fields h hf
  obtain ⟨m, -, -, hsuffixes, fields, hfields, hfield⟩ := exists_of_mem_fieldsOf hpart hmem
  obtain ⟨htarget, hne⟩ := Selector.fields_target hfields hfield
  exact ⟨⟨r, hr, htarget.symm⟩, hsuffixes, hne⟩

end Generator

end WorkloadTuning
