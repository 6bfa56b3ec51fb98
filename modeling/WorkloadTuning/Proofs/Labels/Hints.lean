import WorkloadTuning.Proofs.Dict
import WorkloadTuning.Proofs.Labels.RoundTrip
import WorkloadTuning.Proofs.Selection.Criteria

/-! Hints. The labels of a hint are printed as a selector, which is read again when the generator is
run. With words for keys and values the text is read as the requirements it was printed from, and
the resources found are those that have the labels of the hint. -/

namespace WorkloadTuning

open Text
open RegexEngine (Documented IsChoice Meaning)

/-! ### Labels made of words -/

/-- The text has neither blanks nor what selectors are cut at. -/
def IsWord (text : String) : Prop :=
  ∀ c ∈ text.toList, isBlank c = false ∧ c ∉ [',', '(', ')', '!', '=']

instance : DecidablePred IsWord :=
  fun text => List.decidableBAll _ text.toList

theorem IsWord.not_mem {text : String} (h : IsWord text) {c : Char}
    (hc : c ∈ [',', '(', ')', '!', '=']) : c ∉ text.toList :=
  fun hmem => (h c hmem).2 hc

/-- Values may be empty. -/
def Labels.AreWords (labels : Labels) : Prop :=
  ∀ e ∈ labels.entries, e.1 ≠ "" ∧ IsWord e.1 ∧ IsWord e.2

instance : DecidablePred Labels.AreWords :=
  fun labels => List.decidableBAll _ labels.entries

namespace Requirement

variable {key value : String}

theorem isKey_of_isWord (hne : key ≠ "") (h : IsWord key) : isKey key :=
  isKey_iff.mpr ⟨fun hnil => hne (String.toList_eq_nil_iff.mp hnil), fun c hc => (h c hc).1⟩

theorem parse_equals_of_isWord (hne : key ≠ "") (hkey : IsWord key) (hvalue : IsWord value) :
    parse (equals key value).toText.toList = .ok (equals key value) := by
  have hbang : '!' ∉ value.toList := hvalue.not_mem (by decide)
  have hequals : '=' ∉ value.toList := hvalue.not_mem (by decide)
  have hblank : ' ' ∉ value.toList := fun hmem => absurd (hvalue ' ' hmem).1 (by decide)
  have hlegible : (equals key value).IsLegible := by
    refine ⟨hkey.not_mem (by decide), ?_, ?_⟩
    · exact fun hlast => hkey.not_mem (by decide) (List.mem_of_getLast? hlast)
    · intro hwithin
      rcases List.infix_cons_iff.mp hwithin with hprefix | hrest
      · exact hequals ((List.cons_prefix_cons.mp hprefix).2.subset List.mem_cons_self)
      · exact hequals (hrest.subset List.mem_cons_self)
  have hplain : IsPlain value.toList :=
    ⟨fun hwithin => hblank (hwithin.subset (by decide)),
      fun hwithin => hblank (hwithin.subset (by decide))⟩
  exact parse_equals (isKey_of_isWord hne hkey) hlegible
    (fun hwithin => hbang (hwithin.subset (by decide))) hplain
    (trim_of_forall fun c hc => (hvalue c hc).1)

end Requirement

namespace LabelSelector

variable {labels : Labels}

theorem parse_toText_ofLabels (h : labels.AreWords) :
    parse (ofLabels labels).toText = .ok (ofLabels labels) := by
  have hrequirements : ∀ r ∈ (ofLabels labels).requirements, ∃ key value,
      r = .equals key value ∧ key ≠ "" ∧ IsWord key ∧ IsWord value := by
    intro r hr
    obtain ⟨⟨key, value⟩, he, rfl⟩ := List.mem_map.mp hr
    exact ⟨key, value, rfl, h _ he⟩
  refine (parse_toText_eq_ok_iff ?_ (areParts_of_forall ?_)).mpr ?_
  · intro r hr
    obtain ⟨key, value, rfl, hne, hkey, -⟩ := hrequirements r hr
    exact Requirement.isKey_of_isWord hne hkey
  · intro part hpart c hc
    obtain ⟨r, hr, rfl⟩ := List.mem_map.mp hpart
    obtain ⟨key, value, rfl, -, hkey, hvalue⟩ := hrequirements r hr
    have hsub : [',', '(', ')'] ⊆ [',', '(', ')', '!', '='] := by decide
    rw [Requirement.toList_equals] at hc
    rcases List.mem_append.mp hc with hc | hc
    · exact fun hmem => (hkey c hc).2 (hsub hmem)
    rcases List.mem_append.mp hc with hc | hc
    · obtain rfl : c = '=' := by simpa using hc
      decide
    · exact fun hmem => (hvalue c hc).2 (hsub hmem)
  · intro r hr
    obtain ⟨key, value, rfl, hne, hkey, hvalue⟩ := hrequirements r hr
    exact Requirement.parse_equals_of_isWord hne hkey hvalue

theorem selects_ofLabels {other : Labels} : (ofLabels labels).selects other ↔
    ∀ key value, labels.get? key = some value → other.get? key = some value := by
  simp only [selects, ofLabels, List.all_map, List.all_eq_true, Function.comp, Requirement.holds,
    beq_iff_eq, Dict.get?_eq_some_iff (d := labels), Prod.forall]

end LabelSelector

/-! ### Selectors made from hints -/

/-- The resource is of the default groups and kinds and has all of the labels. -/
structure Resource.IsLabelled (labels : Labels) (r : Resource) : Prop where
  group : r.target.group = "apps" ∨ r.target.group = "extensions"
  kind : r.target.kind = "Deployment" ∨ r.target.kind = "StatefulSet"
  labels : ∀ key value, labels.get? key = some value → r.labels.get? key = some value

/-- The criteria can be read, and what is read selects the resources with the property. -/
def Criteria.SelectExactly [RegexEngine] (c : Criteria) (P : Resource → Prop) : Prop :=
  ∃ m, c.matcher = .ok m ∧ ∀ r, m.selects r ↔ P r

theorem Criteria.exists_patternOf [RegexEngine] {Matches : Meaning} {pattern a b : String}
    (h : IsChoice Matches pattern a b) : ∃ found, patternOf pattern = .ok found := by
  unfold patternOf
  split
  · exact ⟨none, rfl⟩
  · obtain ⟨e, he⟩ := Option.isSome_iff_exists.mp h.compiles_anchored
    rw [anchored?, he]
    exact ⟨some e, rfl⟩

namespace Selector

variable {labels : Labels}

theorem selectExactly_of_labels [RegexEngine] {Matches : Meaning} (hengine : Documented Matches)
    (h : labels.AreWords) :
    Criteria.SelectExactly ⟨defaultGroup, defaultKind, (LabelSelector.ofLabels labels).toText⟩
      (Resource.IsLabelled labels) := by
  have hread := LabelSelector.parse_toText_ofLabels h
  obtain ⟨group, hgroup⟩ := Criteria.exists_patternOf hengine.defaultGroup
  obtain ⟨kind, hkind⟩ := Criteria.exists_patternOf hengine.defaultKind
  have hmatcher : Criteria.matcher
      ⟨defaultGroup, defaultKind, (LabelSelector.ofLabels labels).toText⟩ =
      .ok ⟨group, kind, .ofLabels labels⟩ := by
    simp only [Criteria.matcher, hgroup, hkind, hread]
    rfl
  refine ⟨_, hmatcher, fun r => ?_⟩
  have hgroup_ne : defaultGroup ≠ "" := by decide
  have hkind_ne : defaultKind ≠ "" := by decide
  rw [Criteria.matcher_selects_iff hengine (isPattern_of_isChoice hengine.defaultGroup)
    (isPattern_of_isChoice hengine.defaultKind) hmatcher]
  constructor
  · rintro ⟨hg, hk, read, hagain, hselects⟩
    rw [hread] at hagain
    obtain rfl := Except.ok.inj hagain
    exact ⟨(patternMatches_iff_of_isChoice hengine.defaultGroup).mp (hg hgroup_ne),
      (patternMatches_iff_of_isChoice hengine.defaultKind).mp (hk hkind_ne),
      LabelSelector.selects_ofLabels.mp hselects⟩
  · rintro ⟨hg, hk, hlabels⟩
    exact ⟨fun _ => (patternMatches_iff_of_isChoice hengine.defaultGroup).mpr hg,
      fun _ => (patternMatches_iff_of_isChoice hengine.defaultKind).mpr hk,
      _, hread, LabelSelector.selects_ofLabels.mpr hlabels⟩

end Selector

namespace Generator

theorem selectors_forApplication (app : Application) :
    (forApplication app).selectors =
      (Selector.containers
        { criteria := criteriaOf (app.parameters.getD {}).containerResources }).applyDefaults ::
      (app.parameters.getD {}).replicas.toList.map fun hint =>
        (Selector.replicas { criteria := criteriaOf (some hint) }).applyDefaults := by
  have hparameters : app.applyDefaults.parameters = app.parameters := rfl
  unfold forApplication
  dsimp only
  rw [hparameters]
  cases (app.parameters.getD {}).replicas with
  | none => rfl
  | some hint => rfl

end Generator

/-- Labels made of words are read from the text of a selector as they were printed, and the
selectors that a generator makes from a hint with such labels select the resources that have all of
them. The first selector is for containers, the one behind it for replicas. -/
theorem Generator.hint_selects_labelled [RegexEngine] {Matches : Meaning}
    (hengine : Documented Matches) {labels : Labels} (h : labels.AreWords) :
    LabelSelector.parse (LabelSelector.ofLabels labels).toText = .ok (.ofLabels labels) ∧
      ∀ (app : Application) (hints : ParameterHints), app.parameters = some hints →
        (hints.containerResources = some ⟨labels⟩ →
          ∃ s, (forApplication app).selectors.head? = some (.containers s) ∧
            s.criteria.SelectExactly (Resource.IsLabelled labels)) ∧
        (hints.replicas = some ⟨labels⟩ →
          ∃ s, (forApplication app).selectors.tail = [.replicas s] ∧
            s.criteria.SelectExactly (Resource.IsLabelled labels)) := by
  refine ⟨LabelSelector.parse_toText_ofLabels h, fun app hints happ => ?_⟩
  rw [selectors_forApplication, happ]
  have hselect := Selector.selectExactly_of_labels hengine h
  constructor
  · intro hhint
    rw [Option.getD_some, hhint]
    exact ⟨_, rfl, hselect⟩
  · intro hhint
    rw [Option.getD_some, hhint]
    exact ⟨_, rfl, hselect⟩

/-- One of the labels has no value. -/
def canaryLabels : Labels where
  entries := [("canary", ""), ("tier", "web")]
  ordered := by decide

def canaryDeployment : Resource where
  target := { apiVersion := "apps/v1", kind := "Deployment", name := "web" }
  tree := .object [("metadata", .object [("labels", .object [
    ("canary", .string ""), ("app", .string "shop"), ("tier", .string "web")])])]

theorem canaryHint_selects :
    canaryLabels.AreWords ∧
      ∃ s m, (Generator.forApplication
          { parameters := some { replicas := some ⟨canaryLabels⟩ } }).selectors.tail =
            [.replicas s] ∧
        s.criteria.matcher = .ok m ∧ m.selects canaryDeployment ∧ ¬m.selects twoReplicas := by
  have hwords : canaryLabels.AreWords := by decide
  obtain ⟨-, hhints⟩ := Generator.hint_selects_labelled Regex.engine_documented hwords
  obtain ⟨s, hs, m, hm, hselects⟩ :=
    (hhints { parameters := some { replicas := some ⟨canaryLabels⟩ } } _ rfl).2 rfl
  have hall : (LabelSelector.ofLabels canaryLabels).selects canaryDeployment.labels := by
    decide +kernel
  refine ⟨hwords, s, m, hs, hm, (hselects _).mpr ?_, fun htaken => ?_⟩
  · exact ⟨.inl (by decide), .inl (by decide), LabelSelector.selects_ofLabels.mp hall⟩
  · have hcanary := ((hselects _).mp htaken).labels "canary" "" (by decide +kernel)
    exact absurd hcanary (by decide +kernel)

end WorkloadTuning
