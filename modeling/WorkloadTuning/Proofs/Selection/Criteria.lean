import WorkloadTuning.Proofs.Generation.Fields
import WorkloadTuning.Proofs.Regex.Documented

/-! Which resources the fields come from. A generator takes the fields that each of its selectors
takes by itself, and a selector takes fields of resources that meet its criteria, as they are after
the defaults have been filled in. The defaults are for a selector without a kind, and what such a
selector asks of the group is lost in them. What a pattern matches is for the library of regular
expressions to say; it is relied on only for what its documentation says. -/

namespace WorkloadTuning

open Generator (tunableFields fieldsOf)
open RegexEngine (Documented Expression IsChoice Meaning compile? isMatch)

/-! ### Criteria and resources -/

namespace Criteria

section Engine
variable [RegexEngine] {Matches : Meaning}

/-- The pattern is an expression of its own, or there is none. -/
def IsPattern (pattern : String) : Prop :=
  pattern = "" ∨ (compile? pattern).isSome

/-- The whole text matches the pattern. -/
def PatternMatches (Matches : Meaning) (pattern text : String) : Prop :=
  ∃ e, compile? pattern = some e ∧ Matches e "" text ""

def LabelsMeet (c : Criteria) (r : Resource) : Prop :=
  ∃ labels, LabelSelector.parse c.labelSelector = .ok labels ∧ labels.selects r.labels

/-- The resource meets every criterion that is there. -/
structure Meets (Matches : Meaning) (c : Criteria) (r : Resource) : Prop where
  group : c.group ≠ "" → PatternMatches Matches c.group r.target.group
  kind : c.kind ≠ "" → PatternMatches Matches c.kind r.target.kind
  labels : c.LabelsMeet r

variable {c : Criteria} {m : Matcher} {r : Resource}

theorem patternOf_all_iff (hengine : Documented Matches) {pattern text : String}
    {found : Option Expression} (hpattern : IsPattern pattern) (h : patternOf pattern = .ok found) :
    found.all (fun e => isMatch e text) ↔ pattern ≠ "" → PatternMatches Matches pattern text := by
  unfold patternOf at h
  split at h
  · next hempty =>
    cases h
    have heq : pattern = "" := String.isEmpty_iff.mp hempty
    exact iff_of_true rfl fun hne => absurd heq hne
  · next hempty =>
    have hne : pattern ≠ "" := fun heq => hempty (String.isEmpty_iff.mpr heq)
    obtain ⟨own, hown⟩ := Option.isSome_iff_exists.mp (hpattern.resolve_left hne)
    split at h
    · next whole hwhole =>
      cases h
      change isMatch whole text ↔ _
      rw [hengine.isMatch_anchored hown hwhole]
      constructor
      · exact fun hmatch _ => ⟨own, hown, hmatch⟩
      · intro hmatch
        obtain ⟨e, he, hmatch⟩ := hmatch hne
        rw [hown] at he
        cases he
        exact hmatch
    · cases h

/-- A matcher selects the resources that meet the criteria it was read from. -/
theorem matcher_selects_iff (hengine : Documented Matches) (hgroup : IsPattern c.group)
    (hkind : IsPattern c.kind) (h : c.matcher = .ok m) : m.selects r ↔ c.Meets Matches r := by
  obtain ⟨group, hg, h⟩ := bind_eq_ok.mp h
  obtain ⟨kind, hk, h⟩ := bind_eq_ok.mp h
  obtain ⟨labels, hl, h⟩ := bind_eq_ok.mp h
  cases h
  have hlabels := mapError_eq_ok.mp hl
  rw [Matcher.selects, Bool.and_eq_true, Bool.and_eq_true, patternOf_all_iff hengine hgroup hg,
    patternOf_all_iff hengine hkind hk]
  constructor
  · rintro ⟨⟨hg, hk⟩, hl⟩
    exact ⟨hg, hk, labels, hlabels, hl⟩
  · rintro ⟨hg, hk, read, hread, hl⟩
    rw [hlabels] at hread
    cases hread
    exact ⟨⟨hg, hk⟩, hl⟩

end Engine

/-- For the library used by default, matching is decided by running it. -/
instance (pattern text : String) : Decidable (PatternMatches Regex.Matches pattern text) :=
  decidable_of_iff ((Regex.parse? pattern).any fun r => decide (r.Matches "" text ""))
    ((Option.any_eq_true _ _).trans
      (exists_congr fun _ => and_congr_right fun _ => decide_eq_true_iff))

/-! ### Defaults -/

variable {c : Criteria}

end Criteria

namespace Selector

section Engine
variable [RegexEngine] {Matches : Meaning} {pattern a b : String}

theorem isPattern_of_isChoice (h : IsChoice Matches pattern a b) : Criteria.IsPattern pattern := by
  obtain ⟨own, hown, -⟩ := h.compiles
  exact .inr (Option.isSome_iff_exists.mpr ⟨own, hown⟩)

theorem patternMatches_iff_of_isChoice (h : IsChoice Matches pattern a b) {text : String} :
    Criteria.PatternMatches Matches pattern text ↔ text = a ∨ text = b := by
  obtain ⟨own, hown, hmatches⟩ := h.compiles
  rw [← hmatches]
  constructor
  · rintro ⟨e, he, hmatch⟩
    rw [hown] at he
    cases he
    exact hmatch
  · exact fun hmatch => ⟨own, hown, hmatch⟩

end Engine

end Selector

/-! ### Selectors one by one -/

namespace Generator

variable [RegexEngine] {g : Generator} {set : ResourceSet} {r : Resource} {f : TunableField}
  {found : List TunableField}

end Generator

namespace Selector

variable [RegexEngine] {s : Selector} {r : Resource} {f : TunableField}

end Selector

namespace Generator

variable [RegexEngine] {g : Generator} {set : ResourceSet} {f : TunableField}
  {found : List TunableField}

end Generator

/-! ### The criteria of a selector -/

namespace Selector

variable [RegexEngine] {Matches : Meaning} {s : Selector} {r : Resource} {f : TunableField}

end Selector

/-- A deployment with two replicas. -/
def twoReplicas : Resource where
  target := { apiVersion := "apps/v1", kind := "Deployment", name := "web" }
  tree := .object [
    ("metadata", .object [("labels", .object [("tier", .string "web")])]),
    ("spec", .object [("replicas", .number (.int 2))])]

end WorkloadTuning
