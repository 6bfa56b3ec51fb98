import Mathlib.Data.List.Infix
import WorkloadTuning.Proofs.Application.Defaults
import WorkloadTuning.Proofs.Text.LetterCase

/-! The spelling of objective names. Letter case makes no difference to a well known name, nor to
the name of a latency. It does to the word `latency` before or after it: the word is taken out of
the name as it is written, so one with a capital letter stays in, and the name stands for
nothing. -/

namespace WorkloadTuning

open Text

/-- The characters of the word `latency`. -/
def latencyWord : List Char :=
  ['l', 'a', 't', 'e', 'n', 'c', 'y']

theorem toList_latency : "latency".toList = latencyWord := by decide

/-! ### Loosely written latencies -/

namespace Latency

variable {c : Char} {part s : List Char} {name : String}

def isEdge (c : Char) : Bool :=
  isDash c || isBlank c

theorem isDash_of_isAlpha (h : c.isAlpha) : isDash c = false := by
  rw [isDash, Bool.or_eq_false_iff, beq_eq_false_iff_ne, beq_eq_false_iff_ne]
  constructor
  · rintro rfl
    exact absurd h (by decide)
  · rintro rfl
    exact absurd h (by decide)

theorem isBlank_of_isAlpha (h : c.isAlpha) : isBlank c = false := by
  have hrange : 65 ≤ c.toNat ∧ c.toNat ≤ 122 := by
    rcases isAlpha_iff.mp h with hupper | hlower
    · have hrange := isUpper_iff.mp hupper
      omega
    · have hrange := isLower_iff.mp hlower
      omega
  simp [isBlank]
  omega

theorem isDash_toLower (c : Char) : isDash c.toLower = isDash c :=
  apply_toLower (fun _ => isDash_of_isAlpha) c

theorem isEdge_toLower (c : Char) : isEdge c.toLower = isEdge c := by
  rw [isEdge, isEdge, isDash_toLower, apply_toLower fun _ => isBlank_of_isAlpha]

/-- The name without dashes and blanks around it. -/
def core (s : List Char) : List Char :=
  dropEndWhile isEdge (s.dropWhile isEdge)

theorem core_subset (s : List Char) : core s ⊆ s := by
  intro c hc
  have hdropped : c ∈ s.dropWhile isEdge :=
    List.mem_reverse.mp ((List.dropWhile_suffix isEdge).subset (List.mem_reverse.mp hc))
  exact (List.dropWhile_suffix isEdge).subset hdropped

theorem core_map_toLower (s : List Char) :
    core (s.map Char.toLower) = (core s).map Char.toLower := by
  rw [core, dropWhile_map_of_kept isEdge_toLower, dropEndWhile_map_of_kept isEdge_toLower, core]

theorem toList_normalized (h : IsAscii name.toList) : (normalized name).toList =
    ((core name.toList).map Char.toLower).filter fun c => !isDash c := by
  have hcore : IsAscii (String.ofList (core name.toList)).toList := by
    rw [String.toList_ofList]
    exact h.of_subset (core_subset name.toList)
  have hform : normalized name = String.ofList
      ((lower (String.ofList (core name.toList))).toList.filter fun c => !isDash c) := rfl
  rw [hform, String.toList_ofList, toList_lower hcore, String.toList_ofList]

theorem normalized_map_toLower (h : IsAscii s) :
    normalized (String.ofList (s.map Char.toLower)) = normalized (String.ofList s) := by
  have hboth : ∀ s, IsAscii s → (normalized (String.ofList s)).toList =
      ((core s).map Char.toLower).filter fun c => !isDash c := fun s hs => by
    rw [toList_normalized (by rwa [String.toList_ofList]), String.toList_ofList]
  rw [← String.toList_inj, hboth s h, hboth _ h.map_toLower, core_map_toLower, List.map_map]
  congr 1
  exact List.map_congr_left fun c _ => toLower_toLower c

/-- A word of letters is still there when the name is normalized. -/
theorem infix_normalized (h : IsAscii name.toList) (hpart : part <:+: name.toList)
    (hletters : ∀ c ∈ part, isEdge c = false) :
    part.map Char.toLower <:+: (normalized name).toList := by
  have hcore : part <:+: core name.toList :=
    infix_dropEndWhile (infix_dropWhile hpart hletters) hletters
  have hkept : (part.map Char.toLower).filter (fun c => !isDash c) = part.map Char.toLower := by
    rw [List.filter_eq_self, List.forall_mem_map]
    intro c hc
    have hedge := hletters c hc
    rw [isEdge, Bool.or_eq_false_iff] at hedge
    rw [isDash_toLower, hedge.1]
    rfl
  rw [toList_normalized h, ← hkept]
  exact (hcore.map Char.toLower).filter _

theorem parseLoose?_congr {other : String} (h : normalized other = normalized name) :
    parseLoose? other = parseLoose? name := by
  unfold parseLoose?
  rw [h]

theorem parseLoose?_of_infix (h : latencyWord <:+: (normalized name).toList) :
    parseLoose? name = none := by
  unfold parseLoose?
  split
  all_goals first
    | rfl
    | next heq =>
      rw [heq] at h
      exact absurd h (by decide)

end Latency

/-! ### Names with the word `latency` -/

namespace Objective

variable {o : Objective} {name : String} {defaults : List (String × Quantity)}

/-- The word `latency` is somewhere in the name with a capital letter. -/
def HasCapitalLatency (name : String) : Prop :=
  ∃ part, part <:+: name.toList ∧ part.map Char.toLower = latencyWord ∧ part ≠ latencyWord

theorem hasCapitalLatency_iff : HasCapitalLatency name ↔ ∃ rest ∈ name.toList.tails,
    (rest.take 7).map Char.toLower = latencyWord ∧ rest.take 7 ≠ latencyWord := by
  constructor
  · rintro ⟨part, ⟨before, after, heq⟩, hlower, hne⟩
    have hlength : part.length = 7 := by
      rw [← List.length_map Char.toLower, hlower]
      rfl
    refine ⟨part ++ after, ?_, ?_⟩
    · rw [List.mem_tails, ← heq, List.append_assoc]
      exact List.suffix_append before _
    · rw [List.take_left' hlength]
      exact ⟨hlower, hne⟩
  · rintro ⟨rest, hrest, hlower, hne⟩
    have hsuffix : rest <:+ name.toList := (List.mem_tails _ _).mp hrest
    exact ⟨rest.take 7, (List.take_prefix 7 rest).isInfix.trans hsuffix.isInfix, hlower, hne⟩

instance : DecidablePred HasCapitalLatency :=
  fun _ => decidable_of_iff' _ hasCapitalLatency_iff

theorem latencyOfName?_eq (name : String) : latencyOfName? name =
    Latency.parseLoose? (String.ofList (without latencyWord name.toList)) := by
  rw [latencyOfName?, toList_latency]

theorem latencyOfName?_lower (h : IsAscii name.toList) (hcapital : ¬HasCapitalLatency name) :
    latencyOfName? (lower name) = latencyOfName? name := by
  have hwithout : without latencyWord (name.toList.map Char.toLower) =
      (without latencyWord name.toList).map Char.toLower := by
    refine without_map (by decide) fun part hpart hlower => ?_
    by_contra hne
    exact hcapital ⟨part, hpart, hlower, hne⟩
  rw [latencyOfName?_eq, latencyOfName?_eq, toList_lower h, hwithout]
  exact Latency.parseLoose?_congr (Latency.normalized_map_toLower
    (h.of_subset (without_subset _ _)))

/-- The word with a capital letter is neither taken out nor trimmed, and no latency has it. -/
theorem latencyOfName?_of_capital (h : IsAscii name.toList) (hcapital : HasCapitalLatency name) :
    latencyOfName? name = none := by
  obtain ⟨part, hpart, hlower, hne⟩ := hcapital
  have hletters : ∀ c ∈ part, c.toLower ∈ latencyWord := by
    intro c hc
    rw [← hlower]
    exact List.mem_map_of_mem hc
  have hedge : ∀ c ∈ part, Latency.isEdge c = false := by
    have hword : ∀ d ∈ latencyWord, Latency.isEdge d = false := by
      simpa using (by decide : latencyWord.all fun d => !Latency.isEdge d)
    intro c hc
    rw [← Latency.isEdge_toLower]
    exact hword _ (hletters c hc)
  have hkept : part <:+: without latencyWord name.toList := by
    cases part with
    | nil => cases hlower
    | cons c part =>
      obtain ⟨hc, htail⟩ := List.cons.inj hlower
      refine infix_without hpart (by simpa using congrArg List.length htail) hne ?_ ?_
      · intro hl
        have hmem : 'l' ∈ ['a', 't', 'e', 'n', 'c', 'y'] := htail ▸ List.mem_map_of_mem hl
        exact absurd hmem (by decide)
      · intro hmem
        have hlowered : c.toLower ∈ ['a', 't', 'e', 'n', 'c', 'y'].map Char.toLower :=
          List.mem_map_of_mem hmem
        rw [hc] at hlowered
        exact absurd hlowered (by decide)
  have hascii : IsAscii (without latencyWord name.toList) :=
    h.of_subset (without_subset _ _)
  rw [latencyOfName?_eq]
  generalize without latencyWord name.toList = rest at hkept hascii
  rw [← String.toList_ofList (l := rest)] at hkept hascii
  refine Latency.parseLoose?_of_infix ?_
  rw [← hlower]
  exact Latency.infix_normalized hascii hkept hedge

theorem knownWeights?_lower (h : IsAscii name.toList) :
    knownWeights? (lower name) = knownWeights? name := by
  unfold knownWeights?
  rw [lower_lower h]

/-- No well known name stands for a latency as well. -/
theorem latencyOfName?_of_known (h : IsAscii name.toList)
    (hknown : knownWeights? name = some defaults) : latencyOfName? name = none := by
  by_cases hcapital : HasCapitalLatency name
  · exact latencyOfName?_of_capital h hcapital
  · rw [← latencyOfName?_lower h hcapital]
    unfold knownWeights? at hknown
    split at hknown
    all_goals first
      | next heq =>
        rw [heq]
        decide
      | cases hknown

/-! ### The measure that a name implies -/

theorem withNamedLatency_of_isMeasured (h : o.IsMeasured) : o.withNamedLatency = o := by
  rcases o.withNamedLatency_cases with ⟨-, heq⟩ | ⟨latency, heq⟩
  · exact heq
  · rw [heq, withLatency_of_isMeasured h]

theorem withNamedLatency_latency (h : ¬o.IsMeasured) :
    o.withNamedLatency.latency = (latencyOfName? o.name).map LatencyObjective.mk := by
  unfold withNamedLatency
  cases latencyOfName? o.name with
  | none => exact (not_isMeasured_iff.mp h).2
  | some latency =>
    show (o.withLatency latency).latency = _
    rw [withLatency_of_not_isMeasured h]
    rfl

theorem withNamedLatency_requests (o : Objective) : o.withNamedLatency.requests = o.requests := by
  rcases o.withNamedLatency_cases with ⟨-, heq⟩ | ⟨latency, heq⟩
  · rw [heq]
  · rw [heq, withLatency_requests]

theorem withEqualWeights_latency (o : Objective) : o.withEqualWeights.latency = o.latency := by
  rcases o.withEqualWeights_cases with ⟨-, heq⟩ | ⟨-, defaults, heq⟩
  · rw [heq]
  · rw [heq, withWeights_latency]

theorem withName_measure (o : Objective) :
    o.withName.requests = o.requests ∧ o.withName.latency = o.latency := by
  rcases o.withName_cases with ⟨heq, -⟩ | ⟨-, -, name, heq, -⟩
  · rw [heq]
    exact ⟨rfl, rfl⟩
  · rw [heq]
    exact ⟨rfl, rfl⟩

theorem applyDefaults_latency_of_isMeasured (h : o.IsMeasured) :
    o.applyDefaults.latency = o.latency := by
  cases hknown : knownWeights? o.name with
  | some defaults => rw [applyDefaults_of_known hknown, withWeights_latency]
  | none =>
    rw [applyDefaults_of_unknown hknown, (withName_measure _).2, withEqualWeights_latency,
      withNamedLatency_of_isMeasured h]

theorem applyDefaults_latency (hname : IsAscii o.name.toList) (h : ¬o.IsMeasured) :
    o.applyDefaults.latency = (latencyOfName? o.name).map LatencyObjective.mk := by
  cases hknown : knownWeights? o.name with
  | some defaults =>
    rw [applyDefaults_of_known hknown, withWeights_latency, latencyOfName?_of_known hname hknown]
    exact (not_isMeasured_iff.mp h).2
  | none =>
    rw [applyDefaults_of_unknown hknown, (withName_measure _).2, withEqualWeights_latency,
      withNamedLatency_latency h]

section Requests
variable {o' : Objective}

theorem withWeights_requests_congr (hrequests : o'.requests = o.requests)
    (hlatency : o'.latency = o.latency) :
    (o'.withWeights defaults).requests = (o.withWeights defaults).requests := by
  unfold withWeights
  rw [hrequests, hlatency]
  split
  · exact hrequests
  · rfl

theorem withEqualWeights_requests_congr (h : o'.requests = o.requests) :
    o'.withEqualWeights.requests = o.withEqualWeights.requests := by
  unfold withEqualWeights
  rw [h]
  split
  · next hopen =>
    have hrequests : o.requests.isSome := Option.isSome_of_any hopen
    rw [withWeights_of_or (.inl (h ▸ hrequests)), withWeights_of_or (.inl hrequests), h]
  · exact h

/-- The requests that are implied do not depend on the name, apart from the weights that it stands
for. -/
theorem applyDefaults_requests_congr (hname : knownWeights? o'.name = knownWeights? o.name)
    (hrequests : o'.requests = o.requests) (hlatency : o'.latency = o.latency) :
    o'.applyDefaults.requests = o.applyDefaults.requests := by
  cases hknown : knownWeights? o.name with
  | some defaults =>
    rw [applyDefaults_of_known (hname.trans hknown), applyDefaults_of_known hknown]
    exact withWeights_requests_congr hrequests hlatency
  | none =>
    rw [applyDefaults_of_unknown (hname.trans hknown), applyDefaults_of_unknown hknown,
      (withName_measure _).1, (withName_measure _).1]
    refine withEqualWeights_requests_congr ?_
    rw [withNamedLatency_requests, withNamedLatency_requests, hrequests]

end Requests

theorem metric?_of_not_isMeasured (h : ¬o.IsMeasured) : o.metric? = none := by
  obtain ⟨hrequests, hlatency⟩ := not_isMeasured_iff.mp h
  unfold metric?
  rw [hrequests, hlatency]

theorem metric?_of_isMeasured (h : o.IsMeasured) : o.metric?.isSome := by
  unfold metric?
  cases hrequests : o.requests with
  | some requests => rfl
  | none =>
    have hlatency : o.latency.isSome := h.resolve_left (by simp [hrequests])
    obtain ⟨latency, hlatency⟩ := Option.isSome_iff_exists.mp hlatency
    rw [hlatency]
    rfl

/-- Nothing is filled in where the name says nothing. -/
theorem applyDefaults_of_silent (h : ¬o.IsMeasured) (hknown : knownWeights? o.name = none)
    (hlatency : latencyOfName? o.name = none) : o.applyDefaults = o := by
  refine applyDefaults_of_isSettled ⟨fun defaults hdefaults => ?_, fun _ hnamed => ?_,
    fun _ r hr => ?_, fun hmeasured => absurd hmeasured h⟩
  · cases hknown.symm.trans hdefaults
  · exact absurd hlatency hnamed
  · exact absurd (.inl (by rw [hr]; rfl)) h

/-- The objective with its name in lower case. -/
def lowered (o : Objective) : Objective :=
  { o with name := lower o.name }

theorem lowered_latency (h : IsAscii o.name.toList) (hmeasured : ¬o.IsMeasured) :
    o.lowered.applyDefaults.latency = (latencyOfName? (lower o.name)).map LatencyObjective.mk :=
  applyDefaults_latency (o := o.lowered) h.lower hmeasured

theorem lowered_latency_eq_iff (h : IsAscii o.name.toList) :
    o.lowered.applyDefaults.latency = o.applyDefaults.latency ↔
      o.IsMeasured ∨ latencyOfName? (lower o.name) = none ∨ ¬HasCapitalLatency o.name := by
  by_cases hmeasured : o.IsMeasured
  · refine iff_of_true ?_ (.inl hmeasured)
    rw [applyDefaults_latency_of_isMeasured hmeasured]
    exact applyDefaults_latency_of_isMeasured (o := o.lowered) hmeasured
  · rw [lowered_latency h hmeasured, applyDefaults_latency h hmeasured]
    by_cases hcapital : HasCapitalLatency o.name
    · rw [latencyOfName?_of_capital h hcapital, Option.map_none, Option.map_eq_none_iff]
      simp [hmeasured, hcapital]
    · refine iff_of_true ?_ (.inr (.inr hcapital))
      rw [latencyOfName?_lower h hcapital]

/-- An objective whose latency is lost is not measured in another way. -/
theorem metric?_of_lost_latency (h : IsAscii o.name.toList)
    (hlost : o.lowered.applyDefaults.latency ≠ o.applyDefaults.latency) :
    o.applyDefaults.metric? = none ∧ o.lowered.applyDefaults.metric?.isSome := by
  rw [Ne, lowered_latency_eq_iff h, not_or, not_or, not_not] at hlost
  obtain ⟨hmeasured, hsome, hcapital⟩ := hlost
  have hunknown : knownWeights? o.name = none := by
    by_contra hknown
    obtain ⟨defaults, hdefaults⟩ := Option.ne_none_iff_exists'.mp hknown
    rw [← knownWeights?_lower h] at hdefaults
    exact hsome (latencyOfName?_of_known h.lower hdefaults)
  constructor
  · rw [applyDefaults_of_silent hmeasured hunknown (latencyOfName?_of_capital h hcapital)]
    exact metric?_of_not_isMeasured hmeasured
  · refine metric?_of_isMeasured (.inr ?_)
    rw [lowered_latency h hmeasured, Option.isSome_map, Option.isSome_iff_ne_none]
    exact hsome

/-- The letter case of a name never matters to the weights. It matters to the latency exactly if
the objective has no measure of its own, the name in lower case stands for a latency, and the word
`latency` is in the name with a capital letter; then nothing measures the objective. -/
theorem applyDefaults_lowered (o : Objective) (h : IsAscii o.name.toList) :
    o.lowered.applyDefaults.requests = o.applyDefaults.requests ∧
      (o.lowered.applyDefaults.latency = o.applyDefaults.latency ↔
        o.IsMeasured ∨ latencyOfName? (lower o.name) = none ∨ ¬HasCapitalLatency o.name) ∧
      (o.lowered.applyDefaults.latency ≠ o.applyDefaults.latency →
        o.applyDefaults.metric? = none ∧ o.lowered.applyDefaults.metric?.isSome) := by
  have hrequests : o.lowered.applyDefaults.requests = o.applyDefaults.requests :=
    applyDefaults_requests_congr (knownWeights?_lower h) rfl rfl
  exact ⟨hrequests, lowered_latency_eq_iff h, metric?_of_lost_latency h⟩

theorem capital_percentile_read : IsAscii "P95-latency".toList ∧
    ¬HasCapitalLatency "P95-latency" ∧
    ({ name := "P95-latency" } : Objective).lowered.applyDefaults.latency =
      ({ name := "P95-latency" } : Objective).applyDefaults.latency :=
  ⟨by decide, by decide,
    (applyDefaults_lowered { name := "P95-latency" } (by decide)).2.1.mpr
      (.inr (.inr (by decide)))⟩

/-- A capital letter in the word `latency` costs an objective its metric. -/
theorem capital_latency_unmeasured :
    ({ name := "Latency-P95" } : Objective).applyDefaults.metric? = none ∧
      ({ name := "Latency-P95" } : Objective).lowered.applyDefaults.latency = some ⟨.p95⟩ ∧
      ¬∀ o : Objective, IsAscii o.name.toList →
        o.applyDefaults.requests = o.lowered.applyDefaults.requests ∧
          o.applyDefaults.latency = o.lowered.applyDefaults.latency := by
  have hwritten : ({ name := "Latency-P95" } : Objective).applyDefaults.latency = none := by decide
  have hlowered : ({ name := "Latency-P95" } : Objective).lowered.applyDefaults.latency =
      some ⟨.p95⟩ := by decide
  refine ⟨by decide, hlowered, fun hall => ?_⟩
  have hsame := (hall { name := "Latency-P95" } (by decide)).2
  rw [hwritten, hlowered] at hsame
  cases hsame

end Objective

end WorkloadTuning
