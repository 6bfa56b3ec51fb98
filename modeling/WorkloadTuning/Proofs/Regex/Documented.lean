import WorkloadTuning.Proofs.Regex.Anchored
import WorkloadTuning.Selection.Selector

/-! What criteria rely on of a library for regular expressions. It is what the notation means: an
expression is found in a text if it matches a stretch of it, `^` and `$` match at the ends of the
text, and a bar stands between two choices. The library used by default keeps to this. -/

namespace WorkloadTuning

namespace RegexEngine

variable [RegexEngine]

/-- What the expressions match: stretches of texts, between what is before them and after them. -/
abbrev Meaning : Type :=
  Expression → (before inside after : String) → Prop

/-- The pattern stands for either of two texts, and can be put between the ends of a text. -/
structure IsChoice (Matches : Meaning) (pattern a b : String) : Prop where
  compiles : ∃ own, compile? pattern = some own ∧
    ∀ {before inside after}, Matches own before inside after ↔ inside = a ∨ inside = b
  compiles_anchored : (compile? ("^(?:" ++ pattern ++ ")$")).isSome

/-- What the library's documentation says of its expressions, given what they match. -/
structure Documented (Matches : Meaning) : Prop where
  /-- A match may be anywhere in the text. -/
  isMatch_iff : ∀ {e text}, isMatch e text ↔
    ∃ before inside after, before ++ inside ++ after = text ∧ Matches e before inside after
  /-- `^` matches at the start of the text and `$` at its end, and the group between them is the
  pattern. -/
  anchored : ∀ {pattern own whole}, compile? pattern = some own →
    compile? ("^(?:" ++ pattern ++ ")$") = some whole → ∀ {before inside after},
      Matches whole before inside after ↔ before = "" ∧ after = "" ∧ Matches own "" inside ""
  /-- Letters stand for themselves, and `|` is between two choices. -/
  defaultGroup : IsChoice Matches Selector.defaultGroup "apps" "extensions"
  defaultKind : IsChoice Matches Selector.defaultKind "Deployment" "StatefulSet"

/-- A pattern between the ends of a text is found in the texts that it matches as a whole. -/
theorem Documented.isMatch_anchored {Matches : Meaning} (h : Documented Matches)
    {pattern : String} {own whole : Expression} (hown : compile? pattern = some own)
    (hwhole : compile? ("^(?:" ++ pattern ++ ")$") = some whole) {text : String} :
    isMatch whole text ↔ Matches own "" text "" := by
  rw [h.isMatch_iff]
  constructor
  · rintro ⟨before, inside, after, rfl, hmatch⟩
    obtain ⟨rfl, rfl, hmatch⟩ := (h.anchored hown hwhole).mp hmatch
    rwa [String.append_empty, String.empty_append]
  · intro hmatch
    exact ⟨"", text, "", by rw [String.append_empty, String.empty_append],
      (h.anchored hown hwhole).mpr ⟨rfl, rfl, hmatch⟩⟩

end RegexEngine

namespace Regex

/-! ### Positions -/

theorem mem_suffixes {text p : List Char} : p ∈ suffixes text ↔ p <:+ text := by
  induction text with
  | nil => simp [suffixes]
  | cons c rest ih => rw [suffixes, List.mem_cons, ih, List.suffix_cons_iff]

theorem mem_of_mem_merge {positions new : List (List Char)} {p : List Char}
    (h : p ∈ merge positions new) : p ∈ positions ∨ p ∈ new := by
  induction new generalizing positions with
  | nil => exact .inl h
  | cons q new ih =>
    change p ∈ merge (if _ then _ else _) new at h
    rcases ih h with hmem | hmem
    · split at hmem
      · exact .inl hmem
      · rcases List.mem_append.mp hmem with hmem | hmem
        · exact .inl hmem
        · exact .inr (List.mem_singleton.mp hmem ▸ List.mem_cons_self)
    · exact .inr (List.mem_cons_of_mem _ hmem)

/-- A position of a text that is passed over is there already: there is one of every length. -/
theorem mem_merge {text : List Char} {positions new : List (List Char)} {p : List Char}
    (hpositions : ∀ q ∈ positions, q <:+ text) (hnew : ∀ q ∈ new, q <:+ text) :
    p ∈ merge positions new ↔ p ∈ positions ∨ p ∈ new := by
  induction new generalizing positions with
  | nil => simp [merge]
  | cons q new ih =>
    obtain ⟨hq, hnew⟩ := List.forall_mem_cons.mp hnew
    change p ∈ merge (if _ then _ else _) new ↔ _
    split
    · next hknown =>
      obtain ⟨known, hmem, hlength⟩ := List.any_eq_true.mp hknown
      have hsame : known = q :=
        (List.suffix_of_suffix_length_le (hpositions _ hmem) hq
          (Nat.le_of_eq (beq_iff_eq.mp hlength))).eq_of_length (beq_iff_eq.mp hlength)
      rw [ih hpositions hnew, List.mem_cons]
      constructor
      · rintro (hp | hp)
        · exact .inl hp
        · exact .inr (.inr hp)
      · rintro (hp | rfl | hp)
        · exact .inl hp
        · exact .inl (hsame ▸ hmem)
        · exact .inr hp
    · have hadded : ∀ r ∈ positions ++ [q], r <:+ text := by
        intro r hr
        rcases List.mem_append.mp hr with hr | hr
        · exact hpositions r hr
        · exact List.mem_singleton.mp hr ▸ hq
      rw [ih hadded hnew, List.mem_append, List.mem_singleton, List.mem_cons, or_assoc]

/-- A step forward through a text, which each of a number of positions takes for itself. -/
structure IsPointwise (text : List Char) (f : List (List Char) → List (List Char)) : Prop where
  suffix : ∀ {ps q}, q ∈ f ps → ∃ p ∈ ps, q <:+ p
  mem_iff : ∀ {ps q}, (∀ p ∈ ps, p <:+ text) → (q ∈ f ps ↔ ∃ p ∈ ps, q ∈ f [p])

namespace IsPointwise

variable {text : List Char} {f g : List (List Char) → List (List Char)}

theorem suffixes_stay (hf : IsPointwise text f) {ps : List (List Char)}
    (hps : ∀ p ∈ ps, p <:+ text) : ∀ q ∈ f ps, q <:+ text := by
  intro q hq
  obtain ⟨p, hp, hsuffix⟩ := hf.suffix hq
  exact hsuffix.trans (hps p hp)

theorem id : IsPointwise text fun ps => ps where
  suffix hq := ⟨_, hq, List.suffix_refl _⟩
  mem_iff _ := by simp

theorem comp (hg : IsPointwise text g) (hf : IsPointwise text f) :
    IsPointwise text fun ps => g (f ps) where
  suffix hq := by
    obtain ⟨m, hm, hq⟩ := hg.suffix hq
    obtain ⟨p, hp, hm⟩ := hf.suffix hm
    exact ⟨p, hp, hq.trans hm⟩
  mem_iff {ps q} hps := by
    have hsingle : ∀ p ∈ ps, q ∈ g (f [p]) ↔ ∃ m ∈ f [p], q ∈ g [m] := fun p hp =>
      hg.mem_iff (hf.suffixes_stay (List.forall_mem_singleton.mpr (hps p hp)))
    rw [hg.mem_iff (hf.suffixes_stay hps)]
    constructor
    · rintro ⟨m, hm, hq⟩
      obtain ⟨p, hp, hm⟩ := (hf.mem_iff hps).mp hm
      exact ⟨p, hp, (hsingle p hp).mpr ⟨m, hm, hq⟩⟩
    · rintro ⟨p, hp, hq⟩
      obtain ⟨m, hm, hq⟩ := (hsingle p hp).mp hq
      exact ⟨m, (hf.mem_iff hps).mpr ⟨p, hp, hm⟩, hq⟩

theorem merge (hf : IsPointwise text f) (hg : IsPointwise text g) :
    IsPointwise text fun ps => Regex.merge (f ps) (g ps) where
  suffix hq := (mem_of_mem_merge hq).elim hf.suffix hg.suffix
  mem_iff {ps q} hps := by
    have hall : ∀ {ps}, (∀ p ∈ ps, p <:+ text) →
        (q ∈ Regex.merge (f ps) (g ps) ↔ q ∈ f ps ∨ q ∈ g ps) :=
      fun hps => mem_merge (hf.suffixes_stay hps) (hg.suffixes_stay hps)
    rw [hall hps, hf.mem_iff hps, hg.mem_iff hps, ← exists_or]
    refine exists_congr fun p => ?_
    rw [← and_or_left]
    exact and_congr_right fun hp => (hall (List.forall_mem_singleton.mpr (hps p hp))).symm

theorem times (hf : IsPointwise text f) (n : Nat) : IsPointwise text (Regex.times f n) := by
  induction n with
  | zero => exact id
  | succ n ih => exact ih.comp hf

theorem upTo (hf : IsPointwise text f) (n : Nat) : IsPointwise text (Regex.upTo f n) := by
  induction n with
  | zero => exact id
  | succ n ih => exact ih.comp (id.merge hf)

end IsPointwise

theorem advance_isPointwise (text : List Char) (r : Regex) :
    IsPointwise text (advance text r) := by
  induction r with
  | empty => exact .id
  | char set =>
    constructor
    · intro ps q hq
      obtain ⟨p, hp, hstep⟩ := List.mem_filterMap.mp hq
      refine ⟨p, hp, ?_⟩
      rcases p with _ | ⟨c, rest⟩
      · cases hstep
      · rw [advanceChar, Option.ite_none_right_eq_some] at hstep
        obtain ⟨-, hrest⟩ := hstep
        exact Option.some.inj hrest ▸ List.suffix_cons c rest
    · intro ps q _
      simp [advance]
  | anchor a =>
    constructor
    · intro ps q hq
      exact ⟨q, (List.mem_filter.mp hq).1, List.suffix_refl q⟩
    · intro ps q _
      simp [advance]
  | seq a b ha hb => exact hb.comp ha
  | alt a b ha hb => exact ha.merge hb
  | repeated a least most ha => exact (ha.upTo _).comp (ha.times least)
  | named name a ha => exact ha

/-! ### The stretches matched -/

/-- A match that starts before the stretch can end behind it. -/
def Matches (r : Regex) (before inside after : String) : Prop :=
  after.toList ∈ r.advance (before ++ inside ++ after).toList [(inside ++ after).toList]

instance (r : Regex) (before inside after : String) : Decidable (r.Matches before inside after) :=
  inferInstanceAs (Decidable (_ ∈ _))

variable {before inside after : String}

theorem suffix_append : (inside ++ after).toList <:+ (before ++ inside ++ after).toList := by
  rw [String.append_assoc, String.toList_append (s := before)]
  exact List.suffix_append _ _

theorem matchesIn_iff (r : Regex) (text : String) : r.matchesIn text ↔
    ∃ before inside after, before ++ inside ++ after = text ∧ r.Matches before inside after := by
  have hpointwise := advance_isPointwise text.toList r
  have hsuffixes : ∀ p ∈ suffixes text.toList, p <:+ text.toList := fun p hp => mem_suffixes.mp hp
  rw [matchesIn, Bool.not_eq_true', List.isEmpty_eq_false_iff_exists_mem]
  constructor
  · rintro ⟨q, hq⟩
    obtain ⟨p, hp, hq⟩ := (hpointwise.mem_iff hsuffixes).mp hq
    obtain ⟨_, hmem, inside, rfl⟩ := hpointwise.suffix hq
    obtain rfl := List.mem_singleton.mp hmem
    obtain ⟨before, htext⟩ := mem_suffixes.mp hp
    have hsplit : String.ofList before ++ String.ofList inside ++ String.ofList q = text := by
      rw [← String.toList_inj]
      simpa using htext
    refine ⟨_, _, _, hsplit, ?_⟩
    rw [Matches, hsplit]
    simpa using hq
  · rintro ⟨before, inside, after, rfl, hmatch⟩
    exact ⟨_, (hpointwise.mem_iff hsuffixes).mpr ⟨_, mem_suffixes.mpr suffix_append, hmatch⟩⟩

theorem matches_between {r : Regex} : (between r).Matches before inside after ↔
    before = "" ∧ after = "" ∧ r.Matches "" inside "" := by
  have hstart : Anchor.holds (before ++ inside ++ after).toList (inside ++ after).toList .textStart ↔
      before = "" := by
    simp [Anchor.holds]
  have hend : Anchor.holds (before ++ inside ++ after).toList after.toList .textEnd ↔ after = "" := by
    simp [Anchor.holds]
  simp only [Matches, between, advance]
  rw [List.mem_filter, hend]
  by_cases hbefore : before = ""
  · rw [List.filter_cons_of_pos (by exact hstart.mpr hbefore), List.filter_nil]
    constructor
    · rintro ⟨hmatch, hafter⟩
      subst hbefore hafter
      exact ⟨rfl, rfl, hmatch⟩
    · rintro ⟨-, hafter, hmatch⟩
      subst hbefore hafter
      exact ⟨hmatch, rfl⟩
  · rw [List.filter_cons_of_neg (by simpa using mt hstart.mp hbefore), List.filter_nil]
    constructor
    · rintro ⟨hmatch, -⟩
      obtain ⟨_, hnone, -⟩ := (advance_isPointwise _ r).suffix hmatch
      cases hnone
    · exact fun h => absurd h.1 hbefore

theorem matches_alt {a b : Regex} : (alt a b).Matches before inside after ↔
    a.Matches before inside after ∨ b.Matches before inside after := by
  have hposition : ∀ p ∈ [(inside ++ after).toList], p <:+ (before ++ inside ++ after).toList :=
    List.forall_mem_singleton.mpr suffix_append
  exact mem_merge ((advance_isPointwise _ a).suffixes_stay hposition)
    ((advance_isPointwise _ b).suffixes_stay hposition)

/-- The expression that a text without operators writes. -/
def literal (word : List Char) : Regex :=
  word.foldr (fun c r => .seq (.char (.single c)) r) .empty

theorem contains_single {c d : Char} : (CharSet.single c).contains d ↔ d = c := by
  rw [CharSet.single, CharSet.contains, Bool.and_eq_true, decide_eq_true_eq, decide_eq_true_eq]
  constructor
  · rintro ⟨hle, hge⟩
    exact Char.le_antisymm hge hle
  · rintro rfl
    exact ⟨Char.le_refl _, Char.le_refl _⟩

theorem advance_literal_nil (text word : List Char) : advance text (literal word) [] = [] := by
  induction word with
  | nil => rfl
  | cons c word ih => exact ih

theorem mem_advance_literal {text word p q : List Char} :
    q ∈ advance text (literal word) [p] ↔ p = word ++ q := by
  induction word generalizing p with
  | nil =>
    rw [literal, List.foldr_nil, advance, List.mem_singleton, eq_comm]
    rfl
  | cons c word ih =>
    change q ∈ advance text (literal word) ([p].filterMap (advanceChar (.single c))) ↔ _
    rcases p with _ | ⟨d, p⟩
    · have hstuck : [[]].filterMap (advanceChar (.single c)) = [] := rfl
      rw [hstuck, advance_literal_nil]
      simp
    · by_cases hd : d = c
      · have hc : (CharSet.single c).contains d := contains_single.mpr hd
        simp only [List.filterMap_cons, List.filterMap_nil, advanceChar, if_pos hc]
        rw [ih, List.cons_append, List.cons_eq_cons, and_iff_right hd]
      · have hc : ¬(CharSet.single c).contains d := fun h => hd (contains_single.mp h)
        simp [advanceChar, hc, advance_literal_nil, hd]

theorem matches_literal {word : String} :
    (literal word.toList).Matches before inside after ↔ inside = word := by
  rw [Matches, mem_advance_literal, String.toList_append, List.append_cancel_right_eq,
    String.toList_inj]

theorem isChoice_of_parse? {pattern a b : String}
    (h : parse? pattern = some (.alt (literal a.toList) (literal b.toList)))
    (hanchored : (parse? ("^(?:" ++ pattern ++ ")$")).isSome) :
    RegexEngine.IsChoice Matches pattern a b where
  compiles := by
    refine ⟨_, h, ?_⟩
    intro before inside after
    rw [matches_alt, matches_literal, matches_literal]
  compiles_anchored := hanchored

/-- The library used by default keeps to its documentation. -/
theorem engine_documented : RegexEngine.Documented Matches where
  isMatch_iff := matchesIn_iff _ _
  anchored hown hwhole := by
    intro before inside after
    obtain rfl := parse?_between hown hwhole
    exact matches_between
  defaultGroup := isChoice_of_parse? (by decide +kernel) (by decide +kernel)
  defaultKind := isChoice_of_parse? (by decide +kernel) (by decide +kernel)

end Regex

end WorkloadTuning
