import Mathlib.Data.List.Basic
import WorkloadTuning.Regex.Parser

/-! A regular expression is read from the front, and what is read of a text stays the same when a
closing parenthesis and the end of a text are put behind it. Only a comment can reach over them. -/

namespace WorkloadTuning.Regex

/-- What stands behind a pattern that is put between the ends of a text. -/
def closing : List Char := [')', '$']

variable {β : Type} {cs rest : List Char} {p : Char → Bool} {flags : Flags}
  {e : Escape}

/-! ### Texts -/

theorem dropWhile_closing (h : p ')' = false) (cs : List Char) :
    (cs ++ closing).dropWhile p = cs.dropWhile p ++ closing := by
  rw [List.dropWhile_append]
  split
  · next hempty =>
    rw [List.isEmpty_iff.mp hempty, closing, List.dropWhile_cons_of_neg (by simp [h])]
    rfl
  · rfl

theorem takeWhile_closing (h : p ')' = false) (cs : List Char) :
    (cs ++ closing).takeWhile p = cs.takeWhile p := by
  induction cs with
  | nil =>
    rw [List.nil_append, closing, List.takeWhile_cons_of_neg (by simp [h]), List.takeWhile_nil]
  | cons c rest ih =>
    rw [List.cons_append, List.takeWhile_cons, List.takeWhile_cons, ih]

/-- What ends within a text ends there whatever follows the text. -/
theorem dropWhile_append_of_ne_nil (h : cs.dropWhile p ≠ []) (more : List Char) :
    (cs ++ more).dropWhile p = cs.dropWhile p ++ more := by
  rw [List.dropWhile_append, if_neg (by simpa using h)]

theorem takeWhile_append_of_ne_nil (h : cs.dropWhile p ≠ []) (more : List Char) :
    (cs ++ more).takeWhile p = cs.takeWhile p := by
  induction cs with
  | nil => exact absurd rfl h
  | cons c rest ih =>
    rw [List.cons_append, List.takeWhile_cons, List.takeWhile_cons]
    split
    · next hc => rw [ih (by rwa [List.dropWhile_cons_of_pos hc] at h)]
    · rfl

theorem dropSpace_closing (inComment : Bool) (cs : List Char) :
    Flags.dropSpace inComment (cs ++ closing) = Flags.dropSpace inComment cs ++ closing ∨
      Flags.dropSpace inComment cs = [] ∧ Flags.dropSpace inComment (cs ++ closing) = [] := by
  induction cs generalizing inComment with
  | nil => cases inComment <;> decide
  | cons c rest ih =>
    rw [List.cons_append]
    simp only [Flags.dropSpace]
    split
    · exact ih false
    · split
      · exact ih inComment
      · split
        · exact ih true
        · exact .inl rfl

theorem skip_closing (flags : Flags) (cs : List Char) :
    flags.skip (cs ++ closing) = flags.skip cs ++ closing ∨
      flags.skip cs = [] ∧ flags.skip (cs ++ closing) = [] := by
  rw [Flags.skip, Flags.skip]
  split
  · exact dropSpace_closing false cs
  · exact .inl rfl

@[simp]
theorem Flags.skip_nil (flags : Flags) : flags.skip [] = [] := by
  unfold Flags.skip
  split <;> rfl

theorem skip_closing_of_ne_nil (h : flags.skip cs ≠ []) :
    flags.skip (cs ++ closing) = flags.skip cs ++ closing :=
  (skip_closing flags cs).resolve_right fun hempty => h hempty.1

theorem eq_cons_of_append_closing {c : Char} (h : cs ++ closing = c :: rest) (hc : c ≠ ')') :
    ∃ before, cs = c :: before ∧ before ++ closing = rest := by
  rcases cs with _ | ⟨d, before⟩
  · exact absurd (List.cons_eq_cons.mp h).1.symm hc
  · obtain ⟨rfl, hrest⟩ := List.cons_eq_cons.mp h
    exact ⟨before, rfl, hrest⟩

theorem append_closing_ne {c : Char} (hc : c ≠ ')') (h : ∀ rest, cs ≠ c :: rest) :
    cs ++ closing ≠ c :: rest := by
  intro heq
  obtain ⟨before, rfl, -⟩ := eq_cons_of_append_closing heq hc
  exact h before rfl

/-- The result is the same in front of the closing parenthesis, unless a comment runs up to it. -/
def ReadsOn (read : Option β) (result : List Char → β) (rest : List Char) : Prop :=
  read = some (result (rest ++ closing)) ∨ rest = [] ∧ read = some (result [])

theorem ReadsOn.of_ne_nil {read : Option β} {result : List Char → β} (h : ReadsOn read result rest)
    (hne : rest ≠ []) : read = some (result (rest ++ closing)) :=
  h.resolve_right fun hempty => hne hempty.1

/-! ### Flags and escapes -/

theorem Flags.read_closing {on : Bool} {seen : List Char} {read : Flags}
    (h : flags.read on seen cs = some (read, rest)) :
    flags.read on seen (cs ++ closing) = some (read, rest ++ closing) := by
  fun_induction Flags.read flags on seen cs with
  | case1 | case2 =>
    cases h
    rfl
  | case3 | case5 | case7 => cases h
  | case4 flags on seen c rest hnew ih =>
    obtain ⟨next, hset, h⟩ := Option.bind_eq_some_iff.mp h
    rw [List.cons_append, List.cons_append, Flags.read, if_neg hnew, hset]
    exact ih next h
  | case6 flags on seen c rest hclose hcolon hminus hnew ih =>
    obtain ⟨next, hset, h⟩ := Option.bind_eq_some_iff.mp h
    -- a minus sign alone is no flag, so what is read is a letter
    have hletter : c ≠ '-' := by
      rintro rfl
      cases hset
    rw [List.cons_append, Flags.read, if_neg hnew, hset]
    · exact ih next h
    · exact hclose
    · exact hcolon
    · exact fun _ _ heq => absurd heq hletter

theorem Escape.readNumbered_closing {width : Nat}
    (h : Escape.readNumbered width cs = some (e, rest)) :
    Escape.readNumbered width (cs ++ closing) = some (e, rest ++ closing) := by
  unfold Escape.readNumbered at h
  split at h
  · next inner =>
    obtain ⟨c, hc, h⟩ := Option.bind_eq_some_iff.mp h
    split at h
    · next hrest =>
      cases h
      have hne : inner.dropWhile (· != '\x7d') ≠ [] := by simp [hrest]
      rw [List.cons_append, Escape.readNumbered, dropWhile_append_of_ne_nil hne,
        takeWhile_append_of_ne_nil hne, hc, hrest]
      rfl
    · cases h
  · next hbrace =>
    split at h
    · cases h
    · next hlength =>
      obtain ⟨c, hc, h⟩ := Option.bind_eq_some_iff.mp h
      cases h
      have hwidth : width ≤ cs.length := Nat.not_lt.mp hlength
      rw [Escape.readNumbered, if_neg (by simp; omega), List.take_append_of_le_length hwidth,
        List.drop_append_of_le_length hwidth, hc]
      · rfl
      · intro inner heq
        rcases cs with _ | ⟨d, cs⟩
        · cases heq
        · exact hbrace cs (by rw [(List.cons_eq_cons.mp heq).1])

theorem Escape.readEdge_closing (h : Escape.readEdge cs = some (e, rest)) :
    Escape.readEdge (cs ++ closing) = some (e, rest ++ closing) := by
  unfold Escape.readEdge at h
  split at h
  · next inner =>
    rw [List.cons_append, Escape.readEdge, takeWhile_closing (by decide),
      dropWhile_closing (by decide)]
    split at h
    · next hname =>
      cases h
      rw [hname]
      rfl
    · next after hrest hname =>
      obtain ⟨a, ha, h⟩ := Option.map_eq_some_iff.mp h
      cases h
      rw [hrest]
      split
      · contradiction
      · next heq _ =>
        cases heq
        rw [ha]
        rfl
      · next hbrace => exact absurd rfl (hbrace _)
    · cases h
  · next hbrace =>
    cases h
    rw [Escape.readEdge]
    intro inner heq
    rcases cs with _ | ⟨d, cs⟩
    · cases heq
    · exact hbrace cs (by rw [(List.cons_eq_cons.mp heq).1])

theorem Escape.read_closing (h : Escape.read cs = some (e, rest)) :
    Escape.read (cs ++ closing) = some (e, rest ++ closing) := by
  fun_cases Escape.read cs with
  | case1 => cases h
  | case13 => exact Escape.readEdge_closing h
  | case20 | case21 | case22 => exact Escape.readNumbered_closing h
  | case23 c rest' hplain =>
    simp_all [Escape.read]
  | case24 c rest' hplain =>
    simp_all [Escape.read]
  | _ =>
    cases h
    rfl

/-! ### Bracketed classes -/

namespace Bracket

theorem operator?_closing (cs : List Char) : operator? (cs ++ closing) =
    (operator? cs).map fun (operator, rest) => (operator, rest ++ closing) := by
  fun_cases operator? cs with
  | case1 | case2 | case3 => rfl
  | case4 cs hand hminus htilde =>
    rw [operator?]
    · rfl
    all_goals
      intro rest heq
      obtain ⟨_, rfl, hrest⟩ := eq_cons_of_append_closing heq (by decide)
      obtain ⟨_, rfl, -⟩ := eq_cons_of_append_closing hrest (by decide)
    · exact hand _ rfl
    · exact hminus _ rfl
    · exact htilde _ rfl

theorem readSetName_closing (flags : Flags) (negated : Bool) (cs : List Char) :
    readSetName flags negated (cs ++ closing) =
      (readSetName flags negated cs).map fun (set, rest) => (set, rest ++ closing) := by
  unfold readSetName
  by_cases hempty : cs.dropWhile (· != ':') = []
  · rw [List.dropWhile_append, hempty]
    rfl
  · rw [dropWhile_append_of_ne_nil hempty, takeWhile_append_of_ne_nil hempty]
    generalize cs.dropWhile (· != ':') = after
    split
    · next rest heq =>
      obtain ⟨_, rfl, hrest⟩ := eq_cons_of_append_closing heq (by decide)
      obtain ⟨_, rfl, rfl⟩ := eq_cons_of_append_closing hrest (by decide)
      cases CharSet.named? (String.ofList (cs.takeWhile (· != ':'))) <;> rfl
    · next hother =>
      split
      · exact absurd rfl (hother _)
      · rfl

theorem readNamed_closing (flags : Flags) (cs : List Char) : readNamed flags (cs ++ closing) =
    (readNamed flags cs).map fun (set, rest) => (set, rest ++ closing) := by
  fun_cases readNamed flags cs with
  | case1 rest => exact readSetName_closing flags true rest
  | case2 rest hplain =>
    rw [List.cons_append, readNamed, readSetName_closing]
    exact fun _ => append_closing_ne (by decide) hplain
  | case3 cs hcaret hcolon =>
    rw [readNamed]
    · rfl
    · exact fun _ => append_closing_ne (by decide) hcolon
    · exact fun _ => append_closing_ne (by decide) hcolon

theorem readAtom_closing {atom : Char ⊕ CharSet} (h : readAtom flags cs = some (atom, rest)) :
    readAtom flags (cs ++ closing) = some (atom, rest ++ closing) := by
  unfold readAtom at h
  split at h
  · cases h
  · next escaped =>
    split at h
    · next hread =>
      cases h
      rw [List.cons_append, readAtom, Escape.read_closing hread]
    · next hread =>
      cases h
      rw [List.cons_append, readAtom, Escape.read_closing hread]
    · cases h
  · next c after hplain =>
    cases h
    rw [List.cons_append, readAtom]
    exact hplain

theorem readRange_closing {first : Char ⊕ CharSet} {set : CharSet}
    (h : readRange flags first cs = some (set, rest)) :
    readRange flags first (cs ++ closing) = some (set, rest ++ closing) := by
  unfold readRange at h ⊢
  have hne : flags.skip cs ≠ [] := by
    intro hempty
    rw [hempty] at h
    cases h
  rw [skip_closing_of_ne_nil hne]
  split at h
  · cases h
  · next hrest =>
    cases h
    rw [hrest]
    rfl
  · next hrest =>
    cases h
    rw [hrest]
    rfl
  · next hempty hbracket hminus =>
    split
    · next heq => exact absurd (List.append_eq_nil_iff.mp heq).1 hne
    · next heq => exact absurd heq (append_closing_ne (by decide) hbracket)
    · next heq => exact absurd heq (append_closing_ne (by decide) hminus)
    · obtain ⟨⟨last, after⟩, hlast, h⟩ := Option.bind_eq_some_iff.mp h
      rw [readAtom_closing hlast]
      rcases first with c | _ <;> rcases last with d | _ <;> dsimp only at h
      · split at h
        · next hle =>
          cases h
          exact if_pos hle
        · cases h
      all_goals cases h

theorem readItem_closing {set : CharSet} (h : readItem flags cs = some (set, rest)) :
    ReadsOn (readItem flags (cs ++ closing)) (fun rest => (set, rest)) rest := by
  unfold readItem at h ⊢
  obtain ⟨⟨first, after⟩, hatom, h⟩ := Option.bind_eq_some_iff.mp h
  rw [readAtom_closing hatom]
  rcases skip_closing flags after with hskip | ⟨hempty, hskip⟩
  · left
    dsimp only [Option.bind_some, Option.pure_def, Option.bind_eq_bind] at h ⊢
    rw [hskip]
    split at h
    · next hminus =>
      rw [hminus]
      exact readRange_closing h
    · next hplain =>
      cases h
      split
      · next heq => exact absurd heq (append_closing_ne (by decide) hplain)
      · rfl
  · right
    dsimp only [Option.bind_some, Option.pure_def, Option.bind_eq_bind] at h ⊢
    rw [hempty] at h
    cases h
    rw [hskip]
    exact ⟨rfl, rfl⟩

theorem readItems_nil (before : CharSet → CharSet) (set : CharSet) (n : Nat) :
    readItems flags before set n [] = none := by
  rcases n with _ | n
  · rfl
  · rw [readItems, Flags.skip_nil]
    rfl

theorem readNegation_closing {negated : Bool} (h : readNegation flags cs = (negated, rest))
    (hne : rest ≠ []) : readNegation flags (cs ++ closing) = (negated, rest ++ closing) := by
  unfold readNegation at h ⊢
  have hstart : flags.skip cs ≠ [] := by
    intro hempty
    rw [hempty] at h
    exact hne (Prod.mk.inj h).2.symm
  rw [skip_closing_of_ne_nil hstart]
  generalize flags.skip cs = cs at h ⊢
  split at h
  · cases h
    exact congrArg (true, ·) (skip_closing_of_ne_nil hne)
  · next hplain =>
    cases h
    split
    · next heq => exact absurd heq (append_closing_ne (by decide) hplain)
    · rfl

theorem readLeading_closing {set : CharSet} (h : readLeading cs = (set, rest)) :
    readLeading (cs ++ closing) = (set, rest ++ closing) := by
  fun_cases readLeading cs with
  | case1 after =>
    cases h
    rw [List.cons_append, readLeading, dropWhile_closing (by decide)]
  | case2 after =>
    cases h
    rfl
  | case3 cs hminus hbracket =>
    rw [readLeading] at h
    · cases h
      rw [readLeading]
      · exact fun _ => append_closing_ne (by decide) hminus
      · exact fun _ => append_closing_ne (by decide) hbracket
    · exact hminus
    · exact hbracket

/-- Items that are read with that much fuel are read in front of the end of a group as well. -/
def ItemsStay (flags : Flags) (n : Nat) : Prop :=
  ∀ {before set read cs rest m}, n ≤ m → readItems flags before set n cs = some (read, rest) →
    readItems flags before set m (cs ++ closing) = some (read, rest ++ closing)

/-- So are classes. -/
def ClassesStay (flags : Flags) (n : Nat) : Prop :=
  ∀ {read cs rest m}, n ≤ m → Bracket.read flags n cs = some (read, rest) →
    Bracket.read flags m (cs ++ closing) = some (read, rest ++ closing)

theorem ItemsStay.succ {n : Nat} (hitems : ItemsStay flags n) (hclasses : ClassesStay flags n) :
    ItemsStay flags (n + 1) := by
  intro before set read cs rest m hm h
  obtain ⟨m, rfl⟩ := Nat.exists_eq_add_of_le' (Nat.lt_of_lt_of_le n.succ_pos hm)
  have hn : n ≤ m := Nat.le_of_succ_le_succ hm
  have hne : flags.skip cs ≠ [] := by
    intro hempty
    rw [readItems, hempty] at h
    cases h
  rw [readItems] at h ⊢
  dsimp only at h ⊢
  rw [skip_closing_of_ne_nil hne]
  generalize flags.skip cs = cs at h hne ⊢
  rw [operator?_closing]
  cases hoperator : operator? cs with
  | some found =>
    rw [hoperator] at h
    exact hitems hn h
  | none =>
    rw [hoperator] at h
    dsimp only [Option.map_none] at h ⊢
    split at h
    · cases h
      rfl
    · next inner =>
      obtain ⟨⟨set', after⟩, hread, h⟩ := Option.bind_eq_some_iff.mp h
      have hinner : (readNamed flags (inner ++ closing)).or
          (Bracket.read flags m (inner ++ closing)) = some (set', after ++ closing) := by
        rw [readNamed_closing]
        cases hnamed : readNamed flags inner with
        | some found =>
          rw [hnamed] at hread
          cases hread
          rfl
        | none =>
          rw [hnamed, Option.none_or] at hread
          exact hclasses hn hread
      refine Option.bind_eq_some_iff.mpr ⟨_, hinner, ?_⟩
      exact hitems hn h
    · next hclose hopen =>
      obtain ⟨⟨item, after⟩, hitem, h⟩ := Option.bind_eq_some_iff.mp h
      have hafter : after ≠ [] := by
        rintro rfl
        rw [readItems_nil] at h
        cases h
      split
      · next heq => exact absurd heq (append_closing_ne (by decide) hclose)
      · next heq => exact absurd heq (append_closing_ne (by decide) hopen)
      · rw [(readItem_closing hitem).of_ne_nil hafter]
        exact hitems hn h

theorem ItemsStay.classesStay {n : Nat} (hitems : ItemsStay flags n) :
    ClassesStay flags (n + 1) := by
  intro read cs rest m hm h
  obtain ⟨m, rfl⟩ := Nat.exists_eq_add_of_le' (Nat.lt_of_lt_of_le n.succ_pos hm)
  have hn : n ≤ m := Nat.le_of_succ_le_succ hm
  rcases hnegation : readNegation flags cs with ⟨negated, start⟩
  rcases hleading : readLeading start with ⟨leading, items⟩
  rw [Bracket.read, hnegation] at h
  dsimp only at h
  rw [hleading] at h
  obtain ⟨⟨set, after⟩, hread, h⟩ := Option.bind_eq_some_iff.mp h
  obtain ⟨rfl, rfl⟩ := Prod.mk.inj (Option.some.inj h)
  have hne : start ≠ [] := by
    rintro rfl
    cases hleading
    rw [readItems_nil] at hread
    cases hread
  rw [Bracket.read, readNegation_closing hnegation hne]
  dsimp only
  rw [readLeading_closing hleading]
  exact Option.bind_eq_some_iff.mpr ⟨(set, after ++ closing), hitems hn hread, rfl⟩

/-- A class ends at its closing bracket, whatever follows. -/
theorem itemsStay_and_classesStay (n : Nat) : ItemsStay flags n ∧ ClassesStay flags n := by
  induction n with
  | zero =>
    constructor
    · intro _ _ _ _ _ _ _ h
      cases h
    · intro _ _ _ _ _ h
      cases h
  | succ n ih => exact ⟨ItemsStay.succ ih.1 ih.2, ItemsStay.classesStay ih.1⟩

theorem read?_closing {read : CharSet} (h : read? flags cs = some (read, rest)) :
    read? flags (cs ++ closing) = some (read, rest ++ closing) :=
  (itemsStay_and_classesStay _).2 (by rw [List.length_append]; omega) h

end Bracket

end WorkloadTuning.Regex
