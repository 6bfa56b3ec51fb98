import WorkloadTuning.Proofs.Regex.Closing

/-! A pattern between the ends of a text. Where the pattern is an expression of its own, the
expression between the ends is the same one. -/

namespace WorkloadTuning.Regex

variable {cs rest : List Char} {flags : Flags}

/-! ### Repetitions -/

theorem readNumber_closing {n : Nat} (h : readNumber cs = some (n, rest)) :
    readNumber (cs ++ closing) = some (n, rest ++ closing) := by
  unfold readNumber at h ⊢
  dsimp only at h ⊢
  rw [dropWhile_closing (by decide), takeWhile_closing (by decide), dropWhile_closing (by decide),
    dropWhile_closing (by decide)]
  obtain ⟨k, hk, h⟩ := Option.bind_eq_some_iff.mp h
  refine Option.bind_eq_some_iff.mpr ⟨k, hk, ?_⟩
  split at h
  · next hlt =>
    cases h
    exact if_pos hlt
  · cases h

theorem readCount_closing {bounds : Nat × Option Nat} (h : readCount cs = some (bounds, rest)) :
    readCount (cs ++ closing) = some (bounds, rest ++ closing) := by
  obtain ⟨⟨least, after⟩, hleast, h⟩ := Option.bind_eq_some_iff.mp h
  refine Option.bind_eq_some_iff.mpr ⟨_, readNumber_closing hleast, ?_⟩
  dsimp only at h ⊢
  split at h
  · cases h
    rfl
  · cases h
    rfl
  · next more hplain =>
    obtain ⟨⟨most, after⟩, hmost, h⟩ := Option.bind_eq_some_iff.mp h
    split
    · next heq => cases heq
    · next heq => exact absurd (List.cons.inj heq).2 (append_closing_ne (by decide) hplain)
    · next heq =>
      cases heq
      refine Option.bind_eq_some_iff.mpr ⟨_, readNumber_closing hmost, ?_⟩
      dsimp only at h ⊢
      split at h
      · split at h
        · next hle =>
          cases h
          exact if_pos hle
        · cases h
      · cases h
    · next hcomma => exact absurd rfl (hcomma _)
  · cases h

theorem skipLazy_closing (cs : List Char) : skipLazy (cs ++ closing) = skipLazy cs ++ closing := by
  fun_cases skipLazy cs with
  | case1 rest => rfl
  | case2 cs hplain =>
    rw [skipLazy]
    exact fun _ => append_closing_ne (by decide) hplain

theorem readRepetitions_nil {n m : Nat} {r read : Regex} (hm : n ≤ m)
    (h : readRepetitions flags n r [] = some (read, rest)) :
    rest = [] ∧ readRepetitions flags m r [] = some (read, []) := by
  rcases n with _ | n
  · cases h
  · obtain ⟨m, rfl⟩ := Nat.exists_eq_add_of_le' (Nat.lt_of_lt_of_le n.succ_pos hm)
    rw [readRepetitions, Flags.skip_nil] at h ⊢
    cases h
    exact ⟨rfl, rfl⟩

theorem readRepetitions_closing {n m : Nat} {r read : Regex} (hm : n ≤ m)
    (h : readRepetitions flags n r cs = some (read, rest)) :
    ReadsOn (readRepetitions flags m r (cs ++ closing)) (fun rest => (read, rest)) rest := by
  induction n generalizing m r cs with
  | zero => cases h
  | succ n ih =>
    obtain ⟨m, rfl⟩ := Nat.exists_eq_add_of_le' (Nat.lt_of_lt_of_le n.succ_pos hm)
    have hn : n ≤ m := Nat.le_of_succ_le_succ hm
    rw [readRepetitions] at h ⊢
    rcases skip_closing flags cs with hskip | ⟨hempty, hskip⟩
    · rw [hskip]
      generalize flags.skip cs = cs at h ⊢
      split at h
      · have hnext := ih hn h
        rw [← skipLazy_closing] at hnext
        exact hnext
      · have hnext := ih hn h
        rw [← skipLazy_closing] at hnext
        exact hnext
      · have hnext := ih hn h
        rw [← skipLazy_closing] at hnext
        exact hnext
      · next inner =>
        obtain ⟨⟨bounds, after⟩, hcount, h⟩ := Option.bind_eq_some_iff.mp h
        change ReadsOn (readCount (inner ++ closing) >>= _) _ _
        rw [readCount_closing hcount]
        dsimp only [Option.bind_eq_bind, Option.bind_some] at h ⊢
        rcases skip_closing flags after with hskip | ⟨hempty, hskip⟩
        · rw [hskip, skipLazy_closing]
          exact ih hn h
        · rw [hempty] at h
          rw [hskip]
          exact .inr (readRepetitions_nil hn h)
      · next hstar hplus hquestion hbrace =>
        cases h
        left
        split
        · next heq => exact absurd heq (append_closing_ne (by decide) hstar)
        · next heq => exact absurd heq (append_closing_ne (by decide) hplus)
        · next heq => exact absurd heq (append_closing_ne (by decide) hquestion)
        · next heq => exact absurd heq (append_closing_ne (by decide) hbrace)
        · rfl
    · rw [hempty] at h
      cases h
      rw [hskip]
      exact .inr ⟨rfl, rfl⟩

/-! ### Groups -/

theorem readName_closing {name : String} (h : readName cs = some (name, rest)) :
    readName (cs ++ closing) = some (name, rest ++ closing) := by
  unfold readName at h ⊢
  split at h
  · next after hafter =>
    have hne : cs.dropWhile isNameChar ≠ [] := by simp [hafter]
    rw [dropWhile_append_of_ne_nil hne, takeWhile_append_of_ne_nil hne, hafter, List.cons_append]
    dsimp only at h ⊢
    split at h
    · next hstart =>
      cases h
      exact if_pos hstart
    · cases h
  · cases h

theorem readOpening_closing {o : Opening} (h : readOpening flags cs = some (o, rest)) :
    ReadsOn (readOpening flags (cs ++ closing)) (fun rest => (o, rest)) rest := by
  unfold readOpening at h ⊢
  rcases skip_closing flags cs with hskip | ⟨hempty, hskip⟩
  · left
    rw [hskip]
    generalize flags.skip cs = cs at h ⊢
    split at h
    · obtain ⟨⟨name, after⟩, hname, h⟩ := Option.map_eq_some_iff.mp h
      cases h
      exact Option.map_eq_some_iff.mpr ⟨_, readName_closing hname, rfl⟩
    · obtain ⟨⟨name, after⟩, hname, h⟩ := Option.map_eq_some_iff.mp h
      cases h
      exact Option.map_eq_some_iff.mpr ⟨_, readName_closing hname, rfl⟩
    · cases h
    · next letters hnamed hangle hparen =>
      obtain ⟨⟨inner, after⟩, hread, h⟩ := Option.bind_eq_some_iff.mp h
      split
      · next heq =>
        obtain ⟨_, rfl, hrest⟩ := eq_cons_of_append_closing (List.cons.inj heq).2 (by decide)
        obtain ⟨_, rfl, -⟩ := eq_cons_of_append_closing hrest (by decide)
        exact absurd rfl (hnamed _)
      · next heq => exact absurd (List.cons.inj heq).2 (append_closing_ne (by decide) hangle)
      · next heq =>
        rcases letters with _ | ⟨c, letters⟩
        · cases hread
        · obtain ⟨rfl, -⟩ := List.cons.inj (List.cons.inj heq).2
          exact absurd rfl (hparen _)
      · next heq =>
        cases heq
        refine Option.bind_eq_some_iff.mpr ⟨_, Flags.read_closing hread, ?_⟩
        dsimp only at h ⊢
        split at h
        · next heq =>
          cases heq
          cases h
          rfl
        · next heq =>
          cases heq
          cases h
          rfl
        · cases h
      · next hquestion => exact absurd rfl (hquestion _)
    · next hquestion =>
      cases h
      split
      · next heq => exact absurd heq (append_closing_ne (by decide) hquestion)
      · next heq => exact absurd heq (append_closing_ne (by decide) hquestion)
      · next heq => exact absurd heq (append_closing_ne (by decide) hquestion)
      · next heq => exact absurd heq (append_closing_ne (by decide) hquestion)
      · rfl
  · rw [hempty] at h
    cases h
    rw [hskip]
    exact .inr ⟨rfl, rfl⟩

/-! ### Alternatives -/

theorem readSequence_nil {n m : Nat} {read : Regex} {after : Flags} (hm : n ≤ m)
    (h : readSequence n flags [] = some (read, after, rest)) :
    rest = [] ∧ readSequence m flags [] = some (read, after, []) := by
  rcases n with _ | n
  · cases h
  · obtain ⟨m, rfl⟩ := Nat.exists_eq_add_of_le' (Nat.lt_of_lt_of_le n.succ_pos hm)
    rw [readSequence, Flags.skip_nil] at h ⊢
    cases h
    exact ⟨rfl, rfl⟩

theorem readGroup_nil (n : Nat) (inner : Flags) (name : Option String) :
    readGroup n flags inner name [] = none := by
  rcases n with _ | _ | _ | n
  · rfl
  · rfl
  · rfl
  · rw [readGroup, readAlternatives, readSequence, Flags.skip_nil]
    rfl

/-- What the readers of an expression do with that much fuel, they do in front of a closing
parenthesis with that much or more. -/
structure StaysRead (n : Nat) : Prop where
  alternatives : ∀ {m flags cs read rest}, n ≤ m →
    readAlternatives n flags cs = some (read, rest) →
      ReadsOn (readAlternatives m flags (cs ++ closing)) (fun rest => (read, rest)) rest
  sequence : ∀ {m flags cs read after rest}, n ≤ m →
    readSequence n flags cs = some (read, after, rest) →
      ReadsOn (readSequence m flags (cs ++ closing)) (fun rest => (read, after, rest)) rest
  group : ∀ {m flags inner name cs read after rest}, n ≤ m →
    readGroup n flags inner name cs = some (read, after, rest) →
      ReadsOn (readGroup m flags inner name (cs ++ closing)) (fun rest => (read, after, rest)) rest
  following : ∀ {m flags r cs read after rest}, n ≤ m →
    readAfter n flags r cs = some (read, after, rest) →
      ReadsOn (readAfter m flags r (cs ++ closing)) (fun rest => (read, after, rest)) rest

theorem alternatives_closing {n m : Nat} {read : Regex} (ih : StaysRead n) (hm : n ≤ m)
    (h : readAlternatives (n + 1) flags cs = some (read, rest)) :
    ReadsOn (readAlternatives (m + 1) flags (cs ++ closing)) (fun rest => (read, rest)) rest := by
  rw [readAlternatives] at h ⊢
  obtain ⟨⟨first, flags', next⟩, hfirst, h⟩ := Option.bind_eq_some_iff.mp h
  rcases ih.sequence hm hfirst with hread | ⟨rfl, hread⟩
  · rw [hread]
    dsimp only [Option.bind_eq_bind, Option.bind_some] at h ⊢
    split at h
    · obtain ⟨⟨others, last⟩, hothers, h⟩ := Option.bind_eq_some_iff.mp h
      cases h
      rcases ih.alternatives hm hothers with hread | ⟨rfl, hread⟩
      · exact .inl (Option.bind_eq_some_iff.mpr ⟨_, hread, rfl⟩)
      · exact .inr ⟨rfl, Option.bind_eq_some_iff.mpr ⟨_, hread, rfl⟩⟩
    · next hbar =>
      cases h
      left
      split
      · next heq => exact absurd heq (append_closing_ne (by decide) hbar)
      · rfl
  · cases h
    rw [hread]
    exact .inr ⟨rfl, rfl⟩

theorem group_closing {n m : Nat} {inner after : Flags} {name : Option String} {read : Regex}
    (ih : StaysRead n) (hm : n ≤ m)
    (h : readGroup (n + 1) flags inner name cs = some (read, after, rest)) :
    ReadsOn (readGroup (m + 1) flags inner name (cs ++ closing))
      (fun rest => (read, after, rest)) rest := by
  rw [readGroup] at h ⊢
  obtain ⟨⟨r, next⟩, hr, h⟩ := Option.bind_eq_some_iff.mp h
  rcases ih.alternatives hm hr with hread | ⟨rfl, hread⟩
  · rw [hread]
    dsimp only [Option.bind_eq_bind, Option.bind_some] at h ⊢
    split at h
    · exact ih.following hm h
    · cases h
  · cases h

theorem following_closing {n m : Nat} {after : Flags} {r read : Regex} (ih : StaysRead n)
    (hm : n ≤ m) (h : readAfter (n + 1) flags r cs = some (read, after, rest)) :
    ReadsOn (readAfter (m + 1) flags r (cs ++ closing)) (fun rest => (read, after, rest)) rest := by
  rw [readAfter] at h ⊢
  obtain ⟨⟨r, next⟩, hr, h⟩ := Option.bind_eq_some_iff.mp h
  obtain ⟨⟨others, after, last⟩, hothers, h⟩ := Option.bind_eq_some_iff.mp h
  cases h
  have hlength : cs.length + 1 ≤ (cs ++ closing).length + 1 := by simp
  rcases readRepetitions_closing hlength hr with hread | ⟨rfl, hread⟩
  · rw [hread]
    dsimp only [Option.bind_eq_bind, Option.bind_some]
    rcases ih.sequence hm hothers with hread | ⟨rfl, hread⟩
    · exact .inl (Option.bind_eq_some_iff.mpr ⟨_, hread, rfl⟩)
    · exact .inr ⟨rfl, Option.bind_eq_some_iff.mpr ⟨_, hread, rfl⟩⟩
  · rw [hread]
    obtain ⟨rfl, hread⟩ := readSequence_nil hm hothers
    right
    refine ⟨rfl, Option.bind_eq_some_iff.mpr ⟨_, rfl, ?_⟩⟩
    exact Option.bind_eq_some_iff.mpr ⟨_, hread, rfl⟩

theorem sequence_closing {n m : Nat} {last : Flags} {read : Regex} (ih : StaysRead n) (hm : n ≤ m)
    (h : readSequence (n + 1) flags cs = some (read, last, rest)) :
    ReadsOn (readSequence (m + 1) flags (cs ++ closing)) (fun rest => (read, last, rest)) rest := by
  rw [readSequence] at h ⊢
  rcases skip_closing flags cs with hskip | ⟨hempty, hskip⟩
  · rw [hskip]
    generalize flags.skip cs = cs at h ⊢
    rcases cs with _ | ⟨c, after⟩
    · cases h
      exact .inl rfl
    rw [List.cons_append]
    dsimp only at h ⊢
    split at h
    · cases h
      exact .inl rfl
    · cases h
      exact .inl rfl
    · cases h
    · cases h
    · cases h
    · cases h
    · obtain ⟨⟨opening, next⟩, hopening, h⟩ := Option.bind_eq_some_iff.mp h
      rcases readOpening_closing hopening with hread | ⟨rfl, hread⟩
      · rw [hread]
        rcases opening with ⟨inner, name⟩ | inner
        · exact ih.group hm h
        · exact ih.sequence hm h
      · rw [hread]
        rcases opening with ⟨inner, name⟩ | inner
        · dsimp only at h
          rw [readGroup_nil] at h
          cases h
        · exact .inr (readSequence_nil hm h)
    · obtain ⟨⟨set, next⟩, hset, h⟩ := Option.bind_eq_some_iff.mp h
      rw [Bracket.read?_closing hset]
      exact ih.following hm h
    · exact ih.following hm h
    · exact ih.following hm h
    · exact ih.following hm h
    · obtain ⟨⟨e, next⟩, he, h⟩ := Option.bind_eq_some_iff.mp h
      rw [Escape.read_closing he]
      rcases e with c | set | a
      · exact ih.following hm h
      · exact ih.following hm h
      · exact ih.following hm h
    · exact ih.following hm h
  · rw [hempty] at h
    cases h
    rw [hskip]
    exact .inr ⟨rfl, rfl⟩

theorem staysRead (n : Nat) : StaysRead n := by
  induction n with
  | zero =>
    constructor
    · intro _ _ _ _ _ _ h
      cases h
    · intro _ _ _ _ _ _ _ h
      cases h
    · intro _ _ _ _ _ _ _ _ _ h
      cases h
    · intro _ _ _ _ _ _ _ _ h
      cases h
  | succ n ih =>
    have hpred : ∀ {m}, n + 1 ≤ m → ∃ k, n ≤ k ∧ m = k + 1 := by
      intro m hm
      exact ⟨m - 1, by omega, by omega⟩
    constructor
    · intro _ _ _ _ _ hm h
      obtain ⟨k, hk, rfl⟩ := hpred hm
      exact alternatives_closing ih hk h
    · intro _ _ _ _ _ _ hm h
      obtain ⟨k, hk, rfl⟩ := hpred hm
      exact sequence_closing ih hk h
    · intro _ _ _ _ _ _ _ _ hm h
      obtain ⟨k, hk, rfl⟩ := hpred hm
      exact group_closing ih hk h
    · intro _ _ _ _ _ _ _ hm h
      obtain ⟨k, hk, rfl⟩ := hpred hm
      exact following_closing ih hk h

/-! ### Between the ends of a text -/

/-- The expression, from the start of a text up to its end. -/
def between (r : Regex) : Regex :=
  .seq (.anchor .textStart) (.seq r (.seq (.anchor .textEnd) .empty))

theorem readAlternatives_of_parse? {pattern : String} {r : Regex} (h : parse? pattern = some r) :
    readAlternatives (4 * pattern.toList.length + 4) {} pattern.toList = some (r, []) := by
  obtain ⟨⟨read, rest⟩, hread, h⟩ := Option.bind_eq_some_iff.mp h
  dsimp only at h
  split at h
  · next hvalid =>
    cases h
    have hrest : rest = [] := by
      simp only [Bool.and_eq_true, List.isEmpty_iff] at hvalid
      exact hvalid.1.1
    rw [hread, hrest]
  · cases h

/-- Behind the pattern, its group is closed and the text ends. -/
theorem readGroup_closing {n m : Nat} {last : Flags} {r read : Regex} (hm : n ≤ m)
    (hr : readAlternatives n {} cs = some (r, []))
    (h : readGroup (m + 6) {} {} none (cs ++ closing) = some (read, last, rest)) :
    read = .seq r (.seq (.anchor .textEnd) .empty) ∧ rest = [] := by
  rw [readGroup] at h
  obtain ⟨⟨inner, next⟩, hinner, h⟩ := Option.bind_eq_some_iff.mp h
  rcases (staysRead n).alternatives (m := m + 5) (by omega) hr with hread | ⟨-, hread⟩
  · rw [hread] at hinner
    cases hinner
    cases h
    exact ⟨rfl, rfl⟩
  · rw [hread] at hinner
    cases hinner
    cases h

theorem readAlternatives_between {n m : Nat} {r whole : Regex} (hm : n ≤ m)
    (hr : readAlternatives n {} cs = some (r, []))
    (h : readAlternatives (m + 10) {} ('^' :: '(' :: '?' :: ':' :: (cs ++ closing)) =
      some (whole, rest)) : whole = between r := by
  rw [readAlternatives, readSequence] at h
  change (readAfter (m + 8) {} (.anchor .textStart) _ >>= _) = _ at h
  rw [readAfter] at h
  change (readSequence (m + 7) {} ('(' :: '?' :: ':' :: (cs ++ closing)) >>= _) >>= _ = _ at h
  rw [readSequence] at h
  change (readGroup (m + 6) {} {} none (cs ++ closing) >>= _) >>= _ = _ at h
  obtain ⟨⟨first, flags, next⟩, hfirst, h⟩ := Option.bind_eq_some_iff.mp h
  obtain ⟨⟨read, last, after⟩, hread, hfirst⟩ := Option.bind_eq_some_iff.mp hfirst
  obtain ⟨rfl, rfl⟩ := readGroup_closing hm hr hread
  cases hfirst
  cases h
  rfl

/-- The pattern between the ends of a text is the same expression between them. -/
theorem parse?_between {pattern : String} {r whole : Regex} (h : parse? pattern = some r)
    (hwhole : parse? ("^(?:" ++ pattern ++ ")$") = some whole) : whole = between r := by
  have hread := readAlternatives_of_parse? hwhole
  have htext : ("^(?:" ++ pattern ++ ")$").toList =
      '^' :: '(' :: '?' :: ':' :: (pattern.toList ++ closing) := by
    simp [closing]
  have hfuel : 4 * ('^' :: '(' :: '?' :: ':' :: (pattern.toList ++ closing)).length + 4 =
      4 * pattern.toList.length + 4 + 14 + 10 := by
    simp only [List.length_cons, List.length_append, closing, List.length_nil]
    omega
  rw [htext, hfuel] at hread
  exact readAlternatives_between (Nat.le_add_right _ 14) (readAlternatives_of_parse? h) hread

end WorkloadTuning.Regex
