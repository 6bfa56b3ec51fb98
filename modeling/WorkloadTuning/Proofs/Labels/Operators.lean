import WorkloadTuning.Labels
import WorkloadTuning.Proofs.Outcome
import WorkloadTuning.Proofs.Text.Cut
import WorkloadTuning.Proofs.Text.Infix
import WorkloadTuning.Proofs.Text.Trim

/-! Reading single requirements. The rules below say which operator a part is read with and where it
is cut, and reading follows them. -/

namespace WorkloadTuning.Requirement

open Text

/-! ### The rules -/

/-- The part has neither of the operators for sets. -/
structure IsPlain (part : List Char) : Prop where
  no_notin : ¬ " notin ".toList <:+: part
  no_in : ¬ " in ".toList <:+: part

/-- How a part is read: the operators that come before in the order are not there, and the part is
cut at the first occurrence of its own. -/
inductive Reads (part : List Char) : Requirement → Prop
  | noneOf {before after values} (hcut : cut? " notin ".toList part = some (before, after))
      (hvalues : valuesOf? after = some values) : Reads part (.noneOf (trimmed before) values)
  | oneOf {before after values} (hnotin : ¬ " notin ".toList <:+: part)
      (hcut : cut? " in ".toList part = some (before, after))
      (hvalues : valuesOf? after = some values) : Reads part (.oneOf (trimmed before) values)
  | notEquals {before after} (hplain : IsPlain part)
      (hcut : cut? "!=".toList part = some (before, after)) :
      Reads part (.notEquals (trimmed before) (trimmed after))
  | doubled {before after} (hplain : IsPlain part) (hne : ¬ "!=".toList <:+: part)
      (hcut : cut? "==".toList part = some (before, after)) :
      Reads part (.equals (trimmed before) (trimmed after))
  | equals {before after} (hplain : IsPlain part) (hne : ¬ "!=".toList <:+: part)
      (hdoubled : ¬ "==".toList <:+: part) (hcut : cut? "=".toList part = some (before, after)) :
      Reads part (.equals (trimmed before) (trimmed after))
  | absent {after} (hplain : IsPlain part) (hno : '=' ∉ part) (hpart : part = '!' :: after) :
      Reads part (.absent (trimmed after))
  | present (hplain : IsPlain part) (hno : '=' ∉ part) (hpart : part.head? ≠ some '!') :
      Reads part (.present (String.ofList part))

theorem reads_of_ofPart {part : List Char} {r : Requirement} (h : ofPart part = .ok r) :
    Reads part r := by
  have hnone : ∀ {word : List Char}, word ≠ [] → cut? word part = none → ¬ word <:+: part :=
    fun hne => (cut?_eq_none_iff hne).mp
  unfold ofPart at h
  split at h
  · next hcut =>
    split at h
    · next hvalues => exact Except.ok.inj h ▸ .noneOf hcut hvalues
    · cases h
  · next hnotin =>
    have hnotin := hnone (by decide) hnotin
    split at h
    · next hcut =>
      split at h
      · next hvalues => exact Except.ok.inj h ▸ .oneOf hnotin hcut hvalues
      · cases h
    · next hin =>
      have hplain : IsPlain part := ⟨hnotin, hnone (by decide) hin⟩
      split at h
      · next hcut => exact Except.ok.inj h ▸ .notEquals hplain hcut
      · next hne =>
        have hne := hnone (by decide) hne
        split at h
        · next hcut => exact Except.ok.inj h ▸ .doubled hplain hne hcut
        · next hdoubled =>
          split at h
          · next hcut =>
            exact Except.ok.inj h ▸ .equals hplain hne (hnone (by decide) hdoubled) hcut
          · next hno =>
            have hno : '=' ∉ part := cut?_singleton_eq_none_iff.mp hno
            split at h
            · exact Except.ok.inj h ▸ .absent hplain hno rfl
            · next hhead =>
              refine Except.ok.inj h ▸ .present hplain hno fun heq => ?_
              obtain ⟨rest, rfl⟩ := List.head?_eq_some_iff.mp heq
              exact hhead rest rfl

theorem IsPlain.cuts {part : List Char} (h : IsPlain part) :
    cut? " notin ".toList part = none ∧ cut? " in ".toList part = none :=
  ⟨cut?_eq_none_of_not_isInfix h.no_notin, cut?_eq_none_of_not_isInfix h.no_in⟩

theorem cuts_of_not_mem {part : List Char} (h : '=' ∉ part) :
    cut? "!=".toList part = none ∧ cut? "==".toList part = none ∧
      cut? "=".toList part = none := by
  have hnone : ∀ word : List Char, '=' ∈ word → cut? word part = none := fun word hmem =>
    cut?_eq_none_of_not_isInfix fun hwithin => h (hwithin.subset hmem)
  exact ⟨hnone _ (by decide), hnone _ (by decide), hnone _ (by decide)⟩

theorem ofPart_of_reads {part : List Char} {r : Requirement} (h : Reads part r) :
    ofPart part = .ok r := by
  cases h with
  | noneOf hcut hvalues => simp only [ofPart, hcut, hvalues]
  | oneOf hnotin hcut hvalues =>
    simp only [ofPart, cut?_eq_none_of_not_isInfix hnotin, hcut, hvalues]
  | notEquals hplain hcut => simp only [ofPart, hplain.cuts, hcut]
  | doubled hplain hne hcut =>
    simp only [ofPart, hplain.cuts, cut?_eq_none_of_not_isInfix hne, hcut]
  | equals hplain hne hdoubled hcut =>
    simp only [ofPart, hplain.cuts, cut?_eq_none_of_not_isInfix hne,
      cut?_eq_none_of_not_isInfix hdoubled, hcut]
  | absent hplain hno hpart =>
    simp only [ofPart, hplain.cuts, cuts_of_not_mem hno]
    rw [hpart]
    rfl
  | present hplain hno hpart =>
    simp only [ofPart, hplain.cuts, cuts_of_not_mem hno]
    split
    · exact absurd rfl hpart
    · rfl

theorem isKey_iff {key : String} :
    isKey key ↔ key.toList ≠ [] ∧ ∀ c ∈ key.toList, isBlank c = false := by
  simp [isKey]

theorem parse_eq_ok_iff {piece : List Char} {r : Requirement} :
    parse piece = .ok r ↔ trim piece ≠ [] ∧ Reads (trim piece) r ∧ isKey r.key := by
  have hreads : ofPart (trim piece) = .ok r ↔ Reads (trim piece) r :=
    ⟨reads_of_ofPart, ofPart_of_reads⟩
  rw [← hreads]
  unfold parse
  cases trim piece with
  | nil => simp [bind_eq_ok, throw, throwThe, MonadExceptOf.throw]
  | cons c rest =>
    simp only [List.isEmpty_cons, Bool.false_eq_true, if_false, bind_eq_ok]
    constructor
    · rintro ⟨found, hfound, h⟩
      split at h
      · next hkey =>
        obtain rfl := Except.ok.inj h
        exact ⟨List.cons_ne_nil c rest, hfound, hkey⟩
      · cases h
    · rintro ⟨-, hfound, hkey⟩
      exact ⟨r, hfound, if_pos hkey⟩

end WorkloadTuning.Requirement
