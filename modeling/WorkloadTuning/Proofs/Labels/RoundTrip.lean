import WorkloadTuning.Proofs.Labels.Parts
import WorkloadTuning.Proofs.Labels.Printing

/-! Reading back what selectors are printed as. The commas of the printed text cut it where the
requirements were joined, so a selector that was read is read again exactly if each of its
requirements is. -/

namespace WorkloadTuning

open Text

namespace Requirement

open LabelSelector (Thins)

variable {part s : List Char} {r : Requirement} {values : List String}

/-! ### What printing leaves out -/

/-- The values that are kept of a set are its pieces less the blanks around them. -/
theorem thins_intercalate_values (pieces : List (List Char)) :
    Thins ([','].intercalate
      (((pieces.map trimmed).filter fun value => !value.isEmpty).map String.toList))
      ([','].intercalate pieces) := by
  induction pieces with
  | nil => exact .nil
  | cons piece others ih =>
    have hpiece : Thins (trimmed piece).toList piece := by
      rw [toList_trimmed]
      exact .trim piece
    rw [List.map_cons, List.filter_cons]
    cases others with
    | nil =>
      split
      · simpa using hpiece
      · next hempty => simpa [show (trimmed piece).toList = [] by simpa using hempty] using hpiece
    | cons next others =>
      rw [List.intercalate_cons_cons, List.append_assoc]
      split
      · rw [List.map_cons]
        generalize List.map String.toList _ = kept at ih ⊢
        cases kept with
        | nil =>
          rw [List.intercalate_singleton, ← List.append_nil (trimmed piece).toList]
          exact hpiece.append (.skip (by decide) (by decide) ih)
        | cons first kept =>
          rw [List.intercalate_cons_cons, List.append_assoc]
          exact hpiece.append (.keep ih)
      · next hempty =>
        rw [show (trimmed piece).toList = [] by simpa using hempty] at hpiece
        exact hpiece.append (.skip (by decide) (by decide) ih)

theorem thins_valuesText (h : valuesOf? s = some values) : Thins (valuesText values) s := by
  obtain ⟨inner, hinner, rfl⟩ := valuesOf?_eq_some_iff.mp h
  have hvalues := thins_intercalate_values (pieces ',' inner)
  rw [intercalate_pieces] at hvalues
  refine .of_trim ?_
  rw [hinner]
  exact .keep (hvalues.append (.refl _))

/-- A requirement is printed as the part it was read from, less blanks, commas and a second `=`. -/
theorem thins_toText (h : Reads part r) : Thins r.toText.toList part := by
  have htrimmed : ∀ s, Thins (trimmed s).toList s := fun s => by
    rw [toList_trimmed]
    exact .trim s
  cases h with
  | @noneOf before after values hcut hvalues =>
    rw [toList_noneOf, cut?_eq hcut]
    exact ((htrimmed before).append (.refl _)).append (thins_valuesText hvalues)
  | @oneOf before after values hnotin hcut hvalues =>
    rw [toList_oneOf, cut?_eq hcut]
    exact ((htrimmed before).append (.refl _)).append (thins_valuesText hvalues)
  | @notEquals before after hplain hcut =>
    rw [toList_notEquals, cut?_eq hcut, List.append_assoc]
    exact (htrimmed before).append ((Thins.refl _).append (htrimmed after))
  | @doubled before after hplain hne hcut =>
    rw [toList_equals, cut?_eq hcut, List.append_assoc]
    refine (htrimmed before).append (.append ?_ (htrimmed after))
    exact .keep (.skip (by decide) (by decide) .nil)
  | @equals before after hplain hne hdoubled hcut =>
    rw [toList_equals, cut?_eq hcut, List.append_assoc]
    exact (htrimmed before).append ((Thins.refl _).append (htrimmed after))
  | @absent after hplain hno hpart =>
    rw [toList_absent, hpart]
    exact .keep (htrimmed after)
  | present hplain hno hpart =>
    rw [toText, String.toList_ofList]
    exact .refl part

theorem key_infix_toText (r : Requirement) : r.key.toList <:+: r.toText.toList := by
  cases r with
  | equals key value =>
    rw [toList_equals]
    exact (List.prefix_append _ _).isInfix
  | notEquals key value =>
    rw [toList_notEquals]
    exact (List.prefix_append _ _).isInfix
  | present key => exact List.infix_rfl
  | absent key =>
    rw [toList_absent]
    exact (List.suffix_cons _ _).isInfix
  | oneOf key values =>
    rw [toList_oneOf, List.append_assoc]
    exact (List.prefix_append _ _).isInfix
  | noneOf key values =>
    rw [toList_noneOf, List.append_assoc]
    exact (List.prefix_append _ _).isInfix

/-- What has been read is read again from its text exactly if it is legible. -/
theorem parse_toText_iff_isLegible (h : parse s = .ok r) :
    parse r.toText.toList = .ok r ↔ r.IsLegible := by
  obtain ⟨-, hreads, hkey⟩ := parse_eq_ok_iff.mp h
  refine ⟨fun hagain => ?_, parse_toText_of_isLegible hreads hkey⟩
  have htrim : ∀ s, trim (trimmed s).toList = (trimmed s).toList := fun s => by
    rw [toList_trimmed, trim_trim]
  cases hreads with
  | doubled => exact isLegible_of_parse_toText hkey (htrim _) hagain
  | equals => exact isLegible_of_parse_toText hkey (htrim _) hagain
  | noneOf | oneOf | notEquals | absent | present => trivial

end Requirement

namespace LabelSelector

variable {text : String} {selector : LabelSelector} {requirements : List Requirement}

/-! ### Selectors -/

theorem toList_toText (selector : LabelSelector) : selector.toText.toList =
    [','].intercalate (selector.requirements.map fun r => r.toText.toList) := by
  rw [toText, joined, String.toList_intercalate, List.map_map]
  rfl

theorem parse_eq_ok_iff (hne : trim text.toList ≠ []) : parse text = .ok selector ↔
    List.Forall₂ (fun part r => Requirement.parse part = .ok r) (partsFrom 0 text.toList)
      selector.requirements := by
  obtain ⟨requirements⟩ := selector
  rw [← mapM_eq_ok, parse, if_neg (by simpa using hne)]
  cases (partsFrom 0 text.toList).mapM Requirement.parse with
  | error fault => simp
  | ok found => simp

theorem parse_toText_nil : parse (toText ⟨[]⟩) = .ok ⟨[]⟩ := by decide

/-- Requirements that are joined are read one by one. -/
theorem parse_toText_eq_ok_iff (hkeys : ∀ r ∈ requirements, Requirement.isKey r.key)
    (hparts : AreParts 0 (requirements.map fun r => r.toText.toList)) :
    parse (toText ⟨requirements⟩) = .ok ⟨requirements⟩ ↔
      ∀ r ∈ requirements, Requirement.parse r.toText.toList = .ok r := by
  cases requirements with
  | nil => simp [parse_toText_nil]
  | cons r others =>
    have hblank : trim (toText ⟨r :: others⟩).toList ≠ [] := by
      obtain ⟨hne, hblanks⟩ := Requirement.isKey_iff.mp (hkeys r List.mem_cons_self)
      obtain ⟨c, hc⟩ := List.exists_mem_of_ne_nil _ hne
      have hfirst : r.toText.toList ∈ (r :: others).map fun r => r.toText.toList :=
        List.mem_map_of_mem List.mem_cons_self
      have hwithin := r.key_infix_toText.trans (infix_intercalate [','] hfirst)
      rw [toList_toText]
      exact List.ne_nil_of_mem (mem_trim (hwithin.subset hc) (hblanks c hc))
    rw [parse_eq_ok_iff hblank, toList_toText, partsFrom_intercalate (by simp) hparts,
      List.forall₂_map_left_iff, List.forall₂_same]

/-- A selector that was read is read again from the text it is printed as exactly if each of its
equalities is legible there. -/
theorem parse_toText_iff (h : parse text = .ok selector) :
    parse selector.toText = .ok selector ↔ ∀ r ∈ selector.requirements, r.IsLegible := by
  by_cases hblank : trim text.toList = []
  · obtain rfl : (⟨[]⟩ : LabelSelector) = selector := by
      rw [parse, if_pos (by simpa using hblank)] at h
      exact Except.ok.inj h
    simp [parse_toText_nil]
  have hread := (parse_eq_ok_iff hblank).mp h
  have hthins : List.Forall₂ Thins (selector.requirements.map fun r => r.toText.toList)
      (partsFrom 0 text.toList) := by
    refine List.forall₂_map_left_iff.mpr (hread.flip.imp fun r part hpart => ?_)
    exact .of_trim (Requirement.thins_toText (Requirement.parse_eq_ok_iff.mp hpart).2.1)
  have hkeys : ∀ r ∈ selector.requirements, Requirement.isKey r.key := by
    intro r hr
    obtain ⟨part, -, hpart⟩ := exists_left_of_mem hread hr
    exact (Requirement.parse_eq_ok_iff.mp hpart).2.2
  rw [parse_toText_eq_ok_iff hkeys (Thins.areParts hthins (areParts_partsFrom 0 _))]
  refine forall₂_congr fun r hr => ?_
  obtain ⟨part, -, hpart⟩ := exists_left_of_mem hread hr
  exact Requirement.parse_toText_iff_isLegible hpart

theorem sets_and_equalities_reread :
    ∃ selector, parse "app = web, tier!=db, env in (prod, , staging)" = .ok selector ∧
      selector.toText = "app=web,tier!=db,env in (prod,staging)" ∧
      parse selector.toText = .ok selector := by
  have hread : parse "app = web, tier!=db, env in (prod, , staging)" = .ok
      ⟨[.equals "app" "web", .notEquals "tier" "db", .oneOf "env" ["prod", "staging"]]⟩ := by
    decide +kernel
  exact ⟨_, hread, by decide +kernel, (parse_toText_iff hread).mpr (by decide +kernel)⟩

/-- A blank keeps the `!` at the end of a key apart from the `=`. It is not printed, and what was an
equality is read as its contrary. -/
theorem bang_key_misread :
    parse "a! =b" = .ok ⟨[.equals "a!" "b"]⟩ ∧
      parse (toText ⟨[.equals "a!" "b"]⟩) = .ok ⟨[.notEquals "a" "b"]⟩ ∧
      (⟨[.equals "a!" "b"]⟩ : LabelSelector) ≠ ⟨[.notEquals "a" "b"]⟩ ∧
      selects ⟨[.equals "a!" "b"]⟩ .empty = false ∧
      selects ⟨[.notEquals "a" "b"]⟩ .empty = true := by
  decide +kernel

end LabelSelector

end WorkloadTuning
