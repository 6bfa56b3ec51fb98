import WorkloadTuning.Proofs.Labels.Operators

/-! Reading back what requirements are printed as. A printed requirement is read by the rule of its
own operator. Only for an equality there are conditions: with its key and its value, the operator
must not make up another one. -/

namespace WorkloadTuning.Requirement

open Text

variable {key value : String} {values : List String}

/-! ### Keys, values and sets of values -/

theorem toList_trimmed (s : List Char) : (trimmed s).toList = trim s :=
  String.toList_ofList

theorem trimmed_eq (h : trim value.toList = value.toList) : trimmed value.toList = value := by
  rw [trimmed, h, String.ofList_toList]

theorem trim_key (hkey : isKey key) : trim key.toList = key.toList :=
  trim_of_forall (isKey_iff.mp hkey).2

/-- Nothing is trimmed at the end of a key. -/
theorem trim_key_append (hkey : isKey key) {rest : List Char}
    (hlast : ∀ c ∈ rest.getLast?, isBlank c = false) :
    trim (key.toList ++ rest) = key.toList ++ rest := by
  obtain ⟨hne, hblank⟩ := isKey_iff.mp hkey
  apply trim_eq_self
  · intro c hc
    rw [List.head?_append_of_ne_nil _ hne] at hc
    exact hblank c (List.mem_of_mem_head? hc)
  · intro c hc
    rw [List.getLast?_append] at hc
    cases hrest : rest.getLast? with
    | none =>
      rw [hrest] at hc
      exact hblank c (List.mem_of_getLast? hc)
    | some d =>
      rw [hrest] at hc
      exact hlast c (hrest ▸ hc)

theorem IsPlain.of_infix {part s : List Char} (h : IsPlain part) (hs : s <:+: part) : IsPlain s :=
  ⟨fun hw => h.no_notin (hw.trans hs), fun hw => h.no_in (hw.trans hs)⟩

/-- The operators for sets start with a blank. -/
theorem IsPlain.append_left {front rest : List Char} (h : IsPlain rest) (hblank : ' ' ∉ front) :
    IsPlain (front ++ rest) :=
  ⟨fun hw => h.no_notin (infix_right_of_not_mem hw hblank),
    fun hw => h.no_in (infix_right_of_not_mem hw hblank)⟩

theorem isPlain_nil : IsPlain [] :=
  ⟨by decide, by decide⟩

/-- What can be a value in a set: neither empty nor with a separator, nor with blanks around it. -/
structure IsValue (value : String) : Prop where
  ne_nil : value.toList ≠ []
  no_comma : ',' ∉ value.toList
  trim_eq : trim value.toList = value.toList

/-- The values of a set as they are printed. -/
def valuesText (values : List String) : List Char :=
  '(' :: ([','].intercalate (values.map String.toList) ++ [')'])

theorem valuesOf?_eq_some_iff {s : List Char} : valuesOf? s = some values ↔
    ∃ inner, trim s = '(' :: (inner ++ [')']) ∧
      values = ((pieces ',' inner).map trimmed).filter fun value => !value.isEmpty := by
  unfold valuesOf?
  cases trim s with
  | nil => simp
  | cons c rest =>
    by_cases hopen : c = '('
    · subst hopen
      by_cases hclose : rest.getLast? = some ')'
      · obtain ⟨inner, rfl⟩ := List.getLast?_eq_some_iff.mp hclose
        simp [eq_comm]
      · have hne : ∀ inner, rest ≠ inner ++ [')'] := fun inner heq => hclose (by simp [heq])
        simp [hclose, hne]
    · simp [hopen]

theorem isValue_of_valuesOf? {s : List Char} (h : valuesOf? s = some values) :
    ∀ value ∈ values, IsValue value ∧ value.toList <:+: s := by
  obtain ⟨inner, hinner, rfl⟩ := valuesOf?_eq_some_iff.mp h
  intro value hvalue
  obtain ⟨hmem, hne⟩ := List.mem_filter.mp hvalue
  obtain ⟨piece, hpiece, rfl⟩ := List.mem_map.mp hmem
  have hwithin : piece <:+: s := by
    have hpieces : piece <:+: inner := by
      rw [← intercalate_pieces ',' inner]
      exact infix_intercalate [','] hpiece
    refine (hpieces.trans ⟨['('], [')'], ?_⟩).trans (trim_isInfix s)
    rw [hinner]
    rfl
  rw [toList_trimmed]
  refine ⟨⟨?_, ?_, ?_⟩, (trim_isInfix piece).trans hwithin⟩
  · simpa using hne
  · rw [toList_trimmed]
    exact fun hcomma => not_mem_of_mem_pieces hpiece ((trim_isInfix piece).subset hcomma)
  · rw [toList_trimmed, trim_trim]

theorem valuesOf?_valuesText (h : ∀ value ∈ values, IsValue value) :
    valuesOf? (valuesText values) = some values := by
  refine valuesOf?_eq_some_iff.mpr ⟨_, trim_eq_self ?_ ?_, ?_⟩
  · simp [valuesText, show isBlank '(' = false by decide]
  · simp [valuesText, List.getLast?_cons, show isBlank ')' = false by decide]
  · cases values with
    | nil => decide
    | cons value others =>
      have hcommas : ∀ piece ∈ (value :: others).map String.toList, ',' ∉ piece := by
        simpa using fun v hv => (h v hv).no_comma
      have hread : ((value :: others).map String.toList).map trimmed = value :: others := by
        rw [List.map_map]
        exact (List.map_congr_left fun v hv => trimmed_eq (h v hv).trim_eq).trans (List.map_id _)
      rw [pieces_intercalate (by simp) hcommas, hread, List.filter_eq_self.mpr]
      intro v hv
      simpa using (h v hv).ne_nil

/-! ### Printed requirements -/

theorem toList_equals (key value : String) :
    (equals key value).toText.toList = key.toList ++ ("=".toList ++ value.toList) := by
  simp only [toText, String.toList_append, List.append_assoc]

theorem toList_notEquals (key value : String) :
    (notEquals key value).toText.toList = key.toList ++ ("!=".toList ++ value.toList) := by
  simp only [toText, String.toList_append, List.append_assoc]

theorem toList_absent (key : String) : (absent key).toText.toList = '!' :: key.toList := by
  simp only [toText, String.toList_append]
  rfl

theorem toList_joined (values : List String) :
    (joined "," values).toList = [','].intercalate (values.map String.toList) :=
  String.toList_intercalate

theorem toList_oneOf (key : String) (values : List String) :
    (oneOf key values).toText.toList = key.toList ++ " in ".toList ++ valuesText values := by
  simp only [toText, String.toList_append, toList_joined, List.append_assoc]
  rfl

theorem toList_noneOf (key : String) (values : List String) :
    (noneOf key values).toText.toList = key.toList ++ " notin ".toList ++ valuesText values := by
  simp only [toText, String.toList_append, toList_joined, List.append_assoc]
  rfl

/-- An equality is read as such if the operator in it is the first `=` and neither `!` before nor
another `=` behind makes it another operator, here or later in the value. -/
def IsLegible : Requirement → Prop
  | equals key value =>
    '=' ∉ key.toList ∧ key.toList.getLast? ≠ some '!' ∧ ¬ "==".toList <:+: '=' :: value.toList
  | _ => True

instance : DecidablePred IsLegible
  | equals _ _ => inferInstanceAs (Decidable (_ ∧ _ ∧ ¬ _))
  | notEquals _ _ | present _ | absent _ | oneOf _ _ | noneOf _ _ => inferInstanceAs (Decidable True)

theorem blank_not_mem (hkey : isKey key) : ' ' ∉ key.toList := fun hmem =>
  absurd ((isKey_iff.mp hkey).2 ' ' hmem) (by decide)

theorem parse_of_reads {rest : List Char} {r : Requirement} (hreads : Reads (key.toList ++ rest) r)
    (hr : r.key = key) (hkey : isKey key) (hlast : ∀ c ∈ rest.getLast?, isBlank c = false) :
    parse (key.toList ++ rest) = .ok r := by
  rw [parse_eq_ok_iff, trim_key_append hkey hlast, hr]
  exact ⟨fun hnil => (isKey_iff.mp hkey).1 (List.append_eq_nil_iff.mp hnil).1, hreads, hkey⟩

theorem valuesText_last (operator : List Char) (values : List String) :
    ∀ c ∈ (operator ++ valuesText values).getLast?, isBlank c = false := by
  have hlast : (valuesText values).getLast? = some ')' := by
    simp [valuesText, List.getLast?_cons]
  intro c hc
  rw [List.getLast?_append, hlast] at hc
  obtain rfl : ')' = c := by simpa using hc
  decide

theorem value_last (htrim : trim value.toList = value.toList) {operator : List Char} {last : Char}
    (hop : operator.getLast? = some last) (hblank : isBlank last = false) :
    ∀ c ∈ (operator ++ value.toList).getLast?, isBlank c = false := by
  intro c hc
  rw [List.getLast?_append, hop] at hc
  cases hvalue : value.toList.getLast? with
  | none =>
    obtain rfl : last = c := by simpa [hvalue] using hc
    exact hblank
  | some d =>
    obtain rfl : d = c := by simpa [hvalue] using hc
    exact getLast?_trim (htrim ▸ hvalue)

theorem parse_noneOf (hkey : isKey key) (hvalues : ∀ value ∈ values, IsValue value) :
    parse (noneOf key values).toText.toList = .ok (noneOf key values) := by
  have hcut : cut? " notin ".toList (key.toList ++ " notin ".toList ++ valuesText values) =
      some (key.toList, valuesText values) :=
    cut?_append _ _ (blank_not_mem hkey)
  have hreads := Reads.noneOf hcut (valuesOf?_valuesText hvalues)
  rw [trimmed_eq (trim_key hkey), List.append_assoc] at hreads
  rw [toList_noneOf, List.append_assoc]
  exact parse_of_reads hreads rfl hkey (valuesText_last _ values)

theorem parse_oneOf (hkey : isKey key) (hvalues : ∀ value ∈ values, IsValue value)
    (hno : ∀ value ∈ values, ¬ " notin ".toList <:+: value.toList) :
    parse (oneOf key values).toText.toList = .ok (oneOf key values) := by
  have hcut : cut? " in ".toList (key.toList ++ " in ".toList ++ valuesText values) =
      some (key.toList, valuesText values) :=
    cut?_append _ _ (blank_not_mem hkey)
  have hnotin : ¬ " notin ".toList <:+: key.toList ++ " in ".toList ++ valuesText values := by
    intro hwithin
    rw [List.append_assoc] at hwithin
    have hbehind := infix_right_of_not_mem hwithin (blank_not_mem hkey)
    rcases infix_of_not_mem hbehind (by decide) with hin | hrest
    · exact absurd hin (by decide)
    rcases infix_of_not_mem hrest (by decide) with hjoined | hnil
    · obtain ⟨part, hpart, hfound⟩ := infix_of_infix_intercalate (by decide) (by decide) hjoined
      obtain ⟨value, hvalue, rfl⟩ := List.mem_map.mp hpart
      exact hno value hvalue hfound
    · exact absurd hnil (by decide)
  have hreads := Reads.oneOf hnotin hcut (valuesOf?_valuesText hvalues)
  rw [trimmed_eq (trim_key hkey), List.append_assoc] at hreads
  rw [toList_oneOf, List.append_assoc]
  exact parse_of_reads hreads rfl hkey (valuesText_last _ values)

theorem parse_notEquals (hkey : isKey key) (hno : ¬ "!=".toList <:+: key.toList)
    (hplain : IsPlain value.toList) (htrim : trim value.toList = value.toList) :
    parse (notEquals key value).toText.toList = .ok (notEquals key value) := by
  have hcut : cut? "!=".toList (key.toList ++ "!=".toList ++ value.toList) =
      some (key.toList, value.toList) := by
    refine (cut?_eq_some_iff (by decide)).mpr ⟨rfl, fun hwithin => ?_⟩
    have hkeyin : ['!'] ++ ['='] <:+: key.toList := infix_left_of_not_mem hwithin (by decide)
    exact hno hkeyin
  have hblank : ' ' ∉ key.toList ++ "!=".toList := fun hmem =>
    (List.mem_append.mp hmem).elim (blank_not_mem hkey) (by decide)
  have hreads := Reads.notEquals (hplain.append_left hblank) hcut
  rw [trimmed_eq (trim_key hkey), trimmed_eq htrim, List.append_assoc] at hreads
  rw [toList_notEquals]
  exact parse_of_reads hreads rfl hkey (value_last htrim rfl (by decide))

theorem parse_equals (hkey : isKey key) (hlegible : (equals key value).IsLegible)
    (hno : ¬ "!=".toList <:+: value.toList) (hplain : IsPlain value.toList)
    (htrim : trim value.toList = value.toList) :
    parse (equals key value).toText.toList = .ok (equals key value) := by
  obtain ⟨hsingle, hlast, hdouble⟩ := hlegible
  have hblank : ' ' ∉ key.toList ++ "=".toList := fun hmem =>
    (List.mem_append.mp hmem).elim (blank_not_mem hkey) (by decide)
  have hcut : cut? "=".toList (key.toList ++ "=".toList ++ value.toList) =
      some (key.toList, value.toList) :=
    cut?_append [] value.toList hsingle
  have hne : ¬ "!=".toList <:+: key.toList ++ "=".toList ++ value.toList := by
    intro hwithin
    rw [List.append_assoc] at hwithin
    rcases List.infix_append_iff.mp hwithin with hkeyin | hrest | ⟨start, stop, heq, hstart, hstop⟩
    · exact hsingle (hkeyin.subset (by decide))
    · rcases List.infix_cons_iff.mp hrest with hprefix | hvalue
      · exact absurd (List.cons_prefix_cons.mp hprefix).1 (by decide)
      · exact hno hvalue
    · -- The operator would begin in the key and end behind it.
      rcases start with _ | ⟨c, _ | ⟨d, start⟩⟩
      · rw [List.nil_append] at heq
        rw [← heq] at hstop
        exact absurd (List.cons_prefix_cons.mp hstop).1 (by decide)
      · obtain rfl : '!' = c := (List.cons.inj heq).1
        obtain ⟨front, hfront⟩ := hstart
        exact hlast (by rw [← hfront, List.getLast?_concat])
      · obtain rfl : '=' = d := (List.cons.inj (List.cons.inj heq).2).1
        exact hsingle (hstart.subset (by simp))
  have hdoubled : ¬ "==".toList <:+: key.toList ++ "=".toList ++ value.toList := by
    intro hwithin
    rw [List.append_assoc] at hwithin
    exact hdouble (infix_right_of_not_mem hwithin hsingle)
  have hreads := Reads.equals (hplain.append_left hblank) hne hdoubled hcut
  rw [trimmed_eq (trim_key hkey), trimmed_eq htrim, List.append_assoc] at hreads
  rw [toList_equals]
  exact parse_of_reads hreads rfl hkey (value_last htrim rfl (by decide))

theorem parse_absent (hkey : isKey key) (hno : '=' ∉ key.toList) :
    parse (absent key).toText.toList = .ok (absent key) := by
  have hblank : ∀ c ∈ '!' :: key.toList, isBlank c = false :=
    List.forall_mem_cons.mpr ⟨by decide, (isKey_iff.mp hkey).2⟩
  have hplain := isPlain_nil.append_left fun hmem => absurd (hblank ' ' hmem) (by decide)
  rw [List.append_nil] at hplain
  have hreads := Reads.absent hplain (List.not_mem_cons_of_ne_of_not_mem (by decide) hno) rfl
  rw [trimmed_eq (trim_key hkey)] at hreads
  rw [toList_absent, parse_eq_ok_iff, trim_of_forall hblank]
  exact ⟨List.cons_ne_nil _ _, hreads, hkey⟩

theorem parse_present (hkey : isKey key) (hno : '=' ∉ key.toList)
    (hfirst : key.toList.head? ≠ some '!') :
    parse (present key).toText.toList = .ok (present key) := by
  have hplain := isPlain_nil.append_left (blank_not_mem hkey)
  rw [List.append_nil] at hplain
  have hreads := Reads.present hplain hno hfirst
  rw [String.ofList_toList] at hreads
  rw [toText, parse_eq_ok_iff, trim_key hkey]
  exact ⟨(isKey_iff.mp hkey).1, hreads, hkey⟩

/-! ### What has been read -/

/-- Both spellings of an equality are printed in one, with a value from the end of the part. -/
theorem parse_equals_of_suffix {part after : List Char} (hkey : isKey key)
    (hlegible : (equals key (trimmed after)).IsLegible) (hplain : IsPlain part)
    (hne : ¬ "!=".toList <:+: part) (hafter : after <:+ part) :
    parse (equals key (trimmed after)).toText.toList = .ok (equals key (trimmed after)) := by
  have hvalue : (trimmed after).toList <:+: part := by
    rw [toList_trimmed]
    exact (trim_isInfix after).trans hafter.isInfix
  refine parse_equals hkey hlegible (fun hwithin => hne (hwithin.trans hvalue))
    (hplain.of_infix hvalue) ?_
  rw [toList_trimmed, trim_trim]

/-- What has been read and is legible is read again from its text. -/
theorem parse_toText_of_isLegible {part : List Char} {r : Requirement} (hreads : Reads part r)
    (hkey : isKey r.key) (hlegible : r.IsLegible) : parse r.toText.toList = .ok r := by
  cases hreads with
  | noneOf hcut hvalues =>
    exact parse_noneOf hkey fun value hvalue => (isValue_of_valuesOf? hvalues value hvalue).1
  | oneOf hnotin hcut hvalues =>
    refine parse_oneOf hkey (fun value hvalue => (isValue_of_valuesOf? hvalues value hvalue).1) ?_
    intro value hvalue hwithin
    have hafter := (isValue_of_valuesOf? hvalues value hvalue).2
    exact hnotin (hwithin.trans (hafter.trans (cut?_suffix hcut).isInfix))
  | @notEquals before after hplain hcut =>
    have hvalue : trim after <:+: part := (trim_isInfix after).trans (cut?_suffix hcut).isInfix
    refine parse_notEquals hkey (fun hwithin => ?_) ?_ ?_
    · rw [toList_trimmed] at hwithin
      have hbefore : trim before <:+: before ++ "!=".toList.dropLast :=
        (trim_isInfix before).trans (List.prefix_append _ _).isInfix
      exact ((cut?_eq_some_iff (by decide)).mp hcut).2 (hwithin.trans hbefore)
    · rw [toList_trimmed]
      exact hplain.of_infix hvalue
    · rw [toList_trimmed, trim_trim]
  | doubled hplain hne hcut =>
    exact parse_equals_of_suffix hkey hlegible hplain hne (cut?_suffix hcut)
  | equals hplain hne hdoubled hcut =>
    exact parse_equals_of_suffix hkey hlegible hplain hne (cut?_suffix hcut)
  | @absent after hplain hno hpart =>
    refine parse_absent hkey fun hmem => hno ?_
    rw [toList_trimmed] at hmem
    rw [hpart]
    exact List.mem_cons_of_mem _ ((trim_isInfix after).subset hmem)
  | present hplain hno hpart =>
    refine parse_present hkey ?_ ?_
    · rwa [String.toList_ofList]
    · rwa [String.toList_ofList]

/-- An equality that is read from its text is legible. -/
theorem isLegible_of_parse_toText (hkey : isKey key) (htrim : trim value.toList = value.toList)
    (h : parse (equals key value).toText.toList = .ok (equals key value)) :
    (equals key value).IsLegible := by
  rw [toList_equals] at h
  obtain ⟨-, hreads, -⟩ := parse_eq_ok_iff.mp h
  rw [trim_key_append hkey (value_last htrim rfl (by decide))] at hreads
  cases hreads with
  | @doubled before after hplain hne hcut =>
    have hlength := congrArg List.length (cut?_eq hcut)
    have hbefore := (trim_isInfix before).length_le
    have hafter := (trim_isInfix after).length_le
    simp only [toList_trimmed, List.length_append] at hlength
    have hsingle : "=".toList.length = 1 := by decide
    have hdouble : "==".toList.length = 2 := by decide
    omega
  | @equals before after hplain hne hdoubled hcut =>
    -- What is cut has no blanks to trim, so it is cut where it was joined.
    have heq := cut?_eq hcut
    have hlength := congrArg List.length heq
    simp only [toList_trimmed, List.length_append] at hlength
    have hafter := (trim_isInfix after).length_le
    have hbefore : trim before = before := (trim_isInfix before).eq_of_length_le (by omega)
    have hfirst : '=' ∉ (trimmed before).toList := by
      rw [toList_trimmed, hbefore]
      exact not_mem_of_cut? hcut
    refine ⟨hfirst, ?_, ?_⟩
    · intro hlast
      obtain ⟨front, hfront⟩ := List.getLast?_eq_some_iff.mp hlast
      refine hne ⟨front, (trimmed after).toList, ?_⟩
      rw [hfront]
      simp
    · exact fun hwithin => hdoubled (hwithin.trans (List.suffix_append _ _).isInfix)

end WorkloadTuning.Requirement
