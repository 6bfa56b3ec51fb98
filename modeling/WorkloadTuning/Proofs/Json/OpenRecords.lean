import WorkloadTuning.Proofs.Json.Fields

/-! Records that keep the members they do not know. Reading splits a document into fields and other
members, and writing joins them again. The two can be told apart because no member that is kept has
the name of a field, so such a record is read as what is written of it. -/

namespace WorkloadTuning.Record

/-- The members that are no fields of the record, in document order. -/
def unknown (names : List String) (members : Members) : Members :=
  members.filter fun e => e.1 ∉ names

/-- No member has the name of a field. -/
def AreUnknown (names : List String) (members : Members) : Prop :=
  ∀ e ∈ members, e.1 ∉ names

theorem areUnknown_nil (names : List String) : AreUnknown names [] :=
  fun _ h => nomatch h

theorem areUnknown_unknown (names : List String) (members : Members) :
    AreUnknown names (unknown names members) := by
  intro e he
  simpa using (List.mem_filter.mp he).2

theorem AreUnknown.get?_eq_none {names : List String} {members : Members} {key : String}
    (h : AreUnknown names members) (hkey : key ∈ names) : members.get? key = none := by
  refine Members.get?_eq_none_iff.mpr fun hmem => ?_
  obtain ⟨e, he, rfl⟩ := List.mem_map.mp hmem
  exact h e he hkey

/-! ### Reading -/

section Reading
variable {α β : Type} {take : α → String → Json → Decoded α} {names : List String}
  {extra : α → Members} {withExtra : α → Members → α} {members : Members} {start r s : α}

/-- A member that is no field is put behind those already kept, and no field touches these. -/
structure IsOpen (take : α → String → Json → Decoded α) (names : List String)
    (extra : α → Members) (withExtra : α → Members → α) : Prop where
  known : ∀ {r s key value}, key ∈ names → take r key value = .ok s → extra s = extra r
  other : ∀ {key} (r : α) (value : Json), key ∉ names →
    take r key value = .ok (withExtra r (extra r ++ [(key, value)]))
  extra_withExtra : ∀ r kept, extra (withExtra r kept) = kept
  withExtra_withExtra : ∀ r kept later, withExtra (withExtra r kept) later = withExtra r later
  withExtra_extra : ∀ r, withExtra r (extra r) = r

namespace IsOpen

/-- What is kept of a document are its other members. -/
theorem extra_of_reads (h : IsOpen take names extra withExtra) (hreads : Reads take members r s) :
    extra s = extra r ++ unknown names members := by
  induction members generalizing r with
  | nil =>
    obtain rfl : r = s := Except.ok.inj hreads
    exact (List.append_nil _).symm
  | cons e rest ih =>
    obtain ⟨next, hnext, hlater⟩ := bind_eq_ok.mp hreads
    rw [ih hlater]
    by_cases hkey : e.1 ∈ names
    · rw [h.known hkey hnext, unknown, unknown, List.filter_cons_of_neg (by simpa using hkey)]
    · obtain rfl := Except.ok.inj ((h.other r e.2 hkey).symm.trans hnext)
      rw [h.extra_withExtra, unknown, unknown, List.filter_cons_of_pos (by simpa using hkey),
        List.append_assoc]
      rfl

/-- Members that are no fields are all kept. -/
theorem reads (h : IsOpen take names extra withExtra) (hmembers : AreUnknown names members)
    (r : α) : Reads take members r (withExtra r (extra r ++ members)) := by
  induction members generalizing r with
  | nil =>
    rw [List.append_nil, h.withExtra_extra]
    rfl
  | cons e rest ih =>
    obtain ⟨hfirst, hrest⟩ := List.forall_mem_cons.mp hmembers
    have hlater := ih hrest (withExtra r (extra r ++ [e]))
    rw [h.extra_withExtra, h.withExtra_withExtra, List.append_assoc] at hlater
    exact bind_eq_ok.mpr ⟨_, h.other r e.2 hfirst, hlater⟩

theorem areUnknown_of_reads (h : IsOpen take names extra withExtra) (hstart : extra start = [])
    (hreads : Reads take members start r) : AreUnknown names (extra r) := by
  rw [h.extra_of_reads hreads, hstart]
  exact areUnknown_unknown names members

end IsOpen

/-- Records that are no lists of their fields, or are, are read member by member. -/
theorem exists_reads_of_read {fields required : List String} {json : Json}
    (h : read take start fields required json = .ok r) :
    ∃ members, Reads take members start r := by
  cases json with
  | array items =>
    obtain ⟨record, hrecord, hlength⟩ := bind_eq_ok.mp h
    split at hlength
    · obtain rfl := Except.ok.inj hlength
      obtain ⟨read, hread, hrequired⟩ := bind_eq_ok.mp hrecord
      split at hrequired
      · obtain rfl := Except.ok.inj hrequired
        exact ⟨_, hread⟩
      · cases hrequired
    · cases hlength
  | _ =>
    obtain ⟨members, -, hreads⟩ := reads_of_read h rfl
    exact ⟨members, hreads⟩

/-- What holds of every value that is read, and of the default, holds of the field. -/
theorem IsField.forall_of_reads [Record β] {key : String} {part : α → β} {P : β → Prop}
    (hfield : IsField take key part) (hread : ∀ {value b}, ofJson value = .ok b → P b)
    (hstart : P (part start)) (hreads : Reads take members start r) : P (part r) := by
  refine foldlM_keeps (I := fun r => P (part r)) hstart (fun e _ b c hb hc => ?_) hreads
  by_cases hkey : e.1 = key
  · subst hkey
    exact hread (hfield.own hc)
  · rwa [hfield.other hkey hc]

theorem forall_mem_of_ofJson [Record β] {P : β → Prop} {json : Json} {l : List β}
    (hread : ∀ {value b}, ofJson value = .ok b → P b) (h : ofJson json = .ok l) :
    ∀ b ∈ l, P b := by
  intro b hb
  obtain ⟨items, -, hitems⟩ := bind_eq_ok.mp h
  obtain ⟨item, -, hitem⟩ := exists_of_mem_mapM hitems hb
  exact hread hitem

theorem forall_mem_option_of_ofJson [Record β] {P : β → Prop} {json : Json} {o : Option β}
    (hread : ∀ {value b}, ofJson value = .ok b → P b) (h : ofJson json = .ok o) :
    ∀ b ∈ o, P b := by
  intro b hb
  by_cases hnull : json = .null
  · subst hnull
    obtain rfl := Except.ok.inj h
    cases hb
  · rw [ofJson_option_of_ne_null hnull] at h
    obtain ⟨c, hc, rfl⟩ := map_eq_ok.mp h
    obtain rfl := Option.some.inj hb
    exact hread hc

end Reading

/-! ### Writing -/

section Writing
variable {α β : Type} [Record β] {take : α → String → Json → Decoded α} {r : α} {key : String}

theorem int32_roundTrips (i : Int32) : RoundTrips i := by
  have hfits : fitsInt32 i.toInt = true := by
    have hlow := i.le_toInt
    have hhigh := i.toInt_lt
    simp only [fitsInt32, Bool.and_eq_true, decide_eq_true_eq]
    omega
  refine bind_eq_ok.mpr ⟨i.toInt, rfl, ?_⟩
  rw [if_pos hfits, Int32.ofInt_toInt]
  rfl

theorem texts_roundTrip (l : List String) : RoundTrips l :=
  list_roundTrips fun s _ => string_roundTrips s

theorem textDict_roundTrips (d : Dict String) : RoundTrips d :=
  dict_roundTrips fun e _ => string_roundTrips e.2

/-- A field is read from the member that is written of its value. -/
theorem reads_field (put : β → α) {b : β}
    (htake : ∀ value, take r key value = do return put (← ofJson value)) (hb : RoundTrips b) :
    Reads take (member key b) r (put b) := by
  refine reads_member ?_
  rw [htake]
  exact bind_eq_ok.mpr ⟨b, hb, rfl⟩

/-- A field may be left out where it holds the default. -/
theorem reads_fieldUnless (put : β → α) {b : β} {omitted : Bool}
    (htake : ∀ value, take r key value = do return put (← ofJson value)) (hb : RoundTrips b)
    (hdefault : omitted = true → put b = r) :
    Reads take (memberUnless omitted key b) r (put b) := by
  refine reads_memberUnless hdefault ?_
  rw [htake]
  exact bind_eq_ok.mpr ⟨b, hb, rfl⟩

theorem reads_textField (put : String → α) {text : String}
    (htake : ∀ value, take r key value = do return put (← ofJson value))
    (hdefault : put "" = r) : Reads take (textMember key text) r (put text) :=
  reads_fieldUnless put htake (string_roundTrips text) fun hempty =>
    String.isEmpty_iff.mp hempty ▸ hdefault

theorem reads_listField (put : List β → α) {l : List β}
    (htake : ∀ value, take r key value = do return put (← ofJson value)) (hl : RoundTrips l)
    (hdefault : put [] = r) : Reads take (listMember key l) r (put l) :=
  reads_fieldUnless put htake hl fun hempty => List.isEmpty_iff.mp hempty ▸ hdefault

theorem reads_dictField (put : Dict β → α) {d : Dict β}
    (htake : ∀ value, take r key value = do return put (← ofJson value)) (hd : RoundTrips d)
    (hdefault : put Dict.empty = r) : Reads take (dictMember key d) r (put d) := by
  refine reads_fieldUnless put htake hd fun hempty => ?_
  have hnone : d = Dict.empty := Dict.eq_of_entries (List.isEmpty_iff.mp hempty)
  rw [hnone, hdefault]

theorem reads_optionField (put : Option β → α) {o : Option β}
    (htake : ∀ value, take r key value = do return put (← ofJson value)) (ho : RoundTrips o)
    (hdefault : put none = r) : Reads take (optionMember key o) r (put o) :=
  reads_fieldUnless put htake ho fun hnone => Option.isNone_iff_eq_none.mp hnone ▸ hdefault

end Writing

/-! ### Other members -/

/-- The document written of a record that was read has the same other members as the document it
was read from, in the same order. -/
def KeepsUnknown (α : Type) [Record α] (names : List String) : Prop :=
  ∀ {members : Members} {a : α}, ofJson (.object members) = .ok a →
    ∃ written, toJson a = .object written ∧ unknown names written = unknown names members

theorem IsOpen.keepsUnknown {α : Type} [Record α] {take : α → String → Json → Decoded α}
    {names : List String} {extra : α → Members} {withExtra : α → Members → α} {start : α}
    (h : IsOpen take names extra withExtra) (hread : IsReadWith take start)
    (hobject : ∀ a : α, ∃ written, toJson a = .object written)
    (hroundTrips : ∀ {json : Json} {a : α}, ofJson json = .ok a → RoundTrips a) :
    KeepsUnknown α names := by
  have hextra : ∀ {members : Members} {a : α}, ofJson (.object members) = .ok a →
      extra a = extra start ++ unknown names members := by
    intro members a ha
    obtain ⟨others, heq, hreads⟩ := hread ha rfl
    obtain rfl := Json.object.inj heq
    exact h.extra_of_reads hreads
  intro members a ha
  obtain ⟨written, hwritten⟩ := hobject a
  have hagain : ofJson (.object written) = .ok a := hwritten ▸ hroundTrips ha
  exact ⟨written, hwritten, List.append_cancel_left ((hextra hagain).symm.trans (hextra ha))⟩

end WorkloadTuning.Record
