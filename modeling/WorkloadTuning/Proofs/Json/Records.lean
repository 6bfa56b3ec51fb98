import WorkloadTuning.IntOrString
import WorkloadTuning.Json.Record
import WorkloadTuning.Proofs.Dict
import WorkloadTuning.Proofs.Json.RoundTrip
import WorkloadTuning.Proofs.Outcome

/-! Records that are read as what was written of them: as documents, and as the texts of these. -/

namespace WorkloadTuning

namespace Record

variable {α : Type} [Record α]

/-- The document written of the value is read as that value. -/
def RoundTrips (a : α) : Prop :=
  ofJson (toJson a) = .ok a

/-- The text of the document that is written of a value. -/
def toText (a : α) : String :=
  (toJson a).toText

/-- The value whose document the text is. -/
def ofText (text : String) : Decoded α := do
  ofJson (← orMalformed (Json.parse? text))

theorem ofText_toText {a : α} (h : (toJson a).IsReadable) :
    ofText (α := α) (toText a) = ofJson (toJson a) := by
  rw [ofText, toText, Json.parse?_toText h]
  rfl

theorem string_roundTrips (s : String) : RoundTrips s := rfl

theorem list_roundTrips {l : List α} (h : ∀ a ∈ l, RoundTrips a) : RoundTrips l := by
  refine bind_eq_ok.mpr ⟨l.map toJson, rfl, mapM_eq_ok.mpr ?_⟩
  rw [List.forall₂_map_left_iff, List.forall₂_same]
  exact h

theorem dict_roundTrips {d : Dict α} (h : ∀ e ∈ d.entries, RoundTrips e.2) : RoundTrips d := by
  refine bind_eq_ok.mpr ⟨_, rfl, bind_eq_ok.mpr ⟨d.entries, mapM_eq_ok.mpr ?_, ?_⟩⟩
  · rw [List.forall₂_map_left_iff, List.forall₂_same]
    intro e he
    exact bind_eq_ok.mpr ⟨e.2, h e he, rfl⟩
  · exact congrArg Except.ok (Dict.ofList_entries d)

theorem ofJson_option_of_ne_null {json : Json} (h : json ≠ .null) :
    ofJson (α := Option α) json = some <$> ofJson json := by
  cases json <;> first | rfl | exact absurd rfl h

/-- Nothing is read of `null`, so no value may be written as that. -/
theorem option_roundTrips {o : Option α} (hnull : ∀ a ∈ o, toJson a ≠ .null)
    (h : ∀ a ∈ o, RoundTrips a) : RoundTrips o := by
  cases o with
  | none => rfl
  | some a =>
    have hread : ofJson (toJson a) = .ok a := h a rfl
    change ofJson (α := Option α) (toJson a) = .ok (some a)
    rw [ofJson_option_of_ne_null (hnull a rfl), hread]
    rfl

/-! ### Members -/

section Members
variable {β : Type} [Record β] {take : α → String → Json → Decoded α} {r s t : α} {key : String}
  {b : β}

/-- Taking over the members one after another leads from one record to the other. -/
def Reads (take : α → String → Json → Decoded α) (members : Members) (r s : α) : Prop :=
  members.foldlM (fun record (key, value) => take record key value) r = .ok s

omit [Record α] in
theorem Reads.append {first second : Members} (h : Reads take first r s)
    (hlater : Reads take second s t) : Reads take (first ++ second) r t := by
  rw [Reads, List.foldlM_append]
  exact bind_eq_ok.mpr ⟨s, h, hlater⟩

omit [Record α] in
theorem reads_member (h : take r key (toJson b) = .ok s) : Reads take (member key b) r s :=
  bind_eq_ok.mpr ⟨s, h, rfl⟩

omit [Record α] in
/-- A member may be left out if it leaves the record as it is. -/
theorem reads_memberUnless {omitted : Bool} (homitted : omitted = true → s = r)
    (h : take r key (toJson b) = .ok s) : Reads take (memberUnless omitted key b) r s := by
  cases omitted with
  | true =>
    rw [homitted rfl]
    rfl
  | false => exact reads_member h

omit [Record α] in
theorem readMembers_eq_ok {required : List String} {members : Members}
    (h : Reads take members r s) (hrequired : ∀ key ∈ required, (members.get? key).isSome) :
    readMembers take r required members = .ok s :=
  bind_eq_ok.mpr ⟨s, h, if_pos (List.all_eq_true.mpr hrequired)⟩

/-- Taking over the members one after another fails at one of them. -/
def Fails (take : α → String → Json → Decoded α) (members : Members) (r : α) (e : DecodeError) :
    Prop :=
  members.foldlM (fun record (key, value) => take record key value) r = .error e

variable {e : DecodeError}

omit [Record α] in
theorem fails_member (h : take r key (toJson b) = .error e) : Fails take (member key b) r e :=
  bind_eq_error.mpr (.inl h)

omit [Record α] in
theorem Fails.append {first : Members} (h : Fails take first r e) (second : Members) :
    Fails take (first ++ second) r e := by
  rw [Fails, List.foldlM_append]
  exact bind_eq_error.mpr (.inl h)

omit [Record α] in
theorem Reads.append_fails {first second : Members} (h : Reads take first r s)
    (hfails : Fails take second s e) : Fails take (first ++ second) r e := by
  rw [Fails, List.foldlM_append]
  exact bind_eq_error.mpr (.inr ⟨s, h, hfails⟩)

omit [Record α] in
theorem readMembers_eq_error {required : List String} {members : Members}
    (h : Fails take members r e) : readMembers take r required members = .error e :=
  bind_eq_error.mpr (.inl h)

theorem keys_memberUnless (omitted : Bool) (key : String) (b : β) :
    (memberUnless omitted key b).keys.Sublist [key] := by
  cases omitted with
  | true => exact List.nil_sublist _
  | false => exact List.Sublist.refl _

theorem isReadable_memberUnless {omitted : Bool} (h : (toJson b).IsReadable) :
    ∀ m ∈ memberUnless omitted key b, m.2.IsReadable := by
  intro m hm
  cases omitted with
  | true => cases hm
  | false =>
    obtain rfl := List.mem_singleton.mp hm
    exact h

end Members

end Record

end WorkloadTuning
