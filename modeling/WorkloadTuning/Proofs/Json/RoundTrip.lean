import WorkloadTuning.Json.Reader
import WorkloadTuning.Json.Text
import WorkloadTuning.Proofs.Json.Composition
import WorkloadTuning.Proofs.Text.Digits

/-! What is written of a document reads as that document again, if its numbers do and its objects
hold no key twice. -/

namespace WorkloadTuning

/-! ### Texts -/

namespace Json

/-- A control character is written with its code in hexadecimal. -/
theorem readHex?_control {code : Nat} (h : code < 32) :
    Text.readHex? ['0', '0', hexDigit (code / 16), hexDigit code] = some code := by
  have hall : ∀ code < 32,
      Text.readHex? ['0', '0', hexDigit (code / 16), hexDigit code] = some code := by decide
  exact hall code h

/-- Whichever way a character is written, it is read as that one character. -/
theorem readQuoted_escapeChar (c : Char) (rest : List Char) :
    readQuoted (escapeChar c ++ rest) =
      (readQuoted rest).map fun (text, after) => (c :: text, after) := by
  rw [Option.map_eq_bind]
  unfold escapeChar
  split
  case h_6 hquote hslash _ _ _ =>
    split
    · next hcode =>
      rw [show c = Char.ofNat 8 by rw [← hcode, Char.ofNat_toNat]]
      rfl
    split
    · next hcode =>
      rw [show c = Char.ofNat 12 by rw [← hcode, Char.ofNat_toNat]]
      rfl
    split
    · next hcontrol =>
      have hlow : isLowSurrogate c.toNat = false := by
        simp only [isLowSurrogate, Bool.and_eq_false_iff, decide_eq_false_iff_not]
        omega
      have hhigh : isHighSurrogate c.toNat = false := by
        simp only [isHighSurrogate, Bool.and_eq_false_iff, decide_eq_false_iff_not]
        omega
      simp only [List.cons_append, List.nil_append, readQuoted, readHex?_control hcontrol,
        Option.bind_eq_bind, Option.bind_some, hlow, hhigh, Bool.false_eq_true, if_false,
        Char.ofNat_toNat]
      rfl
    · next hcontrol =>
      have hplain : (c == '\\' || decide (c.toNat < 32)) = false := by
        simp only [Bool.or_eq_false_iff, beq_eq_false_iff_ne, decide_eq_false_iff_not]
        exact ⟨hslash, hcontrol⟩
      rw [List.cons_append, List.nil_append, readQuoted.eq_def]
      split
      · contradiction
      · next heq => exact absurd (List.cons.inj heq).1 hquote
      · next heq => exact absurd (List.cons.inj heq).1 hslash
      · next heq => exact absurd (List.cons.inj heq).1 hslash
      · next heq =>
        obtain ⟨rfl, rfl⟩ := List.cons.inj heq
        simp only [hplain]
        rfl
  all_goals rfl

/-- The text of a document is read up to its closing quote. -/
theorem readQuoted_escaped (s rest : List Char) :
    readQuoted (s.flatMap escapeChar ++ '"' :: rest) = some (s, rest) := by
  induction s with
  | nil => rfl
  | cons c s ih =>
    rw [List.flatMap_cons, List.append_assoc, readQuoted_escapeChar, ih]
    rfl

end Json

/-! ### Numbers -/

namespace Json

/-- What can follow a value in a document. -/
def IsEnd (rest : List Char) : Prop :=
  ∀ c ∈ rest.head?, c = ',' ∨ c = ']' ∨ c = '\x7d'

theorem IsEnd.not_digit {rest : List Char} (h : IsEnd rest) :
    ∀ c ∈ rest.head?, Text.isDigit c = false := by
  intro c hc
  rcases h c hc with rfl | rfl | rfl <;> decide

theorem IsEnd.digits {rest : List Char} (h : IsEnd rest) (n : Nat) :
    (Nat.toDigits 10 n ++ rest).takeWhile Text.isDigit = Nat.toDigits 10 n ∧
      (Nat.toDigits 10 n ++ rest).dropWhile Text.isDigit = rest :=
  (Text.areDigits_toDigits n).spans rest h.not_digit

theorem le_digitsFrom (digits : List Char) (significand : Nat) :
    significand ≤ digits.foldl (fun n c => n * 10 + Text.digitValue c) significand := by
  induction digits generalizing significand with
  | nil => exact Nat.le_refl _
  | cons c rest ih =>
    have hstep := ih (significand * 10 + Text.digitValue c)
    rw [List.foldl_cons]
    omega

/-- Within 64 bits no digit is dropped. -/
theorem absorb_eq {digits : List Char} {significand : Nat}
    (h : digits.foldl (fun n c => n * 10 + Text.digitValue c) significand <
      18446744073709551616) :
    absorb significand digits =
      (digits.foldl (fun n c => n * 10 + Text.digitValue c) significand, []) := by
  induction digits generalizing significand with
  | nil => rfl
  | cons c rest ih =>
    rw [List.foldl_cons] at h ⊢
    have hnext := Nat.lt_of_le_of_lt (le_digitsFrom rest _) h
    rw [absorb, if_pos hnext]
    exact ih h

theorem readUnsigned_toDigits (negative : Bool) {n : Nat} (hn : n < 18446744073709551616)
    {rest : List Char} (hrest : IsEnd rest) :
    readUnsigned negative (Nat.toDigits 10 n ++ rest) = some (wholeNumber negative n, rest) := by
  obtain ⟨htake, hdrop⟩ := hrest.digits n
  have hempty : (Nat.toDigits 10 n).isEmpty = false := by simp [Nat.toDigits_ne_nil]
  have hzeros : ¬ ((Nat.toDigits 10 n).head? = some '0' ∧ 1 < (Nat.toDigits 10 n).length) := by
    rintro ⟨hzero, hlong⟩
    rcases Nat.eq_zero_or_pos n with rfl | hpos
    · exact absurd hlong (by decide)
    · exact Text.head?_toDigits_ne_zero hpos hzero
  have habsorb : absorb 0 (Nat.toDigits 10 n) = (n, []) := by
    have hvalue := Text.digitsValue_toDigits n
    unfold Text.digitsValue at hvalue
    rw [absorb_eq (by rw [hvalue]; exact hn), hvalue]
  unfold readUnsigned
  simp only [htake, hdrop, hempty, if_neg hzeros, habsorb, Bool.false_eq_true, if_false]
  cases rest with
  | nil => rfl
  | cons c rest => rcases hrest c rfl with rfl | rfl | rfl <;> rfl

end Json

/-- The number's text is read as the number, whatever follows it in a document. -/
structure Number.IsRead (n : Number) : Prop where
  starts : ∃ c rest, n.toText.toList = c :: rest ∧ (c = '-' ∨ Text.isDigit c = true)
  reads : ∀ rest, Json.IsEnd rest → Json.readNumber (n.toText.toList ++ rest) = some (n, rest)

theorem Number.int_isRead {i : Int} (hmin : -9223372036854775808 ≤ i)
    (hmax : i < 18446744073709551616) : (int i).IsRead := by
  by_cases hnonneg : 0 ≤ i
  · obtain ⟨n, rfl⟩ := Int.eq_ofNat_of_zero_le hnonneg
    have htext : (int n).toText.toList = Nat.toDigits 10 n := by
      rw [toText, Int.toString_eq_repr, Int.repr_eq_if, if_pos hnonneg]
      exact Nat.toList_repr
    obtain ⟨d, digits, hdigits⟩ := List.exists_cons_of_ne_nil (Nat.toDigits_ne_nil (b := 10) (n := n))
    have hd : Text.isDigit d = true :=
      Text.isDigit_of_mem_toDigits (n := n) (by rw [hdigits]; exact List.mem_cons_self)
    refine ⟨⟨d, digits, htext.trans hdigits, .inr hd⟩, fun rest hrest => ?_⟩
    have hread := Json.readUnsigned_toDigits false (n := n) (by omega) hrest
    rw [htext]
    rw [hdigits, List.cons_append] at hread ⊢
    unfold Json.readNumber
    split
    · next heq =>
      obtain ⟨rfl, -⟩ := List.cons.inj heq
      exact absurd hd (by decide)
    · exact hread
  · obtain ⟨n, rfl⟩ : ∃ n : Nat, i = -n := ⟨i.natAbs, by omega⟩
    have htext : (int (-n)).toText.toList = '-' :: Nat.toDigits 10 n := by
      rw [toText, Int.toString_eq_repr, Int.repr_eq_if, if_neg hnonneg, Int.neg_neg,
        String.toList_append]
      exact congrArg _ Nat.toList_repr
    refine ⟨⟨'-', _, htext, .inl rfl⟩, fun rest hrest => ?_⟩
    have hread := Json.readUnsigned_toDigits true (n := n) (by omega) hrest
    have hvalue : Json.wholeNumber true n = int (-n) := by
      rw [Json.wholeNumber, if_pos rfl, if_neg (by omega)]
    rw [htext, List.cons_append]
    exact hvalue ▸ hread

/-! ### Documents -/

namespace Json

mutual

/-- The document's numbers are read as they are, and its objects hold no key twice. -/
def IsReadable : Json → Prop
  | number n => n.IsRead
  | array items => IsReadableItems items
  | object members => (Members.keys members).Nodup ∧ IsReadableMembers members
  | _ => True

def IsReadableItems : List Json → Prop
  | [] => True
  | item :: rest => item.IsReadable ∧ IsReadableItems rest

def IsReadableMembers : List (String × Json) → Prop
  | [] => True
  | (_, value) :: rest => value.IsReadable ∧ IsReadableMembers rest

end

theorem toList_quote (s : String) :
    (quote s).toList = '"' :: (s.toList.flatMap escapeChar ++ ['"']) := by
  simp [quote]

theorem toList_array (items : List Json) :
    (array items).toText.toList = '[' :: ((itemsText items).toList ++ [']']) := by
  simp [toText]

theorem toList_object (members : Members) :
    (object members).toText.toList = '\x7b' :: ((membersText members).toList ++ ['\x7d']) := by
  simp [toText]

/-- The text of a value starts with no blank and with no end of a list. -/
theorem toText_starts {json : Json} (h : json.IsReadable) :
    ∃ c rest, json.toText.toList = c :: rest ∧ isSpace c = false ∧ c ≠ ']' := by
  cases json with
  | null => exact ⟨'n', _, rfl, by decide, by decide⟩
  | bool b => cases b <;> exact ⟨_, _, rfl, by decide, by decide⟩
  | number n =>
    obtain ⟨c, rest, htext, hc⟩ := h.starts
    refine ⟨c, rest, htext, ?_⟩
    rcases hc with rfl | hdigit
    · decide
    · refine ⟨?_, fun heq => absurd (heq ▸ hdigit) (by decide)⟩
      simp only [isSpace, Bool.or_eq_false_iff, beq_eq_false_iff_ne]
      refine ⟨⟨⟨?_, ?_⟩, ?_⟩, ?_⟩ <;> exact fun heq => absurd (heq ▸ hdigit) (by decide)
  | string s => exact ⟨_, _, toList_quote s, by decide, by decide⟩
  | array items => exact ⟨_, _, toList_array items, by decide, by decide⟩
  | object members => exact ⟨_, _, toList_object members, by decide, by decide⟩

theorem itemsText_starts {item : Json} (others : List Json) (h : item.IsReadable) :
    ∃ c rest, (itemsText (item :: others)).toList = c :: rest ∧ isSpace c = false ∧ c ≠ ']' := by
  obtain ⟨c, rest, htext, hc⟩ := toText_starts h
  cases others with
  | nil => exact ⟨c, rest, htext, hc⟩
  | cons next others =>
    refine ⟨c, rest ++ ',' :: (itemsText (next :: others)).toList, ?_, hc⟩
    simp [itemsText, htext]

theorem membersText_starts (m : String × Json) (others : Members) :
    ∃ rest, (membersText (m :: others)).toList = '"' :: rest := by
  cases others <;> simp [membersText, toList_quote]

theorem skipSpaces_cons {c : Char} (h : isSpace c = false) (rest : List Char) :
    skipSpaces (c :: rest) = c :: rest := by
  simp [skipSpaces, h]

/-- The value's text is read as the value. -/
def Rereads (json : Json) : Prop :=
  ∀ fuel rest, json.toText.toList.length < fuel → IsEnd rest →
    readValue fuel (json.toText.toList ++ rest) = some (json, rest)

theorem isEnd_cons {c : Char} (h : c = ',' ∨ c = ']' ∨ c = '\x7d') (rest : List Char) :
    IsEnd (c :: rest) := by
  rintro d ⟨⟩
  exact h

theorem readItems_itemsText {items : List Json} (hne : items ≠ [])
    (h : ∀ item ∈ items, item.Rereads) (fuel : Nat)
    (hfuel : (itemsText items).toList.length + 1 < fuel) (rest : List Char) :
    readItems fuel ((itemsText items).toList ++ ']' :: rest) = some (items, rest) := by
  induction items generalizing fuel with
  | nil => exact absurd rfl hne
  | cons item others ih =>
    obtain ⟨fuel, rfl⟩ := Nat.exists_eq_succ_of_ne_zero (Nat.ne_zero_of_lt hfuel)
    have hitem := h item List.mem_cons_self
    cases others with
    | nil =>
      rw [itemsText] at hfuel ⊢
      have hread := hitem fuel (']' :: rest) (by omega) (isEnd_cons (by simp) _)
      rw [readItems, hread]
      rfl
    | cons next others =>
      have htext : (itemsText (item :: next :: others)).toList =
          item.toText.toList ++ ',' :: (itemsText (next :: others)).toList := by
        simp [itemsText]
      rw [htext, List.length_append, List.length_cons] at hfuel
      have hread := hitem fuel (',' :: ((itemsText (next :: others)).toList ++ ']' :: rest))
        (by omega) (isEnd_cons (by simp) _)
      have hothers := ih (List.cons_ne_nil _ _) (fun other hmem => h other (List.mem_cons_of_mem _ hmem))
        fuel (by omega)
      rw [htext, List.append_assoc, List.cons_append, readItems, hread]
      simp only [Option.bind_eq_bind, Option.bind_some, skipSpaces_cons (c := ',') rfl, hothers]
      rfl

/-- A member with a new key is read; what follows it decides whether the object ends there. -/
theorem readMembers_member {key : String} {value : Json} (hvalue : value.Rereads) {fuel : Nat}
    (hfuel : value.toText.toList.length < fuel) {earlier : Members} (hnew : key ∉ earlier.keys)
    {after : List Char} (hafter : IsEnd after) :
    readMembers (fuel + 1) earlier ((quote key).toList ++ ':' :: (value.toText.toList ++ after)) =
      match after with
      | '\x7d' :: after => some (earlier ++ [(key, value)], after)
      | ',' :: after => readMembers fuel (earlier ++ [(key, value)]) after
      | _ => none := by
  rw [toList_quote, List.cons_append, List.append_assoc, readMembers,
    skipSpaces_cons (c := '"') rfl]
  simp only [List.cons_append, List.nil_append, readQuoted_escaped, Option.bind_eq_bind,
    Option.bind_some, skipSpaces_cons (c := ':') rfl, hvalue fuel after hfuel hafter,
    String.ofList_toList, Members.set_fresh value hnew]
  cases after with
  | nil => rfl
  | cons c after => rcases hafter c rfl with rfl | rfl | rfl <;> rfl

theorem readMembers_membersText {members : Members} (hne : members ≠ [])
    (h : ∀ m ∈ members, m.2.Rereads) (fuel : Nat)
    (hfuel : (membersText members).toList.length + 1 < fuel) (earlier : Members)
    (hkeys : (earlier ++ members).keys.Nodup) (rest : List Char) :
    readMembers fuel earlier ((membersText members).toList ++ '\x7d' :: rest) =
      some (earlier ++ members, rest) := by
  induction members generalizing fuel earlier with
  | nil => exact absurd rfl hne
  | cons m others ih =>
    obtain ⟨key, value⟩ := m
    obtain ⟨fuel, rfl⟩ := Nat.exists_eq_succ_of_ne_zero (Nat.ne_zero_of_lt hfuel)
    have hvalue : value.Rereads := h (key, value) List.mem_cons_self
    have hnew : key ∉ earlier.keys := by
      intro hmem
      rw [Members.keys, List.map_append, List.nodup_append] at hkeys
      exact hkeys.2.2 key hmem key List.mem_cons_self rfl
    cases others with
    | nil =>
      have htext : (membersText [(key, value)]).toList =
          (quote key).toList ++ ':' :: value.toText.toList := by
        simp [membersText]
      rw [htext, List.length_append, List.length_cons] at hfuel
      rw [htext, List.append_assoc, List.cons_append,
        readMembers_member hvalue (by omega) hnew (isEnd_cons (by simp) _)]
      rfl
    | cons next others =>
      have htext : (membersText ((key, value) :: next :: others)).toList =
          (quote key).toList ++ ':' ::
            (value.toText.toList ++ ',' :: (membersText (next :: others)).toList) := by
        simp [membersText]
      rw [htext, List.length_append, List.length_cons, List.length_append, List.length_cons] at hfuel
      have hothers := ih (List.cons_ne_nil _ _)
        (fun other hmem => h other (List.mem_cons_of_mem _ hmem)) fuel (by omega)
        (earlier ++ [(key, value)]) (by rwa [List.append_assoc])
      rw [htext, List.append_assoc, List.cons_append, List.append_assoc, List.cons_append,
        readMembers_member hvalue (by omega) hnew (isEnd_cons (by simp) _)]
      rwa [List.append_assoc] at hothers

theorem isReadableItems_iff {items : List Json} :
    IsReadableItems items ↔ ∀ item ∈ items, item.IsReadable := by
  induction items with
  | nil => simp [IsReadableItems]
  | cons item rest ih => simp [IsReadableItems, ih]

theorem isReadableMembers_iff {members : Members} :
    IsReadableMembers members ↔ ∀ m ∈ members, m.2.IsReadable := by
  induction members with
  | nil => simp [IsReadableMembers]
  | cons m rest ih => simp [IsReadableMembers, ih]

theorem rereads_null : null.Rereads := by
  intro fuel rest hfuel _
  obtain ⟨fuel, rfl⟩ := Nat.exists_eq_succ_of_ne_zero (Nat.ne_zero_of_lt hfuel)
  rfl

theorem rereads_bool (b : Bool) : (bool b).Rereads := by
  intro fuel rest hfuel _
  obtain ⟨fuel, rfl⟩ := Nat.exists_eq_succ_of_ne_zero (Nat.ne_zero_of_lt hfuel)
  cases b <;> rfl

/-- A number is read by what no other value starts with. -/
theorem rereads_number {n : Number} (h : n.IsRead) : (number n).Rereads := by
  intro fuel rest hfuel hrest
  obtain ⟨fuel, rfl⟩ := Nat.exists_eq_succ_of_ne_zero (Nat.ne_zero_of_lt hfuel)
  obtain ⟨c, text, htext, hc⟩ := h.starts
  obtain ⟨d, text', htext', hd, -⟩ := toText_starts (show (number n).IsReadable from h)
  obtain ⟨rfl, rfl⟩ := List.cons.inj (htext.symm.trans htext')
  have hother : ∀ d, d ≠ '-' → Text.isDigit d = false → c ≠ d := by
    rintro d hminus hdigit rfl
    rcases hc with rfl | hc
    · exact hminus rfl
    · exact absurd hc (by simp [hdigit])
  have hread := h.reads rest hrest
  rw [htext, List.cons_append] at hread
  rw [toText, htext, List.cons_append, readValue, skipSpaces_cons hd]
  split
  · next heq => exact absurd (List.cons.inj heq).1 (hother _ (by decide) (by decide))
  · next heq => exact absurd (List.cons.inj heq).1 (hother _ (by decide) (by decide))
  · next heq => exact absurd (List.cons.inj heq).1 (hother _ (by decide) (by decide))
  · next heq => exact absurd (List.cons.inj heq).1 (hother _ (by decide) (by decide))
  · next heq => exact absurd (List.cons.inj heq).1 (hother _ (by decide) (by decide))
  · next heq => exact absurd (List.cons.inj heq).1 (hother _ (by decide) (by decide))
  · rw [hread]
    rfl

theorem rereads_string (s : String) : (string s).Rereads := by
  intro fuel rest hfuel _
  obtain ⟨fuel, rfl⟩ := Nat.exists_eq_succ_of_ne_zero (Nat.ne_zero_of_lt hfuel)
  rw [toText, toList_quote, List.cons_append, List.append_assoc, readValue,
    skipSpaces_cons (c := '"') rfl]
  simp only [List.cons_append, List.nil_append, readQuoted_escaped, Option.map_some,
    String.ofList_toList]

theorem rereads_array {items : List Json} (hitems : ∀ item ∈ items, item.IsReadable)
    (h : ∀ item ∈ items, item.Rereads) : (array items).Rereads := by
  intro fuel rest hfuel _
  obtain ⟨fuel, rfl⟩ := Nat.exists_eq_succ_of_ne_zero (Nat.ne_zero_of_lt hfuel)
  rw [toList_array, List.length_cons, List.length_append, List.length_singleton] at hfuel
  rw [toList_array, List.cons_append, List.append_assoc, readValue, skipSpaces_cons (c := '[') rfl]
  cases items with
  | nil => rfl
  | cons item others =>
    have hread := readItems_itemsText (List.cons_ne_nil item others) h fuel (by omega) rest
    obtain ⟨c, text, htext, hspace, hopen⟩ := itemsText_starts others (hitems item List.mem_cons_self)
    simp only [List.singleton_append]
    rw [htext, List.cons_append] at hread ⊢
    rw [skipSpaces_cons hspace]
    split
    · next heq => exact absurd (List.cons.inj heq).1 hopen
    · rw [hread]
      rfl

theorem rereads_object {members : Members} (hkeys : members.keys.Nodup)
    (h : ∀ m ∈ members, m.2.Rereads) : (object members).Rereads := by
  intro fuel rest hfuel _
  obtain ⟨fuel, rfl⟩ := Nat.exists_eq_succ_of_ne_zero (Nat.ne_zero_of_lt hfuel)
  rw [toList_object, List.length_cons, List.length_append, List.length_singleton] at hfuel
  rw [toList_object, List.cons_append, List.append_assoc, readValue,
    skipSpaces_cons (c := '\x7b') rfl]
  cases members with
  | nil => rfl
  | cons m others =>
    have hread := readMembers_membersText (List.cons_ne_nil m others) h fuel (by omega) [] hkeys rest
    obtain ⟨text, htext⟩ := membersText_starts m others
    simp only [List.singleton_append]
    rw [htext, List.cons_append] at hread ⊢
    rw [skipSpaces_cons (c := '"') rfl]
    show Option.map _ (readMembers fuel [] ('"' :: (text ++ '\x7d' :: rest))) = _
    rw [hread]
    rfl

theorem IsReadable.rereads : ∀ {json : Json}, json.IsReadable → json.Rereads
  | null, _ => rereads_null
  | bool b, _ => rereads_bool b
  | number _, h => rereads_number h
  | string s, _ => rereads_string s
  | array items, h =>
    have hitems := isReadableItems_iff.mp h
    rereads_array hitems fun item hmem => (hitems item hmem).rereads
  | object members, h =>
    have hmembers := isReadableMembers_iff.mp h.2
    rereads_object h.1 fun m hmem => (hmembers m hmem).rereads
termination_by json => sizeOf json
decreasing_by
  · have := List.sizeOf_lt_of_mem hmem
    simp
    omega
  · have := List.sizeOf_lt_of_mem hmem
    cases m
    simp at *
    omega

/-- What is written of a document is read as that document. -/
theorem parse?_toText {json : Json} (h : json.IsReadable) : parse? json.toText = some json := by
  have hread := h.rereads (json.toText.toList.length + 1) [] (Nat.lt_succ_self _) (by simp [IsEnd])
  rw [List.append_nil] at hread
  rw [parse?, hread]
  rfl

end Json

end WorkloadTuning
