import WorkloadTuning.Proofs.Naming.Uniqueness
import WorkloadTuning.Template

/-! Parameter names are plain: not empty, and over an alphabet that placeholders and assignments
can hold. Sanitizing brings a text into the alphabet and the counter stays in it. -/

namespace WorkloadTuning

/-- A lower case letter, a digit, a dash, a dot or an underscore. -/
def isPlainChar (c : Char) : Bool :=
  c.isLower || c.isDigit || c == '-' || c == '.' || c == '_'

structure IsPlainName (name : String) : Prop where
  nonempty : name ≠ ""
  plain : ∀ c ∈ name.toList, isPlainChar c

theorem isUpper_iff {c : Char} : c.isUpper = true ↔ 65 ≤ c.toNat ∧ c.toNat ≤ 90 :=
  decide_eq_true_iff

theorem isLower_iff {c : Char} : c.isLower = true ↔ 97 ≤ c.toNat ∧ c.toNat ≤ 122 := by
  show (decide (97 ≤ c.toNat) && decide (c.toNat ≤ 122)) = true ↔ _
  rw [Bool.and_eq_true, decide_eq_true_eq, decide_eq_true_eq]

theorem isAlphanum_iff {c : Char} :
    c.isAlphanum = true ↔ (c.isUpper = true ∨ c.isLower = true) ∨ c.isDigit = true := by
  show (c.isUpper || c.isLower || c.isDigit) = true ↔ _
  rw [Bool.or_eq_true, Bool.or_eq_true]

theorem toNat_toLower {c : Char} (h : c.isUpper) : c.toLower.toNat = c.toNat + 32 := by
  have hrange : 65 ≤ c.toNat ∧ c.toNat ≤ 90 := isUpper_iff.mp h
  have hval : c.toLower.val = c.val + 32 := congrArg Char.val (dif_pos hrange)
  have hnat : c.toLower.toNat = (c.toNat + 32) % 2 ^ 32 := by
    rw [Char.toNat, hval, UInt32.toNat_add]
    rfl
  omega

theorem isLower_toLower {c : Char} (h : c.isUpper) : c.toLower.isLower := by
  have hrange := isUpper_iff.mp h
  rw [isLower_iff, toNat_toLower h]
  omega

theorem toLower_of_not_isUpper {c : Char} (h : ¬ c.isUpper) : c.toLower = c :=
  dif_neg fun hrange => h (isUpper_iff.mpr hrange)

theorem toNat_toUpper {c : Char} (h : c.isLower) : c.toUpper.toNat + 32 = c.toNat := by
  have hrange : 97 ≤ c.toNat ∧ c.toNat ≤ 122 := isLower_iff.mp h
  have hletter : 'a'.val ≤ c.val ∧ c.val ≤ 'z'.val := hrange
  have hval : c.toUpper.val = c.val + ('A'.val - 'a'.val) := by
    delta Char.toUpper
    rw [dif_pos hletter]
  have hstep : ('A'.val - 'a'.val).toNat = 4294967264 := by decide
  have hnat : c.toUpper.toNat = (c.toNat + 4294967264) % 4294967296 := by
    rw [Char.toNat, hval, UInt32.toNat_add, hstep]
    rfl
  omega

theorem toUpper_of_not_isLower {c : Char} (h : ¬ c.isLower) : c.toUpper = c :=
  dif_neg fun hrange => h (isLower_iff.mpr hrange)

theorem isPlainChar_of_isDigit {c : Char} (h : c.isDigit) : isPlainChar c := by
  simp [isPlainChar, h]

/-- Names hold ASCII characters and no upper case. -/
theorem toNat_of_isPlainChar {c : Char} (h : isPlainChar c) :
    c.toNat < 65 ∨ 90 < c.toNat ∧ c.toNat < 128 := by
  simp only [isPlainChar, Bool.or_eq_true, beq_iff_eq] at h
  rcases h with (((hlower | hdigit) | rfl) | rfl) | rfl
  · have hrange := isLower_iff.mp hlower
    omega
  · have hrange : 48 ≤ c.toNat ∧ c.toNat ≤ 57 := by
      rwa [Char.isDigit, Bool.and_eq_true, decide_eq_true_eq, decide_eq_true_eq] at hdigit
    omega
  · decide
  · decide
  · decide

/-- Lower case gives back what upper case made of a name. -/
theorem toLower_toUpper {c : Char} (h : isPlainChar c) : c.toUpper.toLower = c := by
  by_cases hlower : c.isLower
  · have hrange := isLower_iff.mp hlower
    have hupper := toNat_toUpper hlower
    have hletter : c.toUpper.isUpper := isUpper_iff.mpr (by omega)
    exact Char.toNat_inj.mp (by rw [toNat_toLower hletter, hupper])
  · rw [toUpper_of_not_isLower hlower]
    refine toLower_of_not_isUpper fun hupper => ?_
    have hrange := isUpper_iff.mp hupper
    have hplain := toNat_of_isPlainChar h
    omega

/-- What a name may hold, a placeholder may hold. -/
theorem isNameChar_of_isPlainChar {c : Char} (h : isPlainChar c) : Template.isNameChar c := by
  simp only [isPlainChar, Bool.or_eq_true] at h
  simp only [Template.isNameChar, Bool.or_eq_true, isAlphanum_iff]
  tauto

/-! ### Lower case of a text -/

namespace Text

theorem lowerOf_ne_nil (c : Char) : lowerOf c ≠ [] := by
  unfold lowerOf
  split
  · simp
  · unfold counterpart
    split
    · next found =>
      have hmem := Array.mem_of_find?_eq_some found
      have hall : ∀ e ∈ lowerExpansions, e.2 ≠ [] := by decide
      simpa using hall _ hmem
    · split <;> simp

theorem lower_ne_empty {s : String} (h : s ≠ "") : lower s ≠ "" := by
  have hlist : s.toList ≠ [] := by simpa using h
  obtain ⟨c, rest, hcons⟩ := List.exists_cons_of_ne_nil hlist
  have hfirst : (if c = 'Σ' then
      (if facesCased [] && !facesCased rest then ['ς'] else ['σ']) else lowerOf c) ≠ [] := by
    split
    · split <;> simp
    · exact lowerOf_ne_nil c
  intro hempty
  have hnil : lowerFrom [] (c :: rest) = [] := by
    simpa [lower, hcons] using hempty
  simp only [lowerFrom, List.append_eq_nil_iff] at hnil
  exact hfirst hnil.1

end Text

/-! ### The stages of naming -/

namespace Namer

theorem isPlainChar_sanitizeChar (c : Char) : isPlainChar (sanitizeChar c) := by
  unfold sanitizeChar
  split
  · next h =>
    by_cases hupper : c.isUpper
    · simp [isPlainChar, isLower_toLower hupper]
    · rw [toLower_of_not_isUpper hupper]
      rw [isAlphanum_iff] at h
      simp only [isPlainChar, Bool.or_eq_true]
      tauto
  · split
    · next h =>
      rcases h with rfl | rfl | rfl <;> decide
    · decide

theorem sanitize_isPlainName {name : String} (h : name ≠ "") : IsPlainName (sanitize name) where
  nonempty := by
    have hlist : name.toList ≠ [] := by simpa using h
    simpa [sanitize] using hlist
  plain := by
    intro c hc
    simp only [sanitize, String.toList_ofList, List.mem_map] at hc
    obtain ⟨d, -, rfl⟩ := hc
    exact isPlainChar_sanitizeChar d

theorem numbered_isPlainName {name : String} (h : IsPlainName name) (n : Nat) :
    IsPlainName (numbered name n) where
  nonempty := by simp [numbered]
  plain := by
    intro c hc
    have hcases : c ∈ name.toList ∨ c = '_' ∨ c ∈ Nat.toDigits 10 n := by
      simpa [numbered, Nat.toString_eq_ofList_toDigits] using hc
    rcases hcases with hname | rfl | hdigit
    · exact h.plain c hname
    · decide
    · exact isPlainChar_of_isDigit (Nat.isDigit_of_mem_toDigits (by decide) (by decide) hdigit)

theorem localName_ne_empty (keys : List NameKey) {key : NameKey} (h : key.suffix ≠ "") :
    localName keys key ≠ "" := by
  unfold localName
  split
  · split
    · simp
    · exact h
  · exact h

theorem renderName_isPlainName (keys : List NameKey) (escalated : List ObjectReference)
    {key : NameKey} (h : key.suffix ≠ "") : IsPlainName (renderName keys escalated key) := by
  apply sanitize_isPlainName
  split
  · simp
  · split
    · simp
    · exact localName_ne_empty keys h

theorem uniqueFrom_isPlainName (duplicated taken : List String)
    (entries : List (NameKey × String)) (h : ∀ e ∈ entries, IsPlainName e.2) :
    ∀ e ∈ uniqueFrom duplicated taken entries, IsPlainName e.2 := by
  induction entries generalizing taken with
  | nil => simp [uniqueFrom]
  | cons entry rest ih =>
    intro e he
    simp only [uniqueFrom, List.mem_cons] at he
    rcases he with rfl | he
    · show IsPlainName (if _ then _ else _)
      split
      · exact numbered_isPlainName (h entry List.mem_cons_self) _
      · exact h entry List.mem_cons_self
    · exact ih _ (fun e he => h e (List.mem_cons_of_mem _ he)) e he

/-- Keys with suffixes get plain names. -/
theorem ofKeys_isPlainName {keys : List NameKey} (h : ∀ key ∈ keys, key.suffix ≠ "") :
    ∀ e ∈ (ofKeys keys).entries, IsPlainName e.2 := by
  have hrendered : ∀ escalated, ∀ e ∈ renderNames (NameKey.sorted keys) escalated,
      IsPlainName e.2 := by
    intro escalated e he
    obtain ⟨key, hkey, rfl⟩ := List.mem_map.mp he
    exact renderName_isPlainName _ _ (h key (NameKey.mem_sorted.mp hkey))
  simp only [ofKeys, makeUnique]
  split
  · exact uniqueFrom_isPlainName _ _ _ (hrendered [])
  · exact uniqueFrom_isPlainName _ _ _ (hrendered _)

theorem name_isPlainName {keys : List NameKey} (h : ∀ key ∈ keys, key.suffix ≠ "") {key : NameKey}
    (hkey : key ∈ keys) :
    IsPlainName ((ofKeys keys).name key.target key.path key.suffix) :=
  ofKeys_isPlainName h _ (entry_mem hkey)

end Namer

end WorkloadTuning
