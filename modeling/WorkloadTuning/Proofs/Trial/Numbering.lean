import WorkloadTuning.Proofs.Text.Cut
import WorkloadTuning.Proofs.Text.DigitOrder
import WorkloadTuning.Proofs.Text.Trim
import WorkloadTuning.Service.Trial

/-! The names of numbered trials. A trial without a name is named by the number that its location at
the service ends in, with at least three digits. Different numbers give different names. The names
are in the order of the numbers as long as these have no more than three digits or equally many,
and beyond that only where the greater number does not begin with less than the lesser one. -/

namespace WorkloadTuning

/-! ### Numbers in locations -/

/-- The last part of the location is read as this number. -/
def EndsInNumber (url : String) (n : Nat) : Prop :=
  Text.readInt? (lastPathPart url).toList = some (n : Int)

instance (url : String) (n : Nat) : Decidable (EndsInNumber url n) :=
  inferInstanceAs (Decidable (_ = _))

theorem readInt?_toDigits (n : Nat) : Text.readInt? (Nat.toDigits 10 n) = some (n : Int) := by
  have hdigits := (Text.areDigits_toDigits n).digits
  unfold Text.readInt?
  split
  · next h => exact absurd (hdigits '-' (h ▸ List.mem_cons_self)) (by decide)
  · next h => exact absurd (hdigits '+' (h ▸ List.mem_cons_self)) (by decide)
  · rw [Text.readNat?_toDigits]
    rfl

theorem lastPathPart_append (base : String) {last : List Char} (hne : last ≠ []) (h : '/' ∉ last) :
    lastPathPart (base ++ "/" ++ String.ofList last) = String.ofList last := by
  have hpath : (base ++ "/" ++ String.ofList last).toList = base.toList ++ '/' :: last := by
    simp [String.toList_append]
  have hend : Text.dropEndWhile (· == '/') (base.toList ++ '/' :: last) =
      base.toList ++ '/' :: last := by
    have hlast : (last.getLast hne == '/') = false :=
      beq_eq_false_iff_ne.mpr fun heq => h (heq ▸ List.getLast_mem hne)
    rw [← List.dropLast_append_getLast hne, ← List.cons_append, ← List.append_assoc]
    exact Text.dropEndWhile_append_keep _ hlast
  rw [lastPathPart, hpath, hend, Text.cutLast?_append _ h]

theorem endsInNumber_append (base : String) (n : Nat) :
    EndsInNumber (base ++ "/" ++ toString n) n := by
  have hdigits := Text.areDigits_toDigits n
  have hslash : '/' ∉ Nat.toDigits 10 n := fun h => absurd (hdigits.digits _ h) (by decide)
  have htext : toString n = String.ofList (Nat.toDigits 10 n) := Nat.toString_eq_ofList_toDigits
  rw [EndsInNumber, htext, lastPathPart_append base hdigits.ne_nil hslash, String.toList_ofList,
    readInt?_toDigits]

/-! ### Numbers in names -/

/-- How many characters the number takes in a name. -/
def namePlaces (n : Nat) : Nat :=
  max 3 (Nat.toDigits 10 n).length

theorem trialNumberText_ofNat (n : Nat) : trialNumberText n = Text.padded 3 n := by
  rw [trialNumberText, if_neg (by omega), Int.natAbs_natCast]

/-- A common start does not matter to the order of texts. -/
theorem append_lt_append_iff (start a b : String) :
    start ++ a < start ++ b ↔ a.toList < b.toList := by
  rw [String.lt_iff, String.toList_append, String.toList_append]
  induction start.toList with
  | nil => rfl
  | cons c rest ih => simpa using ih

theorem trialNumberText_lt_iff {n m : Nat} (h : n < m) (start : String) :
    start ++ trialNumberText n < start ++ trialNumberText m ↔
      n ≤ m / 10 ^ (namePlaces m - namePlaces n) := by
  rw [append_lt_append_iff, trialNumberText_ofNat, trialNumberText_ofNat, Text.padded_lt_iff h,
    Text.length_padded_eq_max, Text.length_padded_eq_max]
  rfl

/-! ### Trials -/

namespace Trial

/-- The trial has no name yet, only what its name is to start with. -/
structure AwaitsName (t : Trial) (start : String) : Prop where
  name : t.metadata.name = ""
  generateName : t.metadata.generateName = start
  start_ne : start ≠ ""

theorem accept_name (t : Trial) (s : Service.Suggestion) : (t.accept s).name = t.nameFor s.selfUrl := by
  unfold accept name Metadata.addFinalizer
  dsimp only
  split <;> rfl

theorem AwaitsName.accept_name {t : Trial} {start : String} (ht : t.AwaitsName start)
    {s : Service.Suggestion} {n : Nat} (hs : EndsInNumber s.selfUrl n) (hfits : n < 2 ^ 63) :
    (t.accept s).name = start ++ trialNumberText n := by
  have hurl : s.selfUrl ≠ "" := by
    intro hempty
    have hnone : Text.readInt? (lastPathPart "").toList = none := by decide
    rw [EndsInNumber, hempty, hnone] at hs
    cases hs
  have hnumber : (Text.readInt? (lastPathPart s.selfUrl).toList).filter fitsInt64 = some (n : Int) := by
    rw [hs, Option.filter_some, if_pos]
    simp only [fitsInt64, Bool.and_eq_true, decide_eq_true_eq]
    omega
  rw [Trial.accept_name, nameFor, ht.name, ht.generateName]
  simp [ht.start_ne, hurl, trialName, hnumber]

/-- Trials that are named by different numbers have different names. The lesser number comes first
exactly if it is at most the number that as many digits of the greater one write. -/
theorem accept_numbered_names {t u : Trial} {start : String} (ht : t.AwaitsName start)
    (hu : u.AwaitsName start) {earlier later : Service.Suggestion} {n m : Nat}
    (hearlier : EndsInNumber earlier.selfUrl n) (hlater : EndsInNumber later.selfUrl m)
    (hlt : n < m) (hfits : m < 2 ^ 63) :
    (t.accept earlier).name ≠ (u.accept later).name ∧
      ((t.accept earlier).name < (u.accept later).name ↔
        n ≤ m / 10 ^ (namePlaces m - namePlaces n)) := by
  rw [ht.accept_name hearlier (hlt.trans hfits), hu.accept_name hlater hfits]
  refine ⟨?_, trialNumberText_lt_iff hlt start⟩
  intro hsame
  have htexts := String.append_right_inj _ |>.mp hsame
  rw [trialNumberText_ofNat, trialNumberText_ofNat, Text.padded_inj] at htexts
  exact hlt.ne htexts

/-- A trial that is not named yet. -/
def unnamed : Trial :=
  { metadata := { generateName := "web-" } }

/-- What the service suggests for the trial of that number. -/
def numbered (n : Nat) : Service.Suggestion :=
  { selfUrl := "https://api.test/experiments/web/trials" ++ "/" ++ toString n }

theorem unnamed_awaitsName : unnamed.AwaitsName "web-" :=
  ⟨rfl, rfl, by decide⟩

/-- The longer name goes on from the shorter one. -/
theorem numbered_names_sorted :
    unnamed.AwaitsName "web-" ∧ EndsInNumber (numbered 120).selfUrl 120 ∧
      EndsInNumber (numbered 1200).selfUrl 1200 ∧
      (unnamed.accept (numbered 120)).name < (unnamed.accept (numbered 1200)).name := by
  have hearlier : EndsInNumber (numbered 120).selfUrl 120 := endsInNumber_append _ 120
  have hlater : EndsInNumber (numbered 1200).selfUrl 1200 := endsInNumber_append _ 1200
  have hnames := accept_numbered_names unnamed_awaitsName unnamed_awaitsName hearlier hlater
    (by decide) (by decide)
  exact ⟨unnamed_awaitsName, hearlier, hlater, hnames.2.mpr (by decide)⟩

/-- With the thousandth trial the names are no longer in the order of the numbers. -/
theorem thousandth_sorts_first :
    unnamed.AwaitsName "web-" ∧ EndsInNumber (numbered 999).selfUrl 999 ∧
      EndsInNumber (numbered 1000).selfUrl 1000 ∧
      (unnamed.accept (numbered 999)).name = "web-999" ∧
      (unnamed.accept (numbered 1000)).name = "web-1000" ∧
      ¬ (unnamed.accept (numbered 999)).name < (unnamed.accept (numbered 1000)).name := by
  have hearlier : EndsInNumber (numbered 999).selfUrl 999 := endsInNumber_append _ 999
  have hlater : EndsInNumber (numbered 1000).selfUrl 1000 := endsInNumber_append _ 1000
  have hname : (unnamed.accept (numbered 999)).name = "web-999" :=
    unnamed_awaitsName.accept_name hearlier (by decide)
  have hthousandth : (unnamed.accept (numbered 1000)).name = "web-1000" :=
    unnamed_awaitsName.accept_name hlater (by decide)
  rw [hname, hthousandth]
  exact ⟨unnamed_awaitsName, hearlier, hlater, rfl, rfl, by decide⟩

end Trial

end WorkloadTuning
