import Mathlib.Tactic.Ring
import WorkloadTuning.Proofs.Text.Digits

/-! The order of digit texts. A text comes before one with at least as many digits if it writes less
than as many digits of the other do, or the same and the other goes on. -/

namespace WorkloadTuning.Text

variable {as bs : List Char} {c d : Char} {n m width : Nat}

theorem digitsValue_append (as bs : List Char) :
    digitsValue (as ++ bs) = digitsValue as * 10 ^ bs.length + digitsValue bs := by
  induction bs using List.reverseRecOn with
  | nil => simp [digitsValue]
  | append_singleton bs c ih =>
    unfold digitsValue at ih ⊢
    rw [← List.append_assoc, List.foldl_append, ih, List.foldl_append, List.length_append, pow_add]
    simp only [List.foldl_cons, List.foldl_nil, List.length_cons, List.length_nil]
    ring

theorem digitsValue_cons (c : Char) (as : List Char) :
    digitsValue (c :: as) = digitValue c * 10 ^ as.length + digitsValue as := by
  have hsingle : digitsValue [c] = digitValue c := Nat.zero_add _
  rw [← List.singleton_append, digitsValue_append, hsingle]

/-- The number that the start of a digit text writes. -/
theorem digitsValue_take (hb : ∀ c ∈ bs, isDigit c = true) (count : Nat) :
    digitsValue (bs.take count) = digitsValue bs / 10 ^ (bs.length - count) := by
  have hdrop : digitsValue (bs.drop count) < 10 ^ (bs.length - count) := by
    rw [← List.length_drop]
    exact digitsValue_lt fun c hc => hb c (List.mem_of_mem_drop hc)
  have happend := digitsValue_append (bs.take count) (bs.drop count)
  rw [List.take_append_drop, List.length_drop] at happend
  rw [happend, Nat.mul_comm, Nat.mul_add_div (Nat.pow_pos (by decide)), Nat.div_eq_of_lt hdrop,
    Nat.add_zero]

theorem digitValue_lt_iff (hc : isDigit c = true) (hd : isDigit d = true) :
    digitValue c < digitValue d ↔ c < d := by
  have hcrange := isDigit_iff.mp hc
  have hdrange := isDigit_iff.mp hd
  have hzero : '0'.toNat = 48 := rfl
  rw [show c < d ↔ c.toNat < d.toNat from Iff.rfl, digitValue, digitValue, hzero]
  omega

theorem digitValue_inj (hc : isDigit c = true) (hd : isDigit d = true) :
    digitValue c = digitValue d ↔ c = d := by
  have hcrange := isDigit_iff.mp hc
  have hdrange := isDigit_iff.mp hd
  have hzero : '0'.toNat = 48 := rfl
  rw [← Char.toNat_inj, digitValue, digitValue, hzero]
  omega

theorem lt_iff_digitsValue_take (ha : ∀ c ∈ as, isDigit c = true)
    (hb : ∀ c ∈ bs, isDigit c = true) (hlength : as.length ≤ bs.length) :
    as < bs ↔ digitsValue as < digitsValue (bs.take as.length) ∨
      digitsValue as = digitsValue (bs.take as.length) ∧ as.length < bs.length := by
  induction as generalizing bs with
  | nil =>
    cases bs with
    | nil => simp [digitsValue]
    | cons d bs => simp [digitsValue]
  | cons c as ih =>
    cases bs with
    | nil => simp at hlength
    | cons d bs =>
      obtain ⟨hc, ha⟩ := List.forall_mem_cons.mp ha
      obtain ⟨hd, hb⟩ := List.forall_mem_cons.mp hb
      have hrest : as.length ≤ bs.length := Nat.le_of_succ_le_succ hlength
      have htake : (bs.take as.length).length = as.length := List.length_take_of_le hrest
      have hsmalla := digitsValue_lt ha
      have hsmallb := digitsValue_lt fun x hx => hb x (List.mem_of_mem_take (i := as.length) hx)
      rw [htake] at hsmallb
      rw [List.cons_lt_cons_iff, ih ha hb hrest, ← digitValue_lt_iff hc hd, ← digitValue_inj hc hd,
        List.length_cons, List.length_cons, List.take_succ_cons, digitsValue_cons, digitsValue_cons,
        htake]
      -- The first digit that differs outweighs all that follow it.
      rcases Nat.lt_trichotomy (digitValue c) (digitValue d) with hlt | heq | hgt
      · have hmore := Nat.mul_le_mul_right (10 ^ as.length) (Nat.succ_le_of_lt hlt)
        rw [Nat.succ_mul] at hmore
        omega
      · rw [heq]
        omega
      · have hmore := Nat.mul_le_mul_right (10 ^ as.length) (Nat.succ_le_of_lt hgt)
        rw [Nat.succ_mul] at hmore
        omega

/-- Of two numbers, the lesser comes first exactly if it is at most the number that the other one's
text begins with, in as many digits. -/
theorem lt_iff_digitsValue_le (ha : ∀ c ∈ as, isDigit c = true) (hb : ∀ c ∈ bs, isDigit c = true)
    (hlength : as.length ≤ bs.length) (hlt : digitsValue as < digitsValue bs) :
    as < bs ↔ digitsValue as ≤ digitsValue bs / 10 ^ (bs.length - as.length) := by
  rw [lt_iff_digitsValue_take ha hb hlength, digitsValue_take hb]
  by_cases hsame : as.length = bs.length
  · rw [hsame, Nat.sub_self, Nat.pow_zero, Nat.div_one]
    omega
  · omega

/-! ### Numbers with zeros in front -/

theorem length_padded_eq_max (width n : Nat) :
    (padded width n).toList.length = max width (Nat.toDigits 10 n).length := by
  rw [padded, String.toList_ofList, List.length_append, List.length_replicate]
  omega

theorem length_toDigits_mono (h : n ≤ m) :
    (Nat.toDigits 10 n).length ≤ (Nat.toDigits 10 m).length := by
  have hpos : 0 < (Nat.toDigits 10 m).length := List.length_pos_iff.mpr Nat.toDigits_ne_nil
  have hm := (Nat.length_toDigits_le_iff (b := 10) (by decide) hpos).mp le_rfl
  exact (Nat.length_toDigits_le_iff (by decide) hpos).mpr (Nat.lt_of_le_of_lt h hm)

theorem padded_lt_iff (h : n < m) : (padded width n).toList < (padded width m).toList ↔
    n ≤ m / 10 ^ ((padded width m).toList.length - (padded width n).toList.length) := by
  have hlength : (padded width n).toList.length ≤ (padded width m).toList.length := by
    rw [length_padded_eq_max, length_padded_eq_max]
    have hmono := length_toDigits_mono h.le
    omega
  have hvalues : digitsValue (padded width n).toList < digitsValue (padded width m).toList := by
    rwa [digitsValue_padded, digitsValue_padded]
  rw [lt_iff_digitsValue_le (areDigits_padded width n).digits (areDigits_padded width m).digits
    hlength hvalues, digitsValue_padded, digitsValue_padded]

theorem padded_inj : padded width n = padded width m ↔ n = m := by
  constructor
  · intro h
    have hvalues := congrArg (fun s : String => digitsValue s.toList) h
    simpa only [digitsValue_padded] using hvalues
  · exact congrArg _

end WorkloadTuning.Text
