import WorkloadTuning.Json.NumberReader
import WorkloadTuning.Proofs.Decimal.Shortest
import WorkloadTuning.Proofs.Json.RoundTrip

/-! Texts of numbers of double precision in documents. Reading scales a significand by a power of
ten, and where both are exact that is one rounding of what the text says. -/

namespace WorkloadTuning.Json

open Binary64
open Text

/-! ### Scaling -/

/-- Powers of ten are exact as far as their powers of five have up to 53 binary digits. -/
theorem powerOfTen_exact {k : Nat} (hk : k ≤ 22) :
    ∃ (m : Nat) (e : ℤ), 0 < m ∧ (m : ℚ) * 2 ^ e = 10 ^ k ∧ powerOfTen k = finite false m e := by
  have hfive : 5 ^ k < 2 ^ 53 := (Nat.pow_le_pow_right (by decide) hk).trans_lt (by norm_num)
  have hvalue : ((tenTo k : Nat) : ℚ) / (1 : Nat) = (5 ^ k : Nat) * 2 ^ (k : ℤ) := by
    rw [cast_tenTo, zpow_natCast, Nat.cast_one, div_one, Nat.cast_pow, ← mul_pow]
    norm_num
  obtain ⟨m, e, hm, heq, hexact⟩ := ofRatio_exact false (Nat.pow_pos (by decide)) hfive
    (by omega) (by omega) Nat.one_pos hvalue
  refine ⟨m, e, hm, ?_, hexact⟩
  rw [heq, cast_tenTo, Nat.cast_one, div_one]

/-- A significand that is exact is scaled down with one rounding. -/
theorem floatOf_eq {significand n k M : Nat} {j E : ℤ} {negative : Bool} (hn : 0 < n)
    (hlt : n < 2 ^ 53) (hj : 0 ≤ j) (hj' : j ≤ 900) (hexact : (significand : ℚ) = n * 2 ^ j)
    (hk : 0 < k) (hk' : k ≤ 22) (h : IsStored M E) (hq : Surrounds M E (significand / 10 ^ k)) :
    floatOf negative significand (-k) = some (.float (finite negative M E)) := by
  have hvalue : (significand : ℚ) / (1 : Nat) = n * 2 ^ j := by rw [hexact, Nat.cast_one, div_one]
  obtain ⟨m, e, hm, hme, hx⟩ := ofRatio_exact false hn hlt (by omega) hj' Nat.one_pos hvalue
  obtain ⟨m', e', hm', hme', hpower⟩ := powerOfTen_exact hk'
  have hdiv : (Binary64.ofNat significand).div (powerOfTen k) = finite false M E := by
    rw [Binary64.ofNat, hx, hpower]
    refine div_eq_finite hm hm' h ?_
    rw [hme, hme', Nat.cast_one, div_one]
    exact hq
  have hscaled : scaleByTen (Binary64.ofNat significand) (-k) 4 = some (finite false M E) := by
    rw [scaleByTen, if_pos (by omega), if_neg (by omega), Int.natAbs_neg, Int.natAbs_natCast, hdiv]
  rw [floatOf, hscaled]
  cases negative <;> rfl

/-! ### Texts with a point or an exponent -/

/-- What may stand before the point: no zero in front of other digits. -/
structure IsWhole (cs : List Char) : Prop extends AreDigits cs where
  plain : ¬(cs.head? = some '0' ∧ 1 < cs.length)

variable {whole fraction given rest : List Char} {negative : Bool}

theorem absorb_whole (h : digitsValue (whole ++ fraction) < 18446744073709551616) :
    absorb 0 whole = (digitsValue whole, []) ∧
      absorb (digitsValue whole) fraction = (digitsValue (whole ++ fraction), []) := by
  unfold digitsValue at h ⊢
  rw [List.foldl_append] at h ⊢
  exact ⟨absorb_eq ((le_digitsFrom fraction _).trans_lt h), absorb_eq h⟩

/-- A number with a point and no exponent. -/
theorem readUnsigned_pointed {x : Number} (hwhole : IsWhole whole) (hfraction : AreDigits fraction)
    (hlt : digitsValue (whole ++ fraction) < 18446744073709551616) (hrest : IsEnd rest)
    (h : floatOf negative (digitsValue (whole ++ fraction)) (-fraction.length) = some x) :
    readUnsigned negative (whole ++ '.' :: (fraction ++ rest)) = some (x, rest) := by
  obtain ⟨htake, hdrop⟩ := hwhole.spans ('.' :: (fraction ++ rest)) (by simp; decide)
  obtain ⟨htake', hdrop'⟩ := hfraction.spans rest hrest.not_digit
  obtain ⟨habsorb, habsorb'⟩ := absorb_whole hlt
  have hempty : whole.isEmpty = false := by simpa using hwhole.ne_nil
  have hempty' : fraction.isEmpty = false := by simpa using hfraction.ne_nil
  unfold readUnsigned
  simp only [htake, hdrop, htake', hdrop', hempty, hempty', if_neg hwhole.plain, habsorb, habsorb',
    Bool.false_eq_true, if_false, List.length_nil, Nat.cast_zero, Nat.sub_zero, zero_sub, h]
  cases rest with
  | nil => rfl
  | cons c rest => rcases hrest c rfl with rfl | rfl | rfl <;> rfl

theorem readExponent_negative (hgiven : AreDigits given) (hrest : IsEnd rest) :
    readExponent ('-' :: (given ++ rest)) = some (-(digitsValue given : ℤ), rest) := by
  obtain ⟨htake, hdrop⟩ := hgiven.spans rest hrest.not_digit
  have hempty : given.isEmpty = false := by simpa using hgiven.ne_nil
  unfold readExponent
  simp only [htake, hdrop, hempty, Bool.false_eq_true, if_false, if_true]

/-- A number with a point and a negative exponent. -/
theorem readUnsigned_pointed_exponent {x : Number} (hwhole : IsWhole whole)
    (hfraction : AreDigits fraction) (hgiven : AreDigits given)
    (hlt : digitsValue (whole ++ fraction) < 18446744073709551616) (hrest : IsEnd rest)
    (h : floatOf negative (digitsValue (whole ++ fraction))
      (-fraction.length - digitsValue given) = some x) :
    readUnsigned negative (whole ++ '.' :: (fraction ++ 'e' :: '-' :: (given ++ rest))) =
      some (x, rest) := by
  obtain ⟨htake, hdrop⟩ :=
    hwhole.spans ('.' :: (fraction ++ 'e' :: '-' :: (given ++ rest))) (by simp; decide)
  obtain ⟨htake', hdrop'⟩ := hfraction.spans ('e' :: '-' :: (given ++ rest)) (by simp; decide)
  obtain ⟨habsorb, habsorb'⟩ := absorb_whole hlt
  have hempty : whole.isEmpty = false := by simpa using hwhole.ne_nil
  have hempty' : fraction.isEmpty = false := by simpa using hfraction.ne_nil
  have hexponent := readExponent_negative hgiven hrest
  unfold readUnsigned
  simp only [htake, hdrop, htake', hdrop', hempty, hempty', if_neg hwhole.plain, habsorb, habsorb',
    Bool.false_eq_true, if_false, List.length_nil, Nat.cast_zero, Nat.sub_zero, zero_sub, hexponent]
  rw [sub_eq_add_neg] at h
  dsimp only [Option.bind_eq_bind, Option.bind_some]
  rw [h]
  rfl

/-- A number without a point and with a negative exponent. -/
theorem readUnsigned_exponent {x : Number} (hwhole : IsWhole whole) (hgiven : AreDigits given)
    (hlt : digitsValue whole < 18446744073709551616) (hrest : IsEnd rest)
    (h : floatOf negative (digitsValue whole) (-digitsValue given) = some x) :
    readUnsigned negative (whole ++ 'e' :: '-' :: (given ++ rest)) = some (x, rest) := by
  obtain ⟨htake, hdrop⟩ := hwhole.spans ('e' :: '-' :: (given ++ rest)) (by simp; decide)
  have hlt' : digitsValue (whole ++ []) < 18446744073709551616 := by rwa [List.append_nil]
  obtain ⟨habsorb, -⟩ := absorb_whole hlt'
  have hempty : whole.isEmpty = false := by simpa using hwhole.ne_nil
  have hexponent := readExponent_negative hgiven hrest
  unfold readUnsigned
  simp only [htake, hdrop, hempty, if_neg hwhole.plain, habsorb,
    Bool.false_eq_true, if_false, List.length_nil, Nat.cast_zero, hexponent, zero_add,
    Option.bind_eq_bind, Option.bind_some, h]
  rfl

/-! ### Layouts -/

/-- The significand and the number of its places behind the point, as the layout shows them. -/
def shown (digits : Nat) (place : ℤ) : Nat × Nat :=
  if 0 ≤ place then (digits * 10 ^ (place.toNat + 1), 1) else (digits, (-place).toNat)

/-- The text of a positive number. -/
structure IsSignificand (text : List Char) (significand : Nat) : Prop extends AreDigits text where
  head : text.head? ≠ some '0'
  value : digitsValue text = significand

theorem isSignificand_toDigits {digits : Nat} (h : 0 < digits) :
    IsSignificand (Nat.toDigits 10 digits) digits :=
  ⟨areDigits_toDigits digits, head?_toDigits_ne_zero h, digitsValue_toDigits digits⟩

theorem isWhole_zero : IsWhole ['0'] :=
  ⟨⟨by simp, by simp; decide⟩, by simp⟩

section Layouts
variable {text : List Char} {digits n : Nat} {x : Number}

theorem IsSignificand.isWhole (h : IsSignificand text digits) : IsWhole text :=
  ⟨h.toAreDigits, fun hzero => h.head hzero.1⟩

theorem IsSignificand.cut (h : IsSignificand text digits) (hn : 0 < n) (hn' : n < text.length) :
    IsWhole (text.take n) ∧ AreDigits (text.drop n) ∧
      digitsValue (text.take n ++ text.drop n) = digits := by
  refine ⟨⟨⟨?_, fun c hc => h.digits c (List.mem_of_mem_take hc)⟩, fun hzero => h.head ?_⟩,
    ⟨?_, fun c hc => h.digits c (List.mem_of_mem_drop hc)⟩, ?_⟩
  · rw [ne_eq, List.take_eq_nil_iff]
    exact not_or.mpr ⟨hn.ne', h.ne_nil⟩
  · rw [← hzero.1, List.head?_take, if_neg hn.ne']
  · rw [ne_eq, List.drop_eq_nil_iff]
    omega
  · rw [List.take_append_drop, h.value]

theorem readUnsigned_whole (h : IsSignificand text digits)
    (hlt : digits * 10 ^ (n + 1) < 18446744073709551616) (hrest : IsEnd rest)
    (hx : floatOf negative (digits * 10 ^ (n + 1)) (-1) = some x) :
    readUnsigned negative ((String.ofList text ++ Binary64.zeros n ++ ".0").toList ++ rest) =
      some (x, rest) := by
  have hwhole : IsWhole (text ++ List.replicate n '0') := by
    refine ⟨h.append fun _ hc => isDigit_of_mem_zeros hc, fun hzero => h.head ?_⟩
    rw [← hzero.1, List.head?_append_of_ne_nil _ h.ne_nil]
  have hvalue : digitsValue ((text ++ List.replicate n '0') ++ ['0']) = digits * 10 ^ (n + 1) := by
    rw [List.append_assoc, ← List.replicate_succ', digitsValue_append_zeros, h.value]
  have htext : (String.ofList text ++ Binary64.zeros n ++ ".0").toList ++ rest =
      (text ++ List.replicate n '0') ++ '.' :: (['0'] ++ rest) := by
    simp [Binary64.zeros]
  rw [htext]
  exact readUnsigned_pointed hwhole isWhole_zero.toAreDigits (by rwa [hvalue]) hrest
    (by rw [hvalue]; exact hx)

theorem readUnsigned_cut (h : IsSignificand text digits) (hn : 0 < n) (hn' : n < text.length)
    (hlt : digits < 18446744073709551616) (hrest : IsEnd rest)
    (hx : floatOf negative digits (-(text.length - n : Nat)) = some x) :
    readUnsigned negative ((Binary64.pointed text n).toList ++ rest) = some (x, rest) := by
  obtain ⟨hwhole, hfraction, hvalue⟩ := h.cut hn hn'
  have htext : (Binary64.pointed text n).toList ++ rest =
      text.take n ++ '.' :: (text.drop n ++ rest) := by
    simp [Binary64.pointed]
  rw [htext]
  refine readUnsigned_pointed hwhole hfraction (by rwa [hvalue]) hrest ?_
  rw [hvalue, List.length_drop]
  exact hx

theorem readUnsigned_small (h : IsSignificand text digits) (hlt : digits < 18446744073709551616)
    (hrest : IsEnd rest) (hx : floatOf negative digits (-(n + text.length : Nat)) = some x) :
    readUnsigned negative (("0." ++ Binary64.zeros n ++ String.ofList text).toList ++ rest) =
      some (x, rest) := by
  have hvalue : digitsValue (['0'] ++ (List.replicate n '0' ++ text)) = digits := by
    rw [← h.value]
    exact digitsValue_zeros_append _ _
  have htext : ("0." ++ Binary64.zeros n ++ String.ofList text).toList ++ rest =
      ['0'] ++ '.' :: ((List.replicate n '0' ++ text) ++ rest) := by
    simp [Binary64.zeros]
  rw [htext]
  refine readUnsigned_pointed isWhole_zero (h.zeros_append n) (by rwa [hvalue]) hrest ?_
  rw [hvalue, List.length_append, List.length_replicate]
  exact hx

theorem toList_toString_neg (hn : 0 < n) :
    (toString (-(n : ℤ))).toList = '-' :: Nat.toDigits 10 n := by
  change (-(n : ℤ)).repr.toList = _
  rw [Int.repr_eq_if, if_neg (by omega), Int.neg_neg, String.toList_append]
  exact congrArg _ Nat.toList_repr

theorem readUnsigned_scientific (h : IsSignificand text digits) (hn : 0 < n)
    (hlt : digits < 18446744073709551616) (hrest : IsEnd rest)
    (hx : floatOf negative digits (-(text.length - 1 : Nat) - n) = some x) :
    readUnsigned negative (((if text.length = 1 then String.ofList text
      else Binary64.pointed text 1) ++ "e" ++ "" ++ toString (-(n : ℤ))).toList ++ rest) =
      some (x, rest) := by
  have hexponent := toList_toString_neg hn
  have hgiven := digitsValue_toDigits n
  split
  · next hsingle =>
    have htext : (String.ofList text ++ "e" ++ "" ++ toString (-(n : ℤ))).toList ++ rest =
        text ++ 'e' :: '-' :: (Nat.toDigits 10 n ++ rest) := by
      simp only [String.toList_append, hexponent]
      simp
    rw [htext]
    refine readUnsigned_exponent h.isWhole (areDigits_toDigits n) (by rwa [h.value]) hrest ?_
    rw [h.value, hgiven, ← hx, hsingle]
    congr 1
    omega
  · next hseveral =>
    have hlength : 1 < text.length := by
      have := List.length_pos_iff.mpr h.ne_nil
      omega
    obtain ⟨hwhole, hfraction, hvalue⟩ := h.cut Nat.one_pos hlength
    have htext : (Binary64.pointed text 1 ++ "e" ++ "" ++ toString (-(n : ℤ))).toList ++ rest =
        text.take 1 ++ '.' :: (text.drop 1 ++ 'e' :: '-' :: (Nat.toDigits 10 n ++ rest)) := by
      simp only [String.toList_append, hexponent]
      simp [Binary64.pointed]
    rw [htext]
    refine readUnsigned_pointed_exponent hwhole hfraction (areDigits_toDigits n)
      (by rwa [hvalue]) hrest ?_
    rw [hvalue, hgiven, List.length_drop]
    exact hx

end Layouts

/-- Below ten to the sixteenth a layout has no positive exponent. -/
theorem readUnsigned_layout {digits : Nat} {place : ℤ} {x : Number} (hdigits : 0 < digits)
    (hpoint : Binary64.digitCount digits + place ≤ 16)
    (hlt : (shown digits place).1 < 18446744073709551616) (hrest : IsEnd rest)
    (h : floatOf negative (shown digits place).1 (-(shown digits place).2) = some x) :
    readUnsigned negative ((Binary64.layout digits place).toList ++ rest) = some (x, rest) := by
  have htext := isSignificand_toDigits hdigits
  change (Nat.toDigits 10 digits).length + place ≤ 16 at hpoint
  unfold Binary64.layout
  dsimp only
  generalize Nat.toDigits 10 digits = text at htext hpoint ⊢
  split
  · next hplace =>
    rw [shown, if_pos hplace.1] at h hlt
    exact readUnsigned_whole htext hlt hrest h
  · next hnotWhole =>
    have hplace : ¬0 ≤ place := fun hplace => hnotWhole ⟨hplace, hpoint⟩
    rw [shown, if_neg hplace] at h hlt
    dsimp only at h hlt
    split
    · next hinside =>
      refine readUnsigned_cut htext (by omega) (by omega) hlt hrest ?_
      rw [← h]
      congr 2
      omega
    split
    · next hbefore =>
      refine readUnsigned_small htext hlt hrest ?_
      rw [← h]
      congr 2
      omega
    · next hbeyond =>
      obtain ⟨n, hn⟩ : ∃ n : Nat, text.length + place - 1 = -(n : ℤ) :=
        ⟨(1 - (text.length + place)).toNat, by omega⟩
      have hneg : ¬0 ≤ -(n : ℤ) := by omega
      rw [hn, if_neg hneg]
      refine readUnsigned_scientific htext (by omega) hlt hrest ?_
      have hlength := List.length_pos_iff.mpr htext.ne_nil
      rw [← h]
      congr 1
      omega

end WorkloadTuning.Json
