import Mathlib.Data.List.TakeWhile
import Mathlib.Tactic.IntervalCases
import WorkloadTuning.Proofs.Json.Records
import WorkloadTuning.Proofs.Text.Digits
import WorkloadTuning.Timestamp

/-! Points in time are read as what is written of them. A date comes back from its day number, as
the days of an era determine century, cycle of four years, year and month in turn. -/

namespace WorkloadTuning.Timestamp

/-! ### Dates -/

/-- Days from the first of March to the date; `m` counts the months from March. -/
def dayOfYear (m day : Nat) : Nat :=
  (153 * m + 2) / 5 + day - 1

/-- Days from the start of a cycle of 400 years; `y` counts the years in it. -/
def dayOfEra (y dayOfYear : Nat) : Nat :=
  365 * y + y / 4 - y / 100 + dayOfYear

/-- Centuries, cycles of four years and years of a year in its era. -/
theorem dayOfEra_eq (c q r n : Nat) (hq : q < 25) (hr : r < 4) :
    dayOfEra (100 * c + 4 * q + r) n = 36524 * c + 1461 * q + 365 * r + n := by
  unfold dayOfEra
  omega

/-- The correction of the divisor counts the leap days before the day. -/
theorem yearOfEra_eq {c q r n : Nat} (hc : c < 4) (hq : q < 25) (hr : r < 4) (hn : n ≤ 365)
    (hleap : n = 365 → r = 3 ∧ (q < 24 ∨ c = 3)) (N : Nat)
    (hN : N = 36524 * c + 1461 * q + 365 * r + n) :
    (N - N / 1460 + N / 36524 - N / 146096) / 365 = 100 * c + 4 * q + r := by
  have hrest : 1461 * q + 365 * r + n ≤ 36524 := by omega
  -- only the very last day of an era makes a fifth century
  have hcentury : N / 36524 = c + N / 146096 := by
    by_cases hlast : N = 146096
    · obtain rfl : c = 3 := by omega
      rw [hlast]
    · rw [Nat.div_eq_of_lt (by omega : N < 146096), Nat.div_eq_of_lt_le] <;> omega
  have hfour : N / 1460 = 25 * c + q + (24 * c + q + 365 * r + n) / 1460 := by
    have hN' : N = 24 * c + q + 365 * r + n + 1460 * (25 * c + q) := by omega
    rw [hN', Nat.add_mul_div_left _ _ (by decide), Nat.add_comm]
  have hextra : (24 * c + q + 365 * r + n) / 1460 ≤ n ∧
      n < 365 + (24 * c + q + 365 * r + n) / 1460 := by
    clear hN hcentury hfour
    omega
  rw [hcentury, hfour]
  generalize (24 * c + q + 365 * r + n) / 1460 = extra at hextra
  generalize N / 146096 = last
  clear hcentury hfour
  omega

theorem daysInMonth_le (year : Int) (month : Nat) :
    daysInMonth year month ≤ 31 ∧ (month ∈ [4, 6, 9, 11] → daysInMonth year month = 30) ∧
      (month = 2 → daysInMonth year month = if isLeapYear year then 29 else 28) := by
  unfold daysInMonth
  refine ⟨?_, fun h => ?_, fun h => if_pos h⟩
  · split
    · split <;> decide
    · split <;> decide
  · have h2 : month ≠ 2 := by
      rintro rfl
      simp at h
    rw [if_neg h2, if_pos h]

/-- Month and day come back from the day of the year; only leap years have the last one. -/
theorem monthOf_dayOfYear {year : Int} {month day : Nat} (hmonth : 1 ≤ month)
    (hmonth' : month ≤ 12) (hday : 1 ≤ day) (hday' : day ≤ daysInMonth year month) :
    let m := (month + 9) % 12
    let n := dayOfYear m day
    (5 * n + 2) / 153 = m ∧ n - (153 * m + 2) / 5 + 1 = day ∧ n ≤ 365 ∧
      (n = 365 → month = 2 ∧ isLeapYear year) := by
  obtain ⟨hmost, hshort, hfebruary⟩ := daysInMonth_le year month
  have hleap : daysInMonth year month = 29 → month = 2 → isLeapYear year := by
    intro h29 h2
    rw [hfebruary h2] at h29
    by_contra hnot
    rw [if_neg hnot] at h29
    omega
  have hfebruary' : month = 2 → daysInMonth year month ≤ 29 := by
    intro h2
    rw [hfebruary h2]
    split <;> decide
  clear hfebruary
  generalize daysInMonth year month = days at *
  unfold dayOfYear
  dsimp only
  refine ⟨?_, ?_, ?_, fun h => ?_⟩
  · interval_cases month <;> simp at hshort hfebruary' ⊢ <;> omega
  · omega
  · interval_cases month <;> simp at hshort hfebruary' ⊢ <;> omega
  · have h2 : month = 2 := by
      interval_cases month <;> simp at hshort hfebruary' h ⊢ <;> omega
    subst h2
    have := hfebruary' rfl
    exact ⟨rfl, hleap (by omega) rfl⟩

theorem dayNumber_eq {year : Int} {month day y n : Nat} {era : Int} (hday : 1 ≤ day)
    (hy : (if month ≤ 2 then year - 1 else year) = 400 * era + y) (hlt : y < 400)
    (hn : n = dayOfYear ((month + 9) % 12) day) :
    dayNumber year month day = 146097 * era + dayOfEra y n := by
  have hdays : 365 * (400 * era + y) + (400 * era + y) / 4 - (400 * era + y) / 100 +
      (400 * era + y) / 400 = 146097 * era + ((365 * y + y / 4 - y / 100 : Nat) : Int) := by
    omega
  unfold dayNumber dayOfEra
  dsimp only
  rw [hy, hn, dayOfYear, hdays]
  omega

/-- A date is that of its day number. -/
theorem dateOf_dayNumber {year : Int} {month day : Nat} (hmonth : 1 ≤ month) (hmonth' : month ≤ 12)
    (hday : 1 ≤ day) (hday' : day ≤ daysInMonth year month) :
    dateOf (dayNumber year month day) = (year, month, day) := by
  obtain ⟨hm, hd, hn, hleap⟩ := monthOf_dayOfYear hmonth hmonth' hday hday'
  generalize hn' : dayOfYear ((month + 9) % 12) day = n at *
  generalize hstart : (if month ≤ 2 then year - 1 else year) = start
  obtain ⟨era, hera⟩ : ∃ era, era = start / 400 := ⟨_, rfl⟩
  obtain ⟨y, hy⟩ := Int.eq_ofNat_of_zero_le (Int.emod_nonneg start (by decide : (400 : Int) ≠ 0))
  have hstart' : start = 400 * era + y := by omega
  have hlt : y < 400 := by omega
  obtain ⟨c, q, r, hc, hq, hr, rfl⟩ : ∃ c q r, c < 4 ∧ q < 25 ∧ r < 4 ∧ y = 100 * c + 4 * q + r :=
    ⟨y / 100, y % 100 / 4, y % 4, by omega, by omega, by omega, by omega⟩
  have hlast : n = 365 → r = 3 ∧ (q < 24 ∨ c = 3) := by
    intro h
    obtain ⟨rfl, hyear⟩ := hleap h
    rw [if_pos (by decide)] at hstart
    simp only [isLeapYear, Bool.and_eq_true, Bool.or_eq_true, beq_iff_eq, bne_iff_ne] at hyear
    omega
  have hN := dayOfEra_eq c q r n hq hr
  have hbound : dayOfEra (100 * c + 4 * q + r) n < 146097 := by omega
  have hyear := yearOfEra_eq hc hq hr hn hlast _ hN
  rw [dayNumber_eq hday (hstart.trans hstart') hlt hn'.symm]
  generalize hD : dayOfEra (100 * c + 4 * q + r) n = N at *
  have hera' : (146097 * era + (N : Int)) / 146097 = era := by omega
  have hrest : ((146097 * era + (N : Int)) % 146097).toNat = N := by omega
  have hofYear : N - (365 * (100 * c + 4 * q + r) + (100 * c + 4 * q + r) / 4 -
      (100 * c + 4 * q + r) / 100) = n := by
    rw [← hD, dayOfEra]
    omega
  have hmonthOf : (if (month + 9) % 12 < 10 then (month + 9) % 12 + 3 else (month + 9) % 12 - 9) =
      month := by
    split <;> omega
  unfold dateOf
  simp only [hera', hrest, hyear, hofYear, hm, hd, hmonthOf, Prod.mk.injEq, and_true]
  split at hstart <;> omega

/-! ### Fields -/

open Text

variable {ds rest : List Char} {n most : Nat}

theorem trimStart_digits (h : AreDigits ds) (rest : List Char) :
    trimStart (ds ++ rest) = ds ++ rest := by
  obtain ⟨c, later, rfl⟩ := List.exists_cons_of_ne_nil h.ne_nil
  have hc := isBlank_of_isDigit (h.digits c List.mem_cons_self)
  rw [trimStart, List.cons_append, List.dropWhile_cons_of_neg (by simp [hc])]

theorem readField?_digits (h : AreDigits ds) (hlength : ds.length ≤ most)
    (hrest : ∀ c ∈ rest.head?, isDigit c = false) :
    readField? most (ds ++ rest) = some (digitsValue ds, rest) := by
  have hempty : ds.isEmpty = false := by simpa using h.ne_nil
  unfold readField?
  simp only [trimStart_digits h, (h.spans rest hrest).1, List.take_of_length_le hlength, hempty,
    Bool.false_eq_true, if_false, List.drop_left]

theorem readField?_padded (hmost : 0 < most) (h : n < 10 ^ most)
    (hrest : ∀ c ∈ rest.head?, isDigit c = false) :
    readField? most ((padded most n).toList ++ rest) = some (n, rest) := by
  rw [readField?_digits (areDigits_padded most n) (length_padded hmost h).le hrest,
    digitsValue_padded]

theorem expect?_cons {c : Char} (hc : isBlank c = false) (rest : List Char) :
    expect? c (c :: rest) = some rest := by
  rw [expect?, trimStart, List.dropWhile_cons_of_neg (by simp [hc])]
  exact if_pos rfl

theorem readYear?_plain (h : n < 10000) (hrest : ∀ c ∈ rest.head?, isDigit c = false) :
    readYear? ((padded 4 n).toList ++ rest) = some ((n : Int), rest) := by
  have hread := readField?_padded (by decide : 0 < 4) h hrest
  have hdigits := areDigits_padded 4 n
  obtain ⟨c, later, hc⟩ := List.exists_cons_of_ne_nil hdigits.ne_nil
  have hdigit : isDigit c = true := hdigits.digits c (hc ▸ List.mem_cons_self)
  unfold readYear?
  rw [trimStart_digits hdigits]
  split
  · next heq =>
    rw [hc] at heq
    obtain ⟨rfl, -⟩ := List.cons.inj heq
    exact absurd hdigit (by decide)
  · next heq =>
    rw [hc] at heq
    obtain ⟨rfl, -⟩ := List.cons.inj heq
    exact absurd hdigit (by decide)
  · rw [hread]
    rfl

theorem readYear?_signed (sign : Int) (n : Nat) (hrest : ∀ c ∈ rest.head?, isDigit c = false) :
    readYear?.signed sign ((padded 4 n).toList ++ rest) = some (sign * n, rest) := by
  have hdigits := areDigits_padded 4 n
  have hempty : (padded 4 n).toList.isEmpty = false := by simpa using hdigits.ne_nil
  unfold readYear?.signed
  simp only [(hdigits.spans rest hrest).1, hempty, Bool.false_eq_true, if_false,
    digitsValue_padded, List.drop_left]

/-- A year of up to four digits has no sign, any other one has. -/
theorem readYear?_yearText (year : Int) (hrest : ∀ c ∈ rest.head?, isDigit c = false) :
    readYear? ((yearText year).toList ++ rest) = some (year, rest) := by
  unfold yearText
  split
  · next hplain =>
    have hread := readYear?_plain (by omega : year.toNat < 10000) hrest
    rwa [Int.toNat_of_nonneg hplain.1] at hread
  split
  · next hneg =>
    have hread := readYear?_signed (-1) year.natAbs hrest
    have hvalue : -1 * (year.natAbs : Int) = year := by omega
    rw [hvalue] at hread
    rw [String.toList_append]
    exact hread
  · next hpos =>
    have hread := readYear?_signed 1 year.natAbs hrest
    have hvalue : 1 * (year.natAbs : Int) = year := by omega
    rw [hvalue] at hread
    rw [String.toList_append]
    exact hread

theorem readFraction?_padded {width : Nat} (hwidth : 0 < width) (hwidth' : width ≤ 9)
    (h : n < 10 ^ width) (hrest : ∀ c ∈ rest.head?, isDigit c = false) :
    readFraction? ('.' :: ((padded width n).toList ++ rest)) =
      some (n * 10 ^ (9 - width), rest) := by
  have hdigits := areDigits_padded width n
  have hlength := length_padded hwidth h
  have hempty : (padded width n).toList.isEmpty = false := by simpa using hdigits.ne_nil
  unfold readFraction?
  simp only [(hdigits.spans rest hrest).1, List.take_of_length_le (hlength.trans_le hwidth'),
    hempty, Bool.false_eq_true, if_false, digitsValue_padded, List.drop_left]
  rw [hlength, tenTo]
  rfl

theorem readFraction?_fractionText (h : n < 1000000000) :
    readFraction? ((fractionText n).toList ++ ['Z']) = some (n, ['Z']) := by
  have hend : ∀ c ∈ ['Z'].head?, isDigit c = false := by
    rintro c ⟨⟩
    decide
  have hpoint (text : String) : ("." ++ text).toList ++ ['Z'] = '.' :: (text.toList ++ ['Z']) := by
    rw [String.toList_append]
    rfl
  unfold fractionText
  split
  · next hzero =>
    rw [hzero]
    rfl
  split
  · next hmilli =>
    rw [hpoint, readFraction?_padded (by decide) (by decide) (by omega) hend]
    congr 2
    omega
  split
  · next hmicro =>
    rw [hpoint, readFraction?_padded (by decide) (by decide) (by omega) hend]
    congr 2
    omega
  · rw [hpoint, readFraction?_padded (by decide) (by decide) (by omega) hend]
    congr 2
    omega

theorem head?_fractionText (n : Nat) :
    ∀ c ∈ ((fractionText n).toList ++ ['Z']).head?, isDigit c = false := by
  have hhead : ((fractionText n).toList ++ ['Z']).head? = some 'Z' ∨
      ((fractionText n).toList ++ ['Z']).head? = some '.' := by
    have hpoint (text : String) : (("." ++ text).toList ++ ['Z']).head? = some '.' := by
      rw [String.toList_append]
      rfl
    unfold fractionText
    split
    · exact .inl rfl
    split
    · exact .inr (hpoint _)
    split <;> exact .inr (hpoint _)
  intro c hc
  rcases hhead with hhead | hhead <;> rw [hhead] at hc <;> cases hc <;> decide

/-! ### Points in time -/

/-- A date that there is and a time of day, with a fraction of a second. -/
structure IsProper (t : Timestamp) : Prop where
  valid : t.isValid = true
  nanosecond : t.nanosecond < 1000000000

theorem isValid_iff {t : Timestamp} : t.isValid = true ↔
    minYear ≤ t.year ∧ t.year ≤ maxYear ∧ 1 ≤ t.month ∧ t.month ≤ 12 ∧ 1 ≤ t.day ∧
      t.day ≤ daysInMonth t.year t.month ∧ t.hour < 24 ∧ t.minute < 60 ∧ t.second ≤ 60 := by
  simp only [isValid, Bool.and_eq_true, decide_eq_true_eq, and_assoc]

/-- In universal time nothing is moved. -/
theorem addMinutes_zero {t : Timestamp} (h : t.isValid = true) : t.addMinutes 0 = t := by
  obtain ⟨-, -, hmonth, hmonth', hday, hday', hhour, hminute, -⟩ := isValid_iff.mp h
  have hdate := dateOf_dayNumber hmonth hmonth' hday hday'
  have hdays : ((t.hour : Int) * 60 + t.minute) / 1440 = 0 := by omega
  have hrest : (((t.hour : Int) * 60 + t.minute) % 1440).toNat = t.hour * 60 + t.minute := by
    omega
  have hours : (t.hour * 60 + t.minute) / 60 = t.hour := by omega
  have hminutes : (t.hour * 60 + t.minute) % 60 = t.minute := by omega
  unfold addMinutes
  simp only [Int.add_zero, hdays, hrest, hdate, hours, hminutes]

theorem readField?_two {c : Char} (hn : n < 100) (hc : isDigit c = false) (later : List Char) :
    readField? 2 ((padded 2 n).toList ++ c :: later) = some (n, c :: later) :=
  readField?_padded (by decide) hn (by simpa using hc)

theorem readDate?_padded {year : Int} {month day : Nat} (hmonth : month < 100) (hday : day < 100)
    (later : List Char) :
    readDate? ((yearText year).toList ++ '-' :: ((padded 2 month).toList ++
      '-' :: ((padded 2 day).toList ++ 'T' :: later))) =
      some ((year, month, day), 'T' :: later) := by
  have hdash (rest : List Char) := expect?_cons (by decide : isBlank '-' = false) rest
  have hyear (rest : List Char) : readYear? ((yearText year).toList ++ '-' :: rest) =
      some (year, '-' :: rest) := readYear?_yearText year (by simp; decide)
  unfold readDate?
  refine Option.bind_eq_some_iff.mpr ⟨_, hyear _, ?_⟩
  refine Option.bind_eq_some_iff.mpr ⟨_, hdash _, ?_⟩
  refine Option.bind_eq_some_iff.mpr ⟨_, readField?_two hmonth (by decide) _, ?_⟩
  refine Option.bind_eq_some_iff.mpr ⟨_, hdash _, ?_⟩
  exact Option.bind_eq_some_iff.mpr ⟨_, readField?_two hday (by decide) _, rfl⟩

theorem readTime?_padded {hour minute second nanosecond : Nat} (hhour : hour < 100)
    (hminute : minute < 100) (hsecond : second < 100) (hnanosecond : nanosecond < 1000000000) :
    readTime? ((padded 2 hour).toList ++ ':' :: ((padded 2 minute).toList ++
      ':' :: ((padded 2 second).toList ++ ((fractionText nanosecond).toList ++ ['Z'])))) =
      some ((hour, minute, second, nanosecond), ['Z']) := by
  have hcolon (rest : List Char) := expect?_cons (by decide : isBlank ':' = false) rest
  unfold readTime?
  refine Option.bind_eq_some_iff.mpr ⟨_, readField?_two hhour (by decide) _, ?_⟩
  refine Option.bind_eq_some_iff.mpr ⟨_, hcolon _, ?_⟩
  refine Option.bind_eq_some_iff.mpr ⟨_, readField?_two hminute (by decide) _, ?_⟩
  refine Option.bind_eq_some_iff.mpr ⟨_, hcolon _, ?_⟩
  refine Option.bind_eq_some_iff.mpr
    ⟨_, readField?_padded (by decide) hsecond (head?_fractionText nanosecond), ?_⟩
  exact Option.bind_eq_some_iff.mpr ⟨_, readFraction?_fractionText hnanosecond, rfl⟩

theorem readMark?_cons (later : List Char) : readMark? ('T' :: later) = some later := by
  rw [readMark?]
  exact if_pos (.inl rfl)

theorem withOffset?_zero {t : Timestamp} (h : t.isValid = true) : t.withOffset? 0 = some t := by
  rw [withOffset?, if_pos h, Int.neg_zero, addMinutes_zero h, Option.filter_some, if_pos h]

/-- A time is read as what is written of it. -/
theorem parse?_toText {t : Timestamp} (h : t.IsProper) : parse? t.toText = some t := by
  obtain ⟨-, -, -, hmonth, -, hday, hhour, hminute, hsecond⟩ := isValid_iff.mp h.valid
  have hdays := (daysInMonth_le t.year t.month).1
  have htext : t.toText.toList = (yearText t.year).toList ++ '-' :: ((padded 2 t.month).toList ++
      '-' :: ((padded 2 t.day).toList ++ 'T' :: ((padded 2 t.hour).toList ++
      ':' :: ((padded 2 t.minute).toList ++ ':' :: ((padded 2 t.second).toList ++
      ((fractionText t.nanosecond).toList ++ ['Z'])))))) := by
    simp [toText]
  unfold parse?
  rw [htext]
  refine Option.bind_eq_some_iff.mpr ⟨_, readDate?_padded (by omega) (by omega) _, ?_⟩
  refine Option.bind_eq_some_iff.mpr ⟨_, readMark?_cons _, ?_⟩
  refine Option.bind_eq_some_iff.mpr
    ⟨_, readTime?_padded (by omega) (by omega) (by omega) h.nanosecond, ?_⟩
  exact Option.bind_eq_some_iff.mpr ⟨(0, []), by decide, withOffset?_zero h.valid⟩

theorem readFraction?_lt {s rest : List Char} (h : readFraction? s = some (n, rest)) :
    n < 1000000000 := by
  unfold readFraction? at h
  split at h
  · next rest' =>
    dsimp only at h
    split at h
    · cases h
    · obtain ⟨rfl, -⟩ := Prod.mk.inj (Option.some.inj h)
      have hlength := List.length_take_le 9 (rest'.takeWhile isDigit)
      have hdigits : ∀ c ∈ (rest'.takeWhile isDigit).take 9, isDigit c = true :=
        fun c hc => List.mem_takeWhile_imp (List.mem_of_mem_take hc)
      generalize (rest'.takeWhile isDigit).take 9 = ds at hlength hdigits
      calc digitsValue ds * tenTo (9 - ds.length)
          < 10 ^ ds.length * tenTo (9 - ds.length) :=
            Nat.mul_lt_mul_of_pos_right (digitsValue_lt hdigits) (Nat.pow_pos (by decide))
        _ = 10 ^ 9 := by rw [tenTo, Nat.pow_eq, ← pow_add, Nat.add_sub_cancel' hlength]
  · obtain ⟨rfl, -⟩ := Prod.mk.inj (Option.some.inj h)
    decide

theorem readTime?_lt {s rest : List Char} {hour minute second nanosecond : Nat}
    (h : readTime? s = some ((hour, minute, second, nanosecond), rest)) :
    nanosecond < 1000000000 := by
  obtain ⟨hourRead, -, h⟩ := Option.bind_eq_some_iff.mp h
  obtain ⟨afterHour, -, h⟩ := Option.bind_eq_some_iff.mp h
  obtain ⟨minuteRead, -, h⟩ := Option.bind_eq_some_iff.mp h
  obtain ⟨afterMinute, -, h⟩ := Option.bind_eq_some_iff.mp h
  obtain ⟨secondRead, -, h⟩ := Option.bind_eq_some_iff.mp h
  obtain ⟨fractionRead, hfraction, h⟩ := Option.bind_eq_some_iff.mp h
  cases h
  exact readFraction?_lt hfraction

/-- What is read is a date that there is and a time of day. -/
theorem isProper_of_parse? {text : String} {t : Timestamp} (h : parse? text = some t) :
    t.IsProper := by
  obtain ⟨⟨⟨year, month, day⟩, s⟩, -, h⟩ := Option.bind_eq_some_iff.mp h
  obtain ⟨s', -, h⟩ := Option.bind_eq_some_iff.mp h
  obtain ⟨⟨⟨hour, minute, second, nanosecond⟩, s''⟩, htime, h⟩ := Option.bind_eq_some_iff.mp h
  obtain ⟨⟨offset, s'''⟩, -, h⟩ := Option.bind_eq_some_iff.mp h
  dsimp only at h
  split at h
  · unfold withOffset? at h
    split at h
    · obtain ⟨hmoved, hvalid⟩ := Option.filter_eq_some_iff.mp h
      obtain rfl := Option.some.inj hmoved
      exact ⟨hvalid, readTime?_lt htime⟩
    · cases h
  · cases h

/-- A time that is read is read again from what is written of it. -/
theorem parse?_toText_of_parse? {text : String} {t : Timestamp} (h : parse? text = some t) :
    parse? t.toText = some t :=
  parse?_toText (isProper_of_parse? h)

/-! ### In documents -/

theorem roundTrips {t : Timestamp} (h : t.IsProper) : Record.RoundTrips t := by
  refine bind_eq_ok.mpr ⟨t.toText, rfl, ?_⟩
  rw [parse?_toText h]
  rfl

theorem option_roundTrips {o : Option Timestamp} (h : ∀ t ∈ o, t.IsProper) :
    Record.RoundTrips o :=
  Record.option_roundTrips (fun _ _ => Json.noConfusion) fun t ht => t.roundTrips (h t ht)

/-- A time that is read of a document is one that there is. -/
theorem isProper_of_ofJson {json : Json} {t : Timestamp} (h : Record.ofJson json = .ok t) :
    t.IsProper := by
  obtain ⟨text, -, hread⟩ := bind_eq_ok.mp h
  cases hparse : parse? text with
  | none =>
    rw [hparse] at hread
    cases hread
  | some read =>
    rw [hparse] at hread
    obtain rfl := Except.ok.inj hread
    exact isProper_of_parse? hparse

end WorkloadTuning.Timestamp
