import Polystore.Calendar.Time

/-!
Counts of days and of nanoseconds, read back: every date is the date of its count, every count
within the calendar is that of a date, and a date and time without a leap second is that of its
nanoseconds.
-/

namespace Polystore.Calendar

namespace Date

theorem daysBeforeYear_le_succ (year : Int) :
    daysBeforeYear year ≤ daysBeforeYear (year + 1) := by
  rw [daysBeforeYear_succ]
  split <;> omega

theorem daysBeforeYear_mono {a b : Int} (h : a ≤ b) : daysBeforeYear a ≤ daysBeforeYear b := by
  rw [daysBeforeYear, daysBeforeYear]
  omega

/-- The quotient by the mean length of a year is at most one year off. -/
theorem guess_near {year n : Int} (hlow : daysBeforeYear year ≤ n)
    (hhigh : n < daysBeforeYear (year + 1)) :
    year - 1 ≤ n * 400 / 146097 ∧ n * 400 / 146097 ≤ year + 1 := by
  rw [daysBeforeYear] at hlow hhigh
  omega

theorem yearOf_eq {year n : Int} (hlow : daysBeforeYear year ≤ n)
    (hhigh : n < daysBeforeYear (year + 1)) : yearOf n = year := by
  have hnear := guess_near hlow hhigh
  rw [yearOf]
  generalize n * 400 / 146097 = guess at hnear
  have hcases : guess = year - 1 ∨ guess = year ∨ guess = year + 1 := by omega
  rcases hcases with rfl | rfl | rfl
  · have hbefore := daysBeforeYear_le_succ (year - 1)
    rw [Int.sub_add_cancel] at hbefore ⊢
    rw [if_neg (by omega), if_pos hlow]
  · rw [if_neg (by omega), if_neg (by omega)]
  · rw [if_pos hhigh, Int.add_sub_cancel]

theorem daysBeforeYear_yearOf (n : Int) :
    daysBeforeYear (yearOf n) ≤ n ∧ n < daysBeforeYear (yearOf n + 1) := by
  rw [yearOf]
  split
  · next hlate =>
    rw [Int.sub_add_cancel]
    refine ⟨?_, hlate⟩
    rw [daysBeforeYear]
    omega
  · next hlow =>
    split
    · next hearly =>
      refine ⟨hearly, ?_⟩
      rw [daysBeforeYear]
      omega
    · next hhigh =>
      exact ⟨Int.not_lt.mp hlow, Int.not_le.mp hhigh⟩

theorem daysInMonths_mono (year : Int) {a b : Nat} (h : a ≤ b) :
    daysInMonths year a ≤ daysInMonths year b := by
  induction h with
  | refl => exact Nat.le_refl _
  | step _ ih =>
    rw [daysInMonths]
    omega

theorem month_of_day {year : Int} {month day : Nat} (hmonth : month < 12)
    (hlow : daysInMonths year month ≤ day) (hhigh : day < daysInMonths year (month + 1)) :
    (List.range 12).find? (fun m => decide (day < daysInMonths year (m + 1))) = some month := by
  rw [List.find?_range_eq_some]
  refine ⟨by simpa using hhigh, by simpa using hmonth, ?_⟩
  intro earlier hearlier
  have hmono := daysInMonths_mono year (show earlier + 1 ≤ month from hearlier)
  simp only [Bool.not_eq_true', decide_eq_false_iff_not]
  omega

/-- A day within so many months of a year is in one of them. -/
theorem exists_month {year : Int} {day months : Nat} (h : day < daysInMonths year months) :
    ∃ month, month < months ∧ daysInMonths year month ≤ day ∧
      day < daysInMonths year (month + 1) := by
  induction months with
  | zero => exact absurd h (Nat.not_lt_zero _)
  | succ months ih =>
    by_cases hearlier : day < daysInMonths year months
    · obtain ⟨month, hmonth, hday⟩ := ih hearlier
      exact ⟨month, Nat.lt_succ_of_lt hmonth, hday⟩
    · exact ⟨months, Nat.lt_succ_self _, Nat.le_of_not_lt hearlier, h⟩

theorem day_le (d : Date) : daysInMonths d.year (d.month - 1) + d.day ≤ daysInMonths d.year d.month := by
  obtain ⟨year, month, day, -, hmonth, hday⟩ := d
  have hsucc : month = month - 1 + 1 := by omega
  simp only
  rw [hsucc, daysInMonths, ← hsucc]
  omega

theorem dayNumber_eq (d : Date) : d.dayNumber + unixEpoch =
    daysBeforeYear d.year + (daysInMonths d.year (d.month - 1) + (d.day - 1) : Nat) := by
  have hday := d.valid.2.2
  rw [dayNumber]
  omega

/-- The days of a year come before the next year. -/
theorem dayNumber_lt (d : Date) : d.dayNumber + unixEpoch < daysBeforeYear (d.year + 1) := by
  have hday := d.valid.2.2
  have hend := d.day_le
  have htwelve := daysInMonths_mono d.year d.valid.2.1.2
  rw [daysInMonths_twelve] at htwelve
  rw [dayNumber_eq, daysBeforeYear_succ]
  split at htwelve
  · next hleap =>
    rw [if_pos hleap]
    omega
  · next hleap =>
    rw [if_neg hleap]
    omega

theorem ofDayNumber?_dayNumber (d : Date) : ofDayNumber? d.dayNumber = some d := by
  have hmonth := d.valid.2.1
  have hday := d.valid.2.2
  have hend := d.day_le
  have hnumber := d.dayNumber_eq
  have hyear : yearOf (d.dayNumber + unixEpoch) = d.year := by
    apply yearOf_eq
    · omega
    · exact d.dayNumber_lt
  have hdayOfYear : (d.dayNumber + unixEpoch - daysBeforeYear d.year).toNat =
      daysInMonths d.year (d.month - 1) + (d.day - 1) := by
    omega
  have hfind : (List.range 12).find? (fun m => decide
      (daysInMonths d.year (d.month - 1) + (d.day - 1) < daysInMonths d.year (m + 1))) =
      some (d.month - 1) := by
    apply month_of_day
    · omega
    · omega
    · rw [Nat.sub_add_cancel hmonth.1]
      omega
  rw [ofDayNumber?]
  simp only [hyear, hdayOfYear, hfind, Option.getD_some]
  rw [Nat.sub_add_cancel hmonth.1, Nat.add_sub_cancel_left, Nat.sub_add_cancel hday.1]
  exact ofYmd?_self d

/-- Every date is within a hundred million days of 1970. -/
theorem dayNumber_bounds (d : Date) : -100000000 < d.dayNumber ∧ d.dayNumber < 100000000 := by
  have hyear := d.valid.1
  have hday := d.valid.2.2
  have hend := d.day_le
  have htwelve := daysInMonths_mono d.year d.valid.2.1.2
  rw [daysInMonths_twelve] at htwelve
  have hlength : (if isLeapYear d.year then 366 else 365) ≤ 366 := by split <;> decide
  rw [dayNumber, daysBeforeYear, unixEpoch]
  omega

/-- Every count of days that falls in a year of the calendar is the count of a date. -/
theorem exists_of_yearOf {number : Int} (hfirst : -262143 ≤ yearOf (number + unixEpoch))
    (hlast : yearOf (number + unixEpoch) ≤ 262142) :
    ∃ d, ofDayNumber? number = some d ∧ d.dayNumber = number := by
  obtain ⟨hlow, hhigh⟩ := daysBeforeYear_yearOf (number + unixEpoch)
  generalize hyear : yearOf (number + unixEpoch) = year at hfirst hlast hlow hhigh
  have htwelve : (number + unixEpoch - daysBeforeYear year).toNat < daysInMonths year 12 := by
    rw [daysBeforeYear_succ] at hhigh
    rw [daysInMonths_twelve]
    split at hhigh
    · next hleap =>
      rw [if_pos hleap]
      omega
    · next hleap =>
      rw [if_neg hleap]
      omega
  obtain ⟨month, hmonth, hstart, hend⟩ := exists_month htwelve
  have hlength : daysInMonths year (month + 1) = daysInMonths year month + monthLength year (month + 1) :=
    rfl
  rw [ofDayNumber?]
  simp only [hyear, month_of_day hmonth hstart hend, Option.getD_some]
  rw [ofYmd?, dif_pos ⟨⟨hfirst, hlast⟩, by omega, by omega⟩]
  refine ⟨_, rfl, ?_⟩
  rw [dayNumber]
  simp only [Nat.add_sub_cancel]
  omega

theorem dayNumber_of_ofDayNumber? {number : Int} {d : Date} (h : ofDayNumber? number = some d) :
    d.dayNumber = number := by
  have hyear : -262143 ≤ yearOf (number + unixEpoch) ∧ yearOf (number + unixEpoch) ≤ 262142 := by
    simp only [ofDayNumber?, ofYmd?] at h
    split at h
    · next hvalid => exact hvalid.1
    · cases h
  obtain ⟨found, hfound, hnumber⟩ := exists_of_yearOf hyear.1 hyear.2
  rw [h] at hfound
  rw [Option.some.inj hfound, hnumber]

theorem dayNumber_injective {a b : Date} (h : a.dayNumber = b.dayNumber) : a = b := by
  have hread := ofDayNumber?_dayNumber a
  rw [h, ofDayNumber?_dayNumber] at hread
  exact (Option.some.inj hread).symm

theorem first_valid : ((-262143 : Int) ≤ -262143 ∧ (-262143 : Int) ≤ 262142) ∧ (1 ≤ 1 ∧ 1 ≤ 12) ∧
    (1 ≤ 1 ∧ 1 ≤ monthLength (-262143) 1) := by
  decide

/-- The first day of the calendar. -/
def first : Date := ⟨-262143, 1, 1, first_valid⟩

/-- The last day of the calendar. -/
def last : Date := ⟨262142, 12, 31, by decide⟩

theorem dayNumber_first : first.dayNumber + unixEpoch = daysBeforeYear (-262143) := by
  decide

theorem dayNumber_last : last.dayNumber + 1 + unixEpoch = daysBeforeYear 262143 := by
  decide

theorem first_le (d : Date) : first.dayNumber ≤ d.dayNumber := by
  have hmono := daysBeforeYear_mono d.valid.1.1
  have hfirst := dayNumber_first
  have hnumber := d.dayNumber_eq
  omega

theorem le_last (d : Date) : d.dayNumber ≤ last.dayNumber := by
  have hyear := d.valid.1.2
  have hmono := daysBeforeYear_mono (show d.year + 1 ≤ 262143 by omega)
  have hlast := dayNumber_last
  have hend := d.dayNumber_lt
  omega

/-- The calendar has a date for every count of days from its first day to its last one. -/
theorem isSome_ofDayNumber?_iff (number : Int) : (ofDayNumber? number).isSome = true ↔
    first.dayNumber ≤ number ∧ number ≤ last.dayNumber := by
  constructor
  · intro h
    obtain ⟨d, hd⟩ := Option.isSome_iff_exists.mp h
    rw [← dayNumber_of_ofDayNumber? hd]
    exact ⟨d.first_le, d.le_last⟩
  · rintro ⟨hlow, hhigh⟩
    have hfirst := dayNumber_first
    have hlast := dayNumber_last
    obtain ⟨hstart, hend⟩ := daysBeforeYear_yearOf (number + unixEpoch)
    have hafter : -262143 ≤ yearOf (number + unixEpoch) := by
      refine Int.not_lt.mp fun hbefore => ?_
      have hmono := daysBeforeYear_mono (show yearOf (number + unixEpoch) + 1 ≤ -262143 by omega)
      omega
    have hbefore : yearOf (number + unixEpoch) ≤ 262142 := by
      refine Int.not_lt.mp fun hlate => ?_
      have hmono := daysBeforeYear_mono (show 262143 ≤ yearOf (number + unixEpoch) by omega)
      omega
    obtain ⟨d, hd, -⟩ := exists_of_yearOf hafter hbefore
    rw [hd]
    rfl

/-- Only the last day of the calendar has no next one. -/
theorem next_eq_none_iff (d : Date) : ofDayNumber? (d.dayNumber + 1) = none ↔ d = last := by
  have hlow := d.first_le
  have hhigh := d.le_last
  rw [← Option.not_isSome_iff_eq_none, isSome_ofDayNumber?_iff]
  constructor
  · exact fun h => dayNumber_injective (by omega)
  · rintro rfl
    omega

end Date

namespace Time

/-- The last second of a day. -/
theorem last_lt : 86399 < 86400 := by decide

/-- The first nanosecond of a leap second. -/
theorem leap_lt : 1000000000 < 2000000000 := by decide

end Time

namespace DateTime

theorem ofNanos?_nanos {t : DateTime} (h : t.time.nano < 1000000000) :
    ofNanos? t.nanos = some t := by
  obtain ⟨date, ⟨second, nano, hsecond, hnano⟩⟩ := t
  simp only at h
  have hseconds : nanos ⟨date, ⟨second, nano, hsecond, hnano⟩⟩ / 1000000000 =
      date.dayNumber * 86400 + second := by
    simp only [nanos, seconds]
    omega
  have hday : (date.dayNumber * 86400 + second) / 86400 = date.dayNumber := by omega
  have hrest : (date.dayNumber * 86400 + second) % 86400 = second := by omega
  have hnanos : nanos ⟨date, ⟨second, nano, hsecond, hnano⟩⟩ % 1000000000 = nano := by
    simp only [nanos, seconds]
    omega
  rw [ofNanos?]
  simp only [hseconds, hday, hrest, hnanos, Date.ofDayNumber?_dayNumber, Option.map_some,
    Int.toNat_natCast]

theorem nanos_of_ofNanos? {nanos : Int} {t : DateTime} (h : ofNanos? nanos = some t) :
    t.nanos = nanos ∧ t.time.nano < 1000000000 := by
  rw [ofNanos?, Option.map_eq_some_iff] at h
  obtain ⟨date, hdate, rfl⟩ := h
  have hday := Date.dayNumber_of_ofDayNumber? hdate
  constructor
  · simp only [DateTime.nanos, seconds]
    omega
  · simp only
    omega

/-- A date and time can be moved if it stays between the first and the last day. -/
theorem isSome_shift?_iff (t : DateTime) (seconds : Int) : (t.shift? seconds).isSome = true ↔
    Date.first.dayNumber * 86400 ≤ t.seconds + seconds ∧
      t.seconds + seconds < (Date.last.dayNumber + 1) * 86400 := by
  rw [shift?, Option.isSome_map, Date.isSome_ofDayNumber?_iff, DateTime.seconds]
  omega

theorem seconds_shift? {t u : DateTime} {seconds : Int} (h : t.shift? seconds = some u) :
    u.seconds = t.seconds + seconds := by
  rw [shift?, Option.map_eq_some_iff] at h
  obtain ⟨date, hdate, rfl⟩ := h
  have hday := Date.dayNumber_of_ofDayNumber? hdate
  simp only [DateTime.seconds]
  omega

/-- Moving by seconds does not touch the nanoseconds. -/
theorem nano_shift? {t u : DateTime} {seconds : Int} (h : t.shift? seconds = some u) :
    u.time.nano = t.time.nano := by
  rw [shift?, Option.map_eq_some_iff] at h
  obtain ⟨date, -, rfl⟩ := h
  rfl

end DateTime

end Polystore.Calendar
