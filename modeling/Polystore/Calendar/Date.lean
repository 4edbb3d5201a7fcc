/-!
Days of the proleptic Gregorian calendar, by year, month and day and by a count of days.
-/

namespace Polystore.Calendar

def isLeapYear (year : Int) : Bool :=
  year % 4 == 0 && (year % 100 != 0 || year % 400 == 0)

def monthLength (year : Int) (month : Nat) : Nat :=
  if month = 2 then if isLeapYear year then 29 else 28
  else if month = 4 || month = 6 || month = 9 || month = 11 then 30
  else 31

/-- A day between the first of year -262143 and the last of year 262142. -/
structure Date where
  year : Int
  month : Nat
  day : Nat
  valid : (-262143 ≤ year ∧ year ≤ 262142) ∧ (1 ≤ month ∧ month ≤ 12) ∧
    (1 ≤ day ∧ day ≤ monthLength year month)
deriving DecidableEq

namespace Date

def ofYmd? (year : Int) (month day : Nat) : Option Date :=
  if h : (-262143 ≤ year ∧ year ≤ 262142) ∧ (1 ≤ month ∧ month ≤ 12) ∧
      (1 ≤ day ∧ day ≤ monthLength year month) then
    some ⟨year, month, day, h⟩
  else none

theorem ofYmd?_self (d : Date) : ofYmd? d.year d.month d.day = some d := by
  simp [ofYmd?, d.valid]

/-- The days between the first of year 0 and the first of a year. -/
def daysBeforeYear (year : Int) : Int :=
  365 * year + (year + 3) / 4 - (year + 99) / 100 + (year + 399) / 400

/-- The days in the first so many months of a year. -/
def daysInMonths (year : Int) : Nat → Nat
  | 0 => 0
  | month + 1 => daysInMonths year month + monthLength year (month + 1)

/-- The first of January 1970, as a count of days from the first of year 0. -/
def unixEpoch : Int := 719528

/-- The days from the first of January 1970. -/
def dayNumber (d : Date) : Int :=
  daysBeforeYear d.year + daysInMonths d.year (d.month - 1) + (d.day : Int) - 1 - unixEpoch

/-- The year in which a day counted from the first of year 0 lies. -/
def yearOf (n : Int) : Int :=
  let guess := n * 400 / 146097
  if n < daysBeforeYear guess then guess - 1
  else if daysBeforeYear (guess + 1) ≤ n then guess + 1
  else guess

/-- The date so many days after the first of January 1970, if it is within the calendar. -/
def ofDayNumber? (number : Int) : Option Date :=
  let n := number + unixEpoch
  let year := yearOf n
  let dayOfYear := (n - daysBeforeYear year).toNat
  let month := ((List.range 12).find? fun m => dayOfYear < daysInMonths year (m + 1)).getD 11
  ofYmd? year (month + 1) (dayOfYear - daysInMonths year month + 1)

theorem daysBeforeYear_succ (year : Int) :
    daysBeforeYear (year + 1) = daysBeforeYear year + if isLeapYear year then 366 else 365 := by
  by_cases h4 : year % 4 = 0 <;> by_cases h100 : year % 100 = 0 <;> by_cases h400 : year % 400 = 0 <;>
    simp [daysBeforeYear, isLeapYear, h4, h100, h400] <;> omega

theorem daysInMonths_twelve (year : Int) :
    daysInMonths year 12 = if isLeapYear year then 366 else 365 := by
  cases h : isLeapYear year <;> simp [daysInMonths, monthLength, h]

end Date

end Polystore.Calendar
