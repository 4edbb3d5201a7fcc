import Polystore.Calendar.Date

/-!
Times of day, offsets from universal time, and the two together with a date. A leap second is kept
as a time whose nanoseconds run past a thousand million.
-/

namespace Polystore.Calendar

/-- A time of day: whole seconds since midnight, and the nanoseconds after them. -/
structure Time where
  second : Nat
  nano : Nat
  second_lt : second < 86400
  nano_lt : nano < 2000000000
deriving DecidableEq

namespace Time

/-- Only the last second of a minute can be a leap second. -/
def ofSecond? (second nano : Nat) : Option Time :=
  if h : second < 86400 ∧ nano < 2000000000 then
    if nano < 1000000000 ∨ second % 60 = 59 then some ⟨second, nano, h.1, h.2⟩ else none
  else none

def ofHms? (hour minute second nano : Nat) : Option Time :=
  if hour < 24 ∧ minute < 60 ∧ second < 60 then
    ofSecond? (hour * 3600 + minute * 60 + second) nano
  else none

end Time

/-- Seconds east of universal time, less than a day either way. -/
structure Offset where
  seconds : Int
  valid : -86400 < seconds ∧ seconds < 86400
deriving DecidableEq

namespace Offset

def ofSeconds? (seconds : Int) : Option Offset :=
  if h : -86400 < seconds ∧ seconds < 86400 then some ⟨seconds, h⟩ else none

def utc : Offset := ⟨0, by decide⟩

end Offset

/-- A date and a time of day, at no stated offset. -/
structure DateTime where
  date : Date
  time : Time
deriving DecidableEq

namespace DateTime

/-- Whole seconds since the start of 1970. -/
def seconds (t : DateTime) : Int :=
  t.date.dayNumber * 86400 + t.time.second

/-- Whole milliseconds since the start of 1970, rounded down. -/
def milliseconds (t : DateTime) : Int :=
  t.seconds * 1000 + (t.time.nano / 1000000 : Nat)

/-- Moves by a number of seconds; the nanoseconds stay. Nothing past the ends of the calendar. -/
def shift? (t : DateTime) (seconds : Int) : Option DateTime :=
  let moved := (t.time.second : Int) + seconds
  (Date.ofDayNumber? (t.date.dayNumber + moved / 86400)).map fun date =>
    ⟨date, ⟨(moved % 86400).toNat, t.time.nano, by omega, t.time.nano_lt⟩⟩

/-- The date and time a number of nanoseconds after the start of 1970. -/
def ofNanos? (nanos : Int) : Option DateTime :=
  let second := nanos / 1000000000
  (Date.ofDayNumber? (second / 86400)).map fun date =>
    ⟨date, ⟨(second % 86400).toNat, (nanos % 1000000000).toNat, by omega, by omega⟩⟩

/-- Nanoseconds since the start of 1970. -/
def nanos (t : DateTime) : Int :=
  t.seconds * 1000000000 + t.time.nano

end DateTime

end Polystore.Calendar
