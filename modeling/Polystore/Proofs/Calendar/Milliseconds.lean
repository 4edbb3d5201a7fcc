import Polystore.Proofs.Calendar.DayNumber

/-!
Dates and times counted in whole milliseconds.
-/

namespace Polystore.Calendar.DateTime

/-- The date and time in whole milliseconds, rounded down. A leap second is counted on as the second
after it, which the last second of the calendar does not have. -/
def floored? (t : DateTime) : Option DateTime :=
  if t.time.nano < 1000000000 then
    some ⟨t.date, ⟨t.time.second, t.time.nano / 1000000 * 1000000, t.time.second_lt, by
      have := t.time.nano_lt
      omega⟩⟩
  else
    (t.shift? 1).map fun u => ⟨u.date, ⟨u.time.second, (u.time.nano - 1000000000) / 1000000 * 1000000,
      u.time.second_lt, by
      have := u.time.nano_lt
      omega⟩⟩

theorem ofNanos?_milliseconds (t : DateTime) : ofNanos? (t.milliseconds * 1000000) = t.floored? := by
  rw [floored?]
  split
  · next hnano =>
    rw [← ofNanos?_nanos]
    · simp only [nanos, milliseconds, seconds]
      congr 1
      omega
    · simp only
      omega
  · next hleap =>
    -- a leap second has its nanoseconds past the second, so that one is carried
    have hlt := t.time.nano_lt
    have hsecond : t.milliseconds * 1000000 / 1000000000 = t.seconds + 1 := by
      rw [milliseconds]
      omega
    have hrest : t.milliseconds * 1000000 % 1000000000 =
        ((t.time.nano - 1000000000) / 1000000 * 1000000 : Nat) := by
      rw [milliseconds]
      omega
    have hday : (t.seconds + 1) / 86400 = t.date.dayNumber + ((t.time.second : Int) + 1) / 86400 := by
      rw [seconds]
      omega
    have htime : (t.seconds + 1) % 86400 = ((t.time.second : Int) + 1) % 86400 := by
      rw [seconds]
      omega
    simp only [ofNanos?, shift?, hsecond, hrest, hday, htime, Option.map_map, Int.toNat_natCast]
    rfl

/-- What is rounded down is the one date and time without a leap second that has its milliseconds. -/
theorem floored?_eq_some_iff (t u : DateTime) :
    t.floored? = some u ↔ u.nanos = t.milliseconds * 1000000 ∧ u.time.nano < 1000000000 := by
  rw [← ofNanos?_milliseconds]
  constructor
  · intro h
    exact nanos_of_ofNanos? h
  · rintro ⟨hnanos, hnano⟩
    rw [← hnanos, ofNanos?_nanos hnano]

theorem floored?_eq_none_iff (t : DateTime) :
    t.floored? = none ↔
      1000000000 ≤ t.time.nano ∧ t.time.second = 86399 ∧ t.date = Date.last := by
  have hsecond := t.time.second_lt
  rw [floored?]
  split
  · next hnano =>
    simp only [reduceCtorEq, false_iff]
    omega
  · next hleap =>
    rw [Option.map_eq_none_iff, shift?, Option.map_eq_none_iff]
    by_cases hlate : t.time.second = 86399
    · have hday : t.date.dayNumber + ((t.time.second : Int) + 1) / 86400 = t.date.dayNumber + 1 := by
        omega
      rw [hday, Date.next_eq_none_iff]
      constructor
      · exact fun h => ⟨Nat.le_of_not_lt hleap, hlate, h⟩
      · exact fun h => h.2.2
    · have hday : t.date.dayNumber + ((t.time.second : Int) + 1) / 86400 = t.date.dayNumber := by
        omega
      rw [hday, Date.ofDayNumber?_dayNumber]
      simp [hlate]

end Polystore.Calendar.DateTime
