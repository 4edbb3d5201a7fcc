import Polystore.Proofs.Calendar.DayNumber
import Polystore.Proofs.Calendar.Iso

/-!
Stamps that their texts spell in full. Main statement: a stamp is what its text says if it has no
calendar mark and its time of day is one that can be made, and only then; no part of any stamp is
gained or lost in its text.
-/

namespace Polystore.Calendar

/-- A leap second that ends its minute, or none. -/
theorem Time.ofSecond?_self_iff (t : Time) :
    ofSecond? t.second t.nano = some t ↔ t.nano < 1000000000 ∨ t.second % 60 = 59 := by
  rw [ofSecond?, dif_pos ⟨t.second_lt, t.nano_lt⟩]
  split
  · next h => exact ⟨fun _ => h, fun _ => rfl⟩
  · next h =>
    exact ⟨fun hnone => absurd hnone.symm (Option.some_ne_none t), fun hmade => absurd hmade h⟩

theorem Time.written_eq_self_iff (t : Time) :
    t.written = t ↔ ofSecond? t.second t.nano = some t := by
  rw [ofSecond?_self_iff]
  constructor
  · intro h
    by_contra hother
    have hleap : t.second % 60 ≠ 59 ∧ 1000000000 ≤ t.nano := by omega
    rw [written, dif_pos hleap] at h
    have hsecond := congrArg Time.second h
    simp at hsecond
  · exact fun h => dif_neg fun hleap => by omega

namespace Stamp

/-- A stamp without a calendar mark, whose time of day is one that can be made: a leap second ends
its minute. -/
structure Spelled (s : Stamp) : Prop where
  calendar : s.calendar = none
  time : ∀ t, s.time? = some t → Time.ofSecond? t.second t.nano = some t

theorem written_eq_self_iff (s : Stamp) : s.written = s ↔ s.Spelled := by
  obtain ⟨parts, offset, calendar⟩ := s
  have hspelled : Spelled ⟨parts, offset, calendar⟩ ↔
      calendar = none ∧ ∀ t, time? ⟨parts, offset, calendar⟩ = some t → t.written = t := by
    simp only [Time.written_eq_self_iff]
    exact ⟨fun h => ⟨h.calendar, h.time⟩, fun h => ⟨h.1, h.2⟩⟩
  rw [hspelled]
  cases parts with
  | date d => simp [written, Parts.written, time?, eq_comm]
  | time t => simp [written, Parts.written, time?, eq_comm, and_comm]
  | both d t => simp [written, Parts.written, time?, eq_comm, and_comm]

theorem Spelled.written {s : Stamp} (h : s.Spelled) : s.written = s :=
  s.written_eq_self_iff.mpr h

theorem date?_written (s : Stamp) : s.written.date? = s.date? := by
  obtain ⟨parts, offset, calendar⟩ := s
  cases parts <;> rfl

theorem time?_written (s : Stamp) : s.written.time? = s.time?.map Time.written := by
  obtain ⟨parts, offset, calendar⟩ := s
  cases parts <;> rfl

/-- The easternmost offset there is. -/
def farEast : Offset := ⟨86399, by decide⟩

/-- The last day of the calendar, without a time of day. -/
def lastDay : Stamp := ⟨.date Date.last, some farEast, none⟩

/-- A leap second at the end of a day, without a date. -/
def lastSecond : Stamp := ⟨.time ⟨86399, 1000000000, Time.last_lt, Time.leap_lt⟩, some farEast, none⟩

theorem lastDay_spelled : lastDay.Spelled where
  calendar := rfl
  time := by rintro t ⟨⟩

theorem lastSecond_spelled : lastSecond.Spelled where
  calendar := rfl
  time := by
    rintro t ⟨⟩
    rfl

end Stamp

end Polystore.Calendar
