import Polystore.Proofs.Postgres.Recovery

/-!
Stamps with date, time of day and offset, sent as instants. Main statement: the microseconds that are
sent are those of the instant if it is within the calendar; otherwise they are those of the local time
at offset zero, which is another instant.
-/

namespace Polystore

namespace Calendar

/-- Is the instant of a local time at an offset between the first and the last day of the calendar? -/
def DateTime.InCalendar (t : DateTime) (o : Offset) : Prop :=
  Date.first.dayNumber * 86400 ≤ t.seconds - o.seconds ∧
    t.seconds - o.seconds < (Date.last.dayNumber + 1) * 86400

theorem DateTime.isSome_shift?_offset (t : DateTime) (o : Offset) :
    (t.shift? (-o.seconds)).isSome = true ↔ t.InCalendar o := by
  rw [isSome_shift?_iff, InCalendar, Int.sub_eq_add_neg]

/-- Only an instant within the calendar is gone over to. -/
theorem Stamp.local?_toUtc {s : Stamp} {t : DateTime} {o : Offset} (ht : s.local? = some t)
    (ho : s.offset = some o) : s.toUtc.local? = some ((t.shift? (-o.seconds)).getD t) := by
  have hinstant : s.instant? = t.shift? (-o.seconds) := by rw [instant?, ho, ht]
  rw [toUtc, hinstant]
  cases t.shift? (-o.seconds) with
  | none => exact ht
  | some u => rfl

end Calendar

namespace Postgres

open Calendar (Date Time DateTime Offset Stamp)

/-- The microseconds from the first of January 2000 to the instant of a local time at an offset; parts
of one are dropped. -/
def instantMicros (t : DateTime) (o : Offset) : Int :=
  (t.nanos - o.seconds * 1000000000 - epochDay * 86400000000000).tdiv 1000

theorem epochMicros_shift? {t u : DateTime} {o : Offset} (h : t.shift? (-o.seconds) = some u) :
    epochMicros u = instantMicros t o := by
  have hnanos : u.nanos = t.nanos - o.seconds * 1000000000 := by
    rw [DateTime.nanos, DateTime.nanos, DateTime.seconds_shift? h, DateTime.nano_shift? h]
    omega
  rw [epochMicros, hnanos, instantMicros]

/-- A local time is always within the calendar at offset zero. -/
theorem offset_ne_zero {t : DateTime} {o : Offset} (h : ¬ t.InCalendar o) : o.seconds ≠ 0 := by
  have hlow := t.date.first_le
  have hhigh := t.date.le_last
  have hsecond := t.time.second_lt
  rw [DateTime.InCalendar, DateTime.seconds] at h
  omega

/-- Times that are a second apart have different microseconds. -/
theorem epochMicros_ne {t : DateTime} {o : Offset} (h : o.seconds ≠ 0) :
    epochMicros t ≠ instantMicros t o := by
  have hlocal := tdiv_near (t.nanos - epochDay * 86400000000000)
  have hinstant := tdiv_near (t.nanos - o.seconds * 1000000000 - epochDay * 86400000000000)
  rw [epochMicros, instantMicros]
  omega

theorem encode_timestamptz {s : Stamp} {t : DateTime} (hs : s.toUtc.local? = some t)
    (hlocal : s.local?.isSome = true) :
    encode (.date s) (.scalar .timestamptz) = .ok (some (word 8 (epochMicros t))) := by
  obtain ⟨parts, offset, calendar⟩ := s
  cases parts with
  | date d => cases hlocal
  | time t => cases hlocal
  | both d t =>
    change (Except.ok (word 8 (epochMicros
      ((Stamp.toUtc ⟨.both d t, offset, calendar⟩).local?.getD ⟨d, t⟩)))).map some = _
    rw [hs]
    rfl

/-- A stamp with date, time of day and offset is never refused. What is sent are the microseconds of
its instant, or those of its local time if the instant is out of the calendar; then they are wrong. -/
theorem zoned_stamp_sent (s : Stamp) (t : DateTime) (o : Offset) (hlocal : s.local? = some t)
    (hoffset : s.offset = some o) :
    ∃ micros, encode (.date s) (.scalar .timestamptz) = .ok (some (word 8 micros)) ∧
      -(2 ^ 63) ≤ micros ∧ micros < 2 ^ 63 ∧
      (t.InCalendar o → micros = instantMicros t o) ∧
      (¬ t.InCalendar o → micros = epochMicros t ∧ micros ≠ instantMicros t o) := by
  have hutc := Stamp.local?_toUtc hlocal hoffset
  have hsent := encode_timestamptz hutc (by rw [hlocal]; rfl)
  refine ⟨_, hsent, (epochMicros_range _).1, (epochMicros_range _).2, ?_⟩
  rw [← DateTime.isSome_shift?_offset]
  cases hshift : t.shift? (-o.seconds) with
  | some u => simpa using epochMicros_shift? hshift
  | none =>
    have hout : ¬ t.InCalendar o := by
      rw [← DateTime.isSome_shift?_offset, hshift]
      exact Bool.false_ne_true
    simpa using epochMicros_ne (offset_ne_zero hout)

/-- Nine tenths of a microsecond after the calendar begins, by a clock one second to the east. -/
def dawn : DateTime := ⟨Date.first, ⟨1, 900, by decide, by decide⟩⟩

def oneSecondEast : Offset := ⟨1, by decide⟩

theorem zoned_stamp_sent_dawn : dawn.InCalendar oneSecondEast ∧
    encode (.date (.zoned dawn oneSecondEast)) (.scalar .timestamptz) =
      .ok (some (word 8 (-8335547913599999999))) := by
  have hin : dawn.InCalendar oneSecondEast := by
    rw [DateTime.InCalendar]
    decide
  obtain ⟨micros, hsent, -, -, hinstant, -⟩ :=
    zoned_stamp_sent (.zoned dawn oneSecondEast) dawn oneSecondEast rfl rfl
  refine ⟨hin, ?_⟩
  rw [hsent, hinstant hin]
  decide

/-- Eleven in the evening of the last day of the calendar. -/
def lastEvening : DateTime := ⟨Date.last, ⟨82800, 0, by decide, by decide⟩⟩

def twoHoursWest : Offset := ⟨-7200, by decide⟩

/-- Two hours to the west it is past the end of the calendar then, and the local time is sent as if it
were universal time. -/
theorem local_time_sent_as_instant :
    encode (.date (.zoned lastEvening twoHoursWest)) (.scalar .timestamptz) =
      encode (.date (.ofDateTime lastEvening)) (.scalar .timestamp) ∧
    encode (.date (.zoned lastEvening twoHoursWest)) (.scalar .timestamptz) =
      .ok (some [0x71, 0xed, 0x5d, 0x37, 0x6d, 0x06, 0x5c, 0x00]) ∧
    word 8 (instantMicros lastEvening twoHoursWest) =
      [0x71, 0xed, 0x5d, 0x39, 0x1a, 0x2d, 0xa4, 0x00] := by
  refine ⟨?_, ?_, ?_⟩
  · decide
  · decide
  · decide

end Postgres

end Polystore
