import Polystore.Proofs.Postgres.Instants

/-!
Parts of a microsecond. A time of day that is sent loses them, and is rounded down by that; a date and
time loses them from its distance to the start of 2000. Main statement: from 2000 on the two agree;
before it a date and time is rounded up, to the next second or day if it comes to that.
-/

namespace Polystore

namespace Calendar

/-- A time of day rounded down to whole microseconds. -/
def Time.floored (t : Time) : Time where
  second := t.second
  nano := t.nano / 1000 * 1000
  second_lt := t.second_lt
  nano_lt := Nat.lt_of_le_of_lt (Nat.div_mul_le_self _ _) t.nano_lt

namespace DateTime

def floored (t : DateTime) : DateTime :=
  ⟨t.date, t.time.floored⟩

theorem nanos_floored (t : DateTime) : t.floored.nanos = t.nanos - (t.time.nano % 1000 : Nat) := by
  simp only [nanos, seconds, floored, Time.floored]
  omega

theorem nano_floored_lt {t : DateTime} (h : t.time.nano < 1000000000) :
    t.floored.time.nano < 1000000000 :=
  Nat.lt_of_le_of_lt (Nat.div_mul_le_self _ _) h

/-- Apart from leap seconds, a date and time is given by its nanoseconds. -/
theorem eq_of_nanos {t u : DateTime} (ht : t.time.nano < 1000000000) (hu : u.time.nano < 1000000000)
    (h : t.nanos = u.nanos) : t = u := by
  have hread := ofNanos?_nanos ht
  rw [h, ofNanos?_nanos hu] at hread
  exact (Option.some.inj hread).symm

theorem date_eq_iff {t u : DateTime} (hu : u.time.nano < 1000000000) : u.date = t.date ↔
    t.date.dayNumber * 86400000000000 ≤ u.nanos ∧
      u.nanos < (t.date.dayNumber + 1) * 86400000000000 := by
  have hsecond := u.time.second_lt
  rw [nanos, seconds]
  constructor
  · intro h
    rw [h]
    omega
  · exact fun h => Date.dayNumber_injective (by omega)

end DateTime

end Calendar

namespace Postgres

open Calendar (Date Time DateTime Offset Stamp)

/-- A value that is sent as a type comes back as another one. -/
def ComesBack (v : Value) (type : Scalar) (w : Value) : Prop :=
  ∃ bytes, encode v (.scalar type) = .ok (some bytes) ∧ decode (.scalar type) bytes = .ok w

/-- What a date and time is without its parts of a microsecond, if they are dropped toward 2000. -/
structure DroppedToward2000 (t u : DateTime) : Prop where
  ordinary : u.time.nano < 1000000000
  /-- From 2000 on, the time of day is rounded down. -/
  since : epochDay ≤ t.date.dayNumber → u = t.floored
  /-- Before 2000, what comes back is a microsecond after that. -/
  before : t.date.dayNumber < epochDay → t.time.nano % 1000 ≠ 0 → u.nanos = t.floored.nanos + 1000
  /-- Just parts of a microsecond are dropped. -/
  whole : t.time.nano % 1000 = 0 → u = t

theorem timeOfMicros_floored {t : Time} (hnano : t.nano < 1000000000) :
    timeOfMicros (timeMicros t) = .ok t.floored := by
  have hmicros : timeMicros t = timeMicros t.floored := by
    simp only [timeMicros, Time.floored]
    omega
  rw [hmicros]
  apply timeOfMicros_timeMicros
  · exact Nat.lt_of_le_of_lt (Nat.div_mul_le_self _ _) hnano
  · exact Nat.mul_mod_left _ _

theorem time_comes_back {t : Time} (hnano : t.nano < 1000000000) :
    ComesBack (.date (.ofTime t)) .time (.date (.ofTime t.floored)) := by
  have hbounds := timeMicros_bounds t
  exact ⟨word 8 (timeMicros t), rfl, decodeScalar_time
    (readSigned_word_alone (by decide) hbounds.1 hbounds.2) (timeOfMicros_floored hnano)⟩

theorem encode_timestamp {s : Stamp} {t : DateTime} (hlocal : s.local? = some t) :
    encode (.date s) (.scalar .timestamp) = .ok (some (word 8 (epochMicros t))) := by
  obtain ⟨parts, offset, calendar⟩ := s
  cases parts with
  | both d t' =>
    obtain rfl := Option.some.inj hlocal
    rfl
  | _ => cases hlocal

theorem nanos_of_dateTimeOfMicros {micros : Int} {t : DateTime} (h : dateTimeOfMicros micros = .ok t) :
    t.nanos = (micros + 10957 * 86400000000) * 1000 ∧ t.time.nano < 1000000000 := by
  unfold dateTimeOfMicros at h
  split at h
  · next hsome =>
    cases h
    exact DateTime.nanos_of_ofNanos? hsome
  · cases h

/-- What is read from the microseconds of a date and time is always there. -/
theorem exists_dropped {t : DateTime} (hnano : t.time.nano < 1000000000) :
    ∃ u, dateTimeOfMicros (epochMicros t) = .ok u ∧ DroppedToward2000 t u := by
  have hwithin : ¬ (t.time.Overruns ∧ t.date = Date.last) :=
    fun h => absurd h.1.2 (Nat.not_le.mpr hnano)
  obtain ⟨u, hread⟩ := (exists_dateTimeOfMicros_iff t).mpr hwithin
  obtain ⟨hnanos, hordinary⟩ := nanos_of_dateTimeOfMicros hread
  have hfloored := t.nanos_floored
  have hnear := epochMicros_near t
  have hsecond := t.time.second_lt
  have hlocal : t.nanos = (t.date.dayNumber * 86400 + t.time.second) * 1000000000 + t.time.nano := by
    rw [DateTime.nanos, DateTime.seconds]
  rw [epochDay] at hnear
  refine ⟨u, hread, hordinary, fun hsince => ?_, fun hbefore hpart => ?_, fun hwhole => ?_⟩
  · rw [epochDay] at hsince
    exact DateTime.eq_of_nanos hordinary (DateTime.nano_floored_lt hnano) (by omega)
  · rw [epochDay] at hbefore
    omega
  · exact DateTime.eq_of_nanos hordinary hnano (by omega)

theorem timestamp_comes_back {s : Stamp} {t : DateTime} (hlocal : s.local? = some t)
    (hnano : t.time.nano < 1000000000) :
    ∃ u, ComesBack (.date s) .timestamp (.date (.ofDateTime u)) ∧ DroppedToward2000 t u := by
  obtain ⟨u, hread, hdropped⟩ := exists_dropped hnano
  exact ⟨u, ⟨_, encode_timestamp hlocal,
    (decodeScalar_timestamp (readSigned_epochMicros t) hread).1⟩, hdropped⟩

theorem timestamptz_comes_back {s : Stamp} {t : DateTime} (hlocal : s.local?.isSome = true)
    (hutc : s.toUtc.local? = some t) (hnano : t.time.nano < 1000000000) :
    ∃ u, ComesBack (.date s) .timestamptz (.date (.zoned u .utc)) ∧ DroppedToward2000 t u := by
  obtain ⟨u, hread, hdropped⟩ := exists_dropped hnano
  exact ⟨u, ⟨_, encode_timestamptz hutc hlocal,
    (decodeScalar_timestamp (readSigned_epochMicros t) hread).2⟩, hdropped⟩

namespace DroppedToward2000

variable {t u : DateTime}

theorem eq_floored_iff (h : DroppedToward2000 t u) :
    u = t.floored ↔ epochDay ≤ t.date.dayNumber ∨ t.time.nano % 1000 = 0 := by
  constructor
  · rintro rfl
    by_contra! hearly
    have hlater := h.before hearly.1 hearly.2
    omega
  · rintro (hsince | hwhole)
    · exact h.since hsince
    · rw [h.whole hwhole]
      have hnano : t.time.nano / 1000 * 1000 = t.time.nano :=
        Nat.div_mul_cancel (Nat.dvd_of_mod_eq_zero hwhole)
      simp only [DateTime.floored, Time.floored, hnano]

/-- Only in the last microsecond of a day before 2000 does the next day begin. -/
theorem date_ne_iff (h : DroppedToward2000 t u) (hnano : t.time.nano < 1000000000) :
    u.date ≠ t.date ↔ t.date.dayNumber < epochDay ∧ t.time.second = 86399 ∧
      999999000 < t.time.nano := by
  have hsecond := t.time.second_lt
  have hlocal : t.nanos = (t.date.dayNumber * 86400 + t.time.second) * 1000000000 + t.time.nano := by
    rw [DateTime.nanos, DateTime.seconds]
  have hfloored := t.nanos_floored
  by_cases hbefore : t.date.dayNumber < epochDay ∧ t.time.nano % 1000 ≠ 0
  · have hnanos := h.before hbefore.1 hbefore.2
    rw [ne_eq, DateTime.date_eq_iff h.ordinary]
    omega
  · have heq : u = t.floored := by
      rw [h.eq_floored_iff]
      omega
    refine iff_of_false (fun hne => hne (by rw [heq]; rfl)) ?_
    rintro ⟨hday, -, hlate⟩
    omega

end DroppedToward2000

/-- A time of day that is no leap second comes back rounded down. A date and time comes back so, on its
own or as the instant in universal time, if it is not before 2000 or has no parts of a microsecond;
otherwise it comes back a microsecond later, and in the last microsecond of a day with the next date. -/
theorem fractions_dropped (s : Stamp) (t : DateTime) (hlocal : s.local? = some t)
    (hnano : t.time.nano < 1000000000) :
    ComesBack (.date (.ofTime t.time)) .time (.date (.ofTime t.time.floored)) ∧
    (∃ u, ComesBack (.date s) .timestamp (.date (.ofDateTime u)) ∧ DroppedToward2000 t u ∧
      (u = t.floored ↔ epochDay ≤ t.date.dayNumber ∨ t.time.nano % 1000 = 0) ∧
      (u.date ≠ t.date ↔ t.date.dayNumber < epochDay ∧ t.time.second = 86399 ∧
        999999000 < t.time.nano)) ∧
    ∀ o, s.offset = some o → t.InCalendar o →
      ∃ v u, s.toUtc.local? = some v ∧ v.seconds = t.seconds - o.seconds ∧
        v.time.nano = t.time.nano ∧
        ComesBack (.date s) .timestamptz (.date (.zoned u .utc)) ∧ DroppedToward2000 v u ∧
        (u = v.floored ↔ epochDay ≤ v.date.dayNumber ∨ t.time.nano % 1000 = 0) ∧
        (u.date ≠ v.date ↔ v.date.dayNumber < epochDay ∧ v.time.second = 86399 ∧
          999999000 < t.time.nano) := by
  refine ⟨time_comes_back hnano, ?_, fun o hoffset hin => ?_⟩
  · obtain ⟨u, hback, hdropped⟩ := timestamp_comes_back hlocal hnano
    exact ⟨u, hback, hdropped, hdropped.eq_floored_iff, hdropped.date_ne_iff hnano⟩
  · obtain ⟨v, hshift⟩ := Option.isSome_iff_exists.mp ((t.isSome_shift?_offset o).mpr hin)
    have hutc : s.toUtc.local? = some v := by
      rw [Stamp.local?_toUtc hlocal hoffset, hshift]
      rfl
    have hsame := DateTime.nano_shift? hshift
    have hseconds := DateTime.seconds_shift? hshift
    obtain ⟨u, hback, hdropped⟩ :=
      timestamptz_comes_back (by rw [hlocal]; rfl) hutc (by rw [hsame]; exact hnano)
    have hfloored := hdropped.eq_floored_iff
    have hdate := hdropped.date_ne_iff (by rw [hsame]; exact hnano)
    rw [hsame] at hfloored hdate
    exact ⟨v, u, hutc, hseconds, hsame, hback, hdropped, hfloored, hdate⟩

/-- A nanosecond before midnight, at the end of 1999. -/
def lastNanosecond : DateTime := ⟨⟨1999, 12, 31, by decide⟩, ⟨86399, 999999999, by decide, by decide⟩⟩

/-- Half a microsecond after midnight, at the beginning of 2000. -/
def firstHalfMicrosecond : DateTime := ⟨⟨2000, 1, 1, by decide⟩, ⟨0, 500, by decide, by decide⟩⟩

theorem fractions_dropped_midnight :
    (∃ u : DateTime, ComesBack (.date (.zoned firstHalfMicrosecond oneSecondEast)) .timestamp
      (.date (.ofDateTime u)) ∧ u = firstHalfMicrosecond.floored) ∧
    ∃ v u : DateTime, (Stamp.zoned firstHalfMicrosecond oneSecondEast).toUtc.local? = some v ∧
      ComesBack (.date (.zoned firstHalfMicrosecond oneSecondEast)) .timestamptz
        (.date (.zoned u .utc)) ∧ u.nanos = v.floored.nanos + 1000 := by
  obtain ⟨-, ⟨u, hback, -, hfloored, -⟩, hutc⟩ :=
    fractions_dropped (.zoned firstHalfMicrosecond oneSecondEast) firstHalfMicrosecond rfl (by decide)
  have hin : firstHalfMicrosecond.InCalendar oneSecondEast := by
    rw [DateTime.InCalendar]
    decide
  obtain ⟨v, w, hlocal, hseconds, hnano, hwback, hdropped, -⟩ := hutc oneSecondEast rfl hin
  refine ⟨⟨u, hback, hfloored.mpr (.inl (by decide))⟩, v, w, hlocal, hwback, ?_⟩
  have hday : firstHalfMicrosecond.seconds - oneSecondEast.seconds = 946684799 := by decide
  rw [hday, DateTime.seconds] at hseconds
  refine hdropped.before ?_ (by rw [hnano]; decide)
  rw [epochDay]
  omega

/-- The last nanosecond of 1999 comes back with the date of the next year, but its time of day alone is
still in the last microsecond. -/
theorem fraction_moves_date :
    ComesBack (.date (.ofDateTime lastNanosecond)) .timestamp
      (.date (.ofDateTime ⟨⟨2000, 1, 1, by decide⟩, ⟨0, 0, by decide, by decide⟩⟩)) ∧
    ComesBack (.date (.ofTime lastNanosecond.time)) .time
      (.date (.ofTime ⟨86399, 999999000, by decide, by decide⟩)) := by
  refine ⟨⟨word 8 0, ?_, ?_⟩, ⟨word 8 86399999999, ?_, ?_⟩⟩
  · decide
  · rfl
  · decide
  · rfl

end Postgres

end Polystore
