import Polystore.Proofs.Bson.Decimal128
import Polystore.Proofs.Calendar.Milliseconds
import Polystore.Proofs.Value.Entries

/-!
Values stored as documents and read back.
-/

namespace Polystore

open Polystore.Calendar (Stamp DateTime Date Time)
open Polystore.Number (Decimal)

namespace Value

mutual

/-- Values whose maps are in order and whose payloads are carried as bytes. -/
def Storable : Value → Prop
  | .array items => StorableItems items
  | .map entries => (entries.map Prod.fst).Pairwise (· < ·) ∧ StorableEntries entries
  | .payload p => p.format = .raw ∨ p.format = .messagePack
  | _ => True
termination_by structural v => v

def StorableItems : List Value → Prop
  | [] => True
  | v :: rest => Storable v ∧ StorableItems rest
termination_by structural items => items

def StorableEntries : List (String × Value) → Prop
  | [] => True
  | (_, v) :: rest => Storable v ∧ StorableEntries rest
termination_by structural entries => entries

end

/-- Whole numbers come back signed, or as decimals past the signed range. -/
def imageOfWord (n : UInt64) : Value :=
  if n.toNat < 2 ^ 63 then .int (Int64.ofInt n.toNat) else .decimal (.ofUInt64 n)

/-- Instants come back in whole milliseconds at offset zero, other stamps as their texts. -/
def imageOfStamp? (s : Stamp) : Option Value :=
  match s.instant? with
  | some t => t.floored?.map fun u => .date (.zoned u .utc)
  | none => some (.string s.iso)

mutual

/-- What a stored value comes back as. Only an instant that is the leap second of the last minute of
the calendar has no such value. -/
def image? : Value → Option Value
  | .uint n => some (imageOfWord n)
  | .decimal d => some (.decimal d.unsignedZero)
  | .date s => imageOfStamp? s
  | .array items => (imageItems? items).map .array
  | .map entries => (imageEntries? entries).map .map
  | v => some v
termination_by structural v => v

def imageItems? : List Value → Option (List Value)
  | [] => some []
  | v :: rest => do
    let w ← image? v
    let ws ← imageItems? rest
    pure (w :: ws)
termination_by structural items => items

def imageEntries? : List (String × Value) → Option (List (String × Value))
  | [] => some []
  | (k, v) :: rest => do
    let w ← image? v
    let ws ← imageEntries? rest
    pure ((k, w) :: ws)
termination_by structural entries => entries

end

theorem keys_imageEntries? {entries images : List (String × Value)}
    (h : imageEntries? entries = some images) : images.map Prod.fst = entries.map Prod.fst := by
  induction entries generalizing images with
  | nil =>
    cases h
    rfl
  | cons entry rest ih =>
    simp only [imageEntries?, Option.bind_eq_bind, Option.bind_eq_some_iff, pure,
      Option.some.injEq] at h
    obtain ⟨w, -, ws, hrest, rfl⟩ := h
    simp [ih hrest]

end Value

namespace Bson

def withinCalendar {α : Type} : Option α → Except Error α
  | some a => .ok a
  | none => unsupported "out-of-range datetime"

section

variable {α β : Type}

theorem withinCalendar_map (f : α → β) (x : Option α) :
    (withinCalendar x).map f = withinCalendar (x.map f) := by
  cases x <;> rfl

end

theorem toValue_ofUInt64 (n : UInt64) : (ofUInt64 n).toValue = .ok (Value.imageOfWord n) := by
  rw [ofUInt64, Value.int64?, Value.imageOfWord]
  by_cases h : n.toNat < 2 ^ 63
  · rw [if_pos (by omega), if_pos h, Option.elim_some, toValue]
  · rw [if_neg (by omega), if_neg h, Option.elim_none, ofDecimal, toValue, ofDecimal128_ofDecimal]
    simp [Decimal.unsignedZero, Decimal.ofUInt64, Decimal.ofWord]

theorem milliseconds_toInt (t : DateTime) :
    (Int64.ofInt t.milliseconds).toInt = t.milliseconds := by
  have hday := t.date.dayNumber_bounds
  have hsecond := t.time.second_lt
  have hnano := t.time.nano_lt
  apply Int64.toInt_ofInt_of_le
  · rw [DateTime.milliseconds, DateTime.seconds]
    omega
  · rw [DateTime.milliseconds, DateTime.seconds]
    omega

theorem toValue_dateTime (t : DateTime) :
    (dateTime (Int64.ofInt t.milliseconds)).toValue =
      withinCalendar (t.floored?.map fun u => .date (.zoned u .utc)) := by
  rw [toValue, ofMilliseconds, milliseconds_toInt, DateTime.ofNanos?_milliseconds]
  cases t.floored? with
  | none => rfl
  | some u => rfl

theorem toValue_ofStamp (s : Stamp) :
    (ofStamp s).toValue = withinCalendar (Value.imageOfStamp? s) := by
  rw [ofStamp, Value.imageOfStamp?]
  cases s.instant? with
  | none => rfl
  | some t => exact toValue_dateTime t

theorem payload_round_trip {p : Payload} (h : p.format = .raw ∨ p.format = .messagePack) :
    ∃ b, ofPayload p = .ok b ∧ b.toValue = .ok (.payload p) := by
  obtain ⟨format, bytes⟩ := p
  rcases h with rfl | rfl
  · exact ⟨_, rfl, rfl⟩
  · exact ⟨_, rfl, rfl⟩

theorem toValue_uuid (u : Uuid) : (binary 4 u.octets).toValue = .ok (.uuid u) := by
  simp [toValue, ofBinary, Uuid.ofOctets?, u.length_eq]

mutual

theorem value_round_trip : ∀ v : Value, v.Storable →
    ∃ b, ofValue v = .ok b ∧ b.toValue = withinCalendar v.image?
  | .null, _ => ⟨_, rfl, rfl⟩
  | .bool _, _ => ⟨_, rfl, rfl⟩
  | .string _, _ => ⟨_, rfl, rfl⟩
  | .int _, _ => ⟨_, rfl, rfl⟩
  | .uint n, _ => ⟨_, rfl, toValue_ofUInt64 n⟩
  | .float _, _ => ⟨_, rfl, rfl⟩
  | .decimal d, _ => ⟨_, rfl, ofDecimal128_ofDecimal d⟩
  | .date s, _ => ⟨_, rfl, toValue_ofStamp s⟩
  | .binary _, _ => ⟨_, rfl, rfl⟩
  | .uuid u, _ => ⟨_, rfl, toValue_uuid u⟩
  | .payload _, h => payload_round_trip h
  | .array items, h => by
    obtain ⟨bs, hsent, hback⟩ := items_round_trip items h
    refine ⟨.array bs, ?_, ?_⟩
    · simp [ofValue, hsent, Except.map]
    · simp [toValue, hback, withinCalendar_map, Value.image?]
  | .map entries, ⟨hkeys, h⟩ => by
    obtain ⟨fields, hsent, hback⟩ := entries_round_trip entries h
    refine ⟨.document fields, ?_, ?_⟩
    · simp [ofValue, hsent, Except.map]
    · simp only [toValue, hback, Value.image?]
      -- the keys are still in order, so that the map built from the fields has them as they stand
      cases himage : Value.imageEntries? entries with
      | none => rfl
      | some images =>
        rw [← Value.keys_imageEntries? himage] at hkeys
        simp [withinCalendar, Except.map, Value.mapOf, Value.sortEntries_of_ascending hkeys]

theorem items_round_trip : ∀ items : List Value, Value.StorableItems items →
    ∃ bs, ofItems items = .ok bs ∧ toValues bs = withinCalendar (Value.imageItems? items)
  | [], _ => ⟨_, rfl, rfl⟩
  | v :: rest, ⟨hv, hrest⟩ => by
    obtain ⟨b, hsent, hback⟩ := value_round_trip v hv
    obtain ⟨bs, hsents, hbacks⟩ := items_round_trip rest hrest
    refine ⟨b :: bs, ?_, ?_⟩
    · simp only [ofItems, hsent, hsents]
      rfl
    · simp only [toValues, hback, hbacks, Value.imageItems?]
      cases v.image? <;> cases Value.imageItems? rest <;> rfl

theorem entries_round_trip : ∀ entries : List (String × Value), Value.StorableEntries entries →
    ∃ fields, ofEntries entries = .ok fields ∧
      toEntries fields = withinCalendar (Value.imageEntries? entries)
  | [], _ => ⟨_, rfl, rfl⟩
  | (k, v) :: rest, ⟨hv, hrest⟩ => by
    obtain ⟨b, hsent, hback⟩ := value_round_trip v hv
    obtain ⟨fields, hsents, hbacks⟩ := entries_round_trip rest hrest
    refine ⟨(k, b) :: fields, ?_, ?_⟩
    · simp only [ofEntries, hsent, hsents]
      rfl
    · simp only [toEntries, hback, hbacks, Value.imageEntries?]
      cases v.image? <;> cases Value.imageEntries? rest <;> rfl

end

end Bson

/-- Every value whose payloads are carried as bytes is stored, and read back as its image. The one
that has no image, an instant past the last millisecond of the calendar, is refused. -/
theorem stored_and_read_back {v : Value} (h : v.Storable) :
    ∃ b, Bson.ofValue v = .ok b ∧
      (∀ w, v.image? = some w → b.toValue = .ok w) ∧
      (v.image? = none → b.toValue = Bson.unsupported "out-of-range datetime") := by
  obtain ⟨b, hsent, hback⟩ := Bson.value_round_trip v h
  refine ⟨b, hsent, ?_, ?_⟩
  · intro w himage
    rw [hback, himage, Bson.withinCalendar]
  · intro himage
    rw [hback, himage, Bson.withinCalendar]

/-- The end of 1969 one hour to the east, four tenths of a millisecond before the next second. -/
def beforeMidnight : Stamp :=
  .zoned ⟨⟨1969, 12, 31, by decide⟩, ⟨86399, 999600000, Time.last_lt, by decide⟩⟩ ⟨3600, by decide⟩

theorem stored_and_read_back_nested :
    let v : Value := .map [("at", .date beforeMidnight),
      ("n", .array [.uint 9223372036854775808, .uint 7, .payload ⟨.raw, [1]⟩])]
    v.Storable ∧ ∃ b, Bson.ofValue v = .ok b ∧ b.toValue = .ok (.map
      [("at", .date (.zoned ⟨⟨1969, 12, 31, by decide⟩, ⟨82799, 999000000, by decide, by decide⟩⟩ .utc)),
        ("n", .array [.decimal ⟨false, 9223372036854775808, 0, by decide, by decide⟩, .int 7,
          .payload ⟨.raw, [1]⟩])]) := by
  intro v
  have h : v.Storable := ⟨by decide, trivial, ⟨trivial, trivial, .inl rfl, trivial⟩, trivial⟩
  obtain ⟨b, hsent, hback, -⟩ := stored_and_read_back h
  exact ⟨h, b, hsent, hback _ rfl⟩

/-- The leap second at the end of the calendar. -/
def lastLeapSecond : Stamp :=
  .zoned ⟨Date.last, ⟨86399, 1000000000, Time.last_lt, Time.leap_lt⟩⟩ .utc

theorem last_leap_second_not_read_back :
    (Value.date lastLeapSecond).Storable ∧ lastLeapSecond.instant?.isSome = true ∧
      ∃ b, Bson.ofValue (.date lastLeapSecond) = .ok b ∧
        b.toValue = Bson.unsupported "out-of-range datetime" :=
  ⟨trivial, rfl, _, rfl, rfl⟩

end Polystore
