import Polystore.Proofs.Postgres.Recovery
import Polystore.Proofs.Resp

/-!
What is written of a value, read back by the one who knows what was written. Main statement: a value
without payloads is lost only where it is nested too deep for JSON text, or where it holds a leap
second that no day of the reader has.
-/

namespace Polystore

open Postgres (paramType)

/-- Whatever is written of a value without payloads as the type chosen for it is read back, unless it
is JSON text that is nested too deep, or there is a stamp that overruns its day. Whatever reply is
made from it is read back as a value of its kind, unless it is nested too deep. -/
theorem written_values_read_back (v : Value) (h : v.holdsPayload = false) :
    (∀ bytes, Postgres.encode v (paramType v) = .ok (some bytes) →
      ((∃ w, Postgres.decode (paramType v) bytes = .ok w) ↔
        (paramType v = .scalar .jsonb → v.depth ≤ 127) ∧
          (paramType v ≠ .scalar .jsonb → ∀ s ∈ v.stamps, ¬ s.Overruns))) ∧
    (∀ reply, Resp.ofValue v = .ok reply →
      ((∃ w, reply.toValueAs v.kind = .ok w) ↔ v.depth ≤ 127)) := by
  constructor
  · intro bytes hbytes
    exact Postgres.exists_decode_iff h hbytes
  · intro reply hreply
    exact Resp.exists_toValueAs_iff h hreply

/-- A null within so many arrays. -/
def tower : Nat → Value
  | 0 => .null
  | n + 1 => .array [tower n]

theorem tower_holdsPayload (n : Nat) : (tower n).holdsPayload = false := by
  induction n with
  | zero => rfl
  | succ n ih => simp [tower, Value.holdsPayload, Value.itemsHoldPayload, ih]

theorem tower_depth (n : Nat) : (tower n).depth = n := by
  induction n with
  | zero => rfl
  | succ n ih => simp [tower, Value.depth, Value.depthItems, ih]

/-- Arrays within arrays are sent as JSON text both ways. -/
theorem tower_written (n : Nat) : ∃ text, paramType (tower (n + 2)) = .scalar .jsonb ∧
    Postgres.encode (tower (n + 2)) (.scalar .jsonb) =
      .ok (some (Postgres.jsonbVersion :: text)) ∧
    Resp.ofValue (tower (n + 2)) = .ok (.bulk text) := by
  obtain ⟨json, hjson, -, -⟩ := (tower (n + 2)).exists_toJson (tower_holdsPayload _)
  have htext : (tower (n + 2)).toJsonBytes = .ok (Bytes.ofText json.compact) :=
    Value.toJsonBytes_eq_ok.mpr ⟨json, hjson, rfl⟩
  refine ⟨Bytes.ofText json.compact, rfl, ?_, ?_⟩
  · show ((tower (n + 2)).toJsonBytes.map _).map some = _
    rw [htext]
    rfl
  · show (tower (n + 2)).toJsonBytes.map _ = _
    rw [htext]
    rfl

/-- One array more than can be read is written all the same. -/
theorem written_values_read_back_nested : ∃ bytes reply,
    Postgres.encode (tower 128) (.scalar .jsonb) = .ok (some bytes) ∧
      (∀ w, Postgres.decode (.scalar .jsonb) bytes ≠ .ok w) ∧
      Resp.ofValue (tower 128) = .ok reply ∧ ∀ w, reply.toValueAs (tower 128).kind ≠ .ok w := by
  obtain ⟨text, htype, hbytes, hreply⟩ := tower_written 126
  obtain ⟨hread, hreadReply⟩ := written_values_read_back (tower 128) (tower_holdsPayload 128)
  have hdeep : ¬ (tower 128).depth ≤ 127 := by
    rw [tower_depth]
    decide
  rw [htype] at hread
  refine ⟨_, _, hbytes, fun w hw => hdeep ?_, hreply, fun w hw => hdeep ?_⟩
  · exact ((hread _ hbytes).mp ⟨w, hw⟩).1 rfl
  · exact (hreadReply _ hreply).mp ⟨w, hw⟩

/-- The leap second at the end of a day, without a date. -/
def leapSecond : Calendar.Stamp :=
  .ofTime ⟨86399, 1000000000, Calendar.Time.last_lt, Calendar.Time.leap_lt⟩

/-- It is written as the microseconds of a whole day, which the reader has no time for. -/
theorem leap_second_of_day_not_read_back : (Value.date leapSecond).holdsPayload = false ∧
    paramType (.date leapSecond) = .scalar .time ∧
    Postgres.encode (.date leapSecond) (.scalar .time) =
      .ok (some [0x00, 0x00, 0x00, 0x14, 0x1d, 0xd7, 0x60, 0x00]) ∧
    Postgres.decode (.scalar .time) [0x00, 0x00, 0x00, 0x14, 0x1d, 0xd7, 0x60, 0x00] =
      .error (.malformed (.timeOfDay 86400000000)) :=
  ⟨rfl, rfl, rfl, rfl⟩

end Polystore
