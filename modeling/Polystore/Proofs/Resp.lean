import Polystore.Proofs.Calendar.Iso
import Polystore.Proofs.Value.Json
import Polystore.Proofs.Value.Text
import Polystore.Resp

/-!
Replies read as the kind of value that they were made from. Main statement: a reply made from a value
without payloads is refused if it is JSON text that is nested too deep, and only then.
-/

namespace Polystore

open Polystore.Calendar (Stamp)
open Polystore.Number (Binary64 Decimal)

namespace Value

theorem int64?_toInt (n : Int64) : int64? n.toInt = some n := by
  have hlow := n.le_toInt
  have hhigh := n.toInt_lt
  rw [int64?, if_pos ⟨by omega, by omega⟩, Int64.ofInt_toInt]

theorem uint64?_toNat (n : UInt64) : uint64? n.toNat = some n := by
  have hlt := n.toNat_lt
  rw [uint64?, if_pos ⟨by omega, by omega⟩, Int.toNat_natCast, UInt64.ofNat_toNat]

/-- None of the words for what a decimal cannot hold is the text of a decimal. -/
theorem ofDecimalText_text (d : Decimal) : ofDecimalText d.text = .ok (.decimal d.unsignedZero) := by
  have hread := d.read_text
  have hne (word : String) (hword : (Decimal.read word.toList).toOption = none) :
      (d.text == word) = false := by
    rw [beq_eq_false_iff_ne]
    rintro rfl
    rw [hread] at hword
    cases hword
  rw [ofDecimalText, hne "NaN" rfl, hne "Infinity" rfl, hne "-Infinity" rfl, hread]
  rfl

/-- A datum as it is read from its text: a stamp loses its calendar mark, and a zero its sign. -/
def reread : Value → Value
  | .decimal d => .decimal d.unsignedZero
  | .date s => .date s.written
  | v => v

end Value

namespace Resp

open Value (reread)

theorem readUnsigned_digits (n : UInt64) : readUnsigned (String.ofList (Text.digits n.toNat)) = some n := by
  obtain ⟨c, row, hrow⟩ := List.exists_cons_of_ne_nil (Text.digits_ne_nil n.toNat)
  have hc : Text.isDigit c = true := Text.isRow_digits n.toNat c (by simp [hrow])
  have hread : Text.readNat? (c :: row) = some n.toNat := hrow ▸ Text.readNat?_digits n.toNat
  rw [readUnsigned, String.toList_ofList, hrow]
  split
  · next heq =>
    obtain ⟨rfl, -⟩ := List.cons.inj heq
    cases hc
  · rw [hread, Option.bind_some, Value.uint64?_toNat]

/-- The text of a datum is read as the datum. -/
theorem readAs_scalarText {v : Value} {s : String} (h : v.scalarText? = some s)
    (hfloat : v.kind ≠ .float) : readAs v.kind s = some (reread v) := by
  cases v with
  | bool b =>
    cases h
    cases b <;> rfl
  | string t =>
    cases h
    rfl
  | int n =>
    cases h
    rw [Value.kind, readAs, String.toList_ofList, Text.readInt?_integer, Option.bind_some,
      Value.int64?_toInt]
    rfl
  | uint n =>
    cases h
    rw [Value.kind, readAs, readUnsigned_digits]
    rfl
  | float x => exact absurd rfl hfloat
  | decimal d =>
    cases h
    rw [Value.kind, readAs, Value.ofDecimalText_text]
    rfl
  | date t =>
    cases h
    rw [Value.kind, readAs, Stamp.ofIso?_iso]
    rfl
  | uuid u =>
    cases h
    rw [Value.kind, readAs, Uuid.read?_text]
    rfl
  | _ => cases h

/-- The text of any datum can be read, that of a float too. -/
theorem exists_readAs_scalarText {v : Value} {s : String} (h : v.scalarText? = some s) :
    ∃ w, readAs v.kind s = some w := by
  by_cases hfloat : v.kind = .float
  · cases v with
    | float x =>
      cases h
      obtain ⟨y, hy⟩ := Binary64.read?_valueText x
      exact ⟨.float y, by rw [Value.kind, readAs, readFloat, hy]; rfl⟩
    | _ => cases hfloat
  · exact ⟨reread v, readAs_scalarText h hfloat⟩

theorem toValueAs_bulk {kind : Kind} {s : String} (hkind : kind ≠ .binary) :
    (∃ w, toValueAs kind (.bulk (Bytes.ofText s)) = .ok w) ↔ ∃ w, readAs kind s = some w := by
  simp only [toValueAs, if_neg hkind, Bytes.toText?_ofText, readText]
  cases readAs kind s <;> simp

/-- What is sent for a datum is bytes, and they are read back. -/
theorem ofScalar_comes_back {v : Value} {reply : Resp} (h : ofScalar v = .ok reply) :
    (∃ bytes, reply = .bulk bytes) ∧ ∃ w, reply.toValueAs v.kind = .ok w := by
  unfold ofScalar at h
  split at h
  · next bytes =>
    cases h
    exact ⟨⟨bytes, rfl⟩, .binary bytes, rfl⟩
  · next hbinary =>
    split at h
    · next s hs =>
      cases h
      have hkind : v.kind ≠ .binary := by
        cases v with
        | binary bytes => exact absurd rfl (hbinary bytes)
        | _ => exact fun h => nomatch h
      exact ⟨⟨_, rfl⟩, (toValueAs_bulk hkind).mpr (exists_readAs_scalarText hs)⟩
    · cases h

theorem exists_toValue_bulk (bytes : Bytes) : ∃ w, toValue (.bulk bytes) = .ok w := by
  rw [toValue]
  cases bytes.toText? with
  | none => exact ⟨_, rfl⟩
  | some s => exact ⟨_, rfl⟩

theorem exists_toValues {items : List Value} {replies : List Resp}
    (h : items.mapM ofScalar = .ok replies) : ∃ vs, toValues replies = .ok vs := by
  have hsent := Except.forall₂_of_mapM h
  clear h
  induction hsent with
  | nil => exact ⟨[], rfl⟩
  | cons hreply _ ih =>
    obtain ⟨⟨bytes, rfl⟩, -⟩ := ofScalar_comes_back hreply
    obtain ⟨w, hw⟩ := exists_toValue_bulk bytes
    obtain ⟨ws, hws⟩ := ih
    exact ⟨w :: ws, by rw [toValues, hw, hws]; rfl⟩

theorem depth_of_isScalar {v : Value} (h : v.kind.isScalar = true) : v.depth = 0 := by
  cases v with
  | array items => cases h
  | map entries => cases h
  | _ => rfl

theorem isScalar_of_isHomogeneous {items : List Value} (h : isHomogeneous items = true) :
    ∀ item ∈ items, item.kind.isScalar = true := by
  cases items with
  | nil => exact List.forall_mem_nil _
  | cons first rest =>
    obtain ⟨hfirst, hrest⟩ := Bool.and_eq_true_iff.mp h
    refine List.forall_mem_cons.mpr ⟨hfirst, fun item hitem => ?_⟩
    rw [of_decide_eq_true (List.all_eq_true.mp hrest item hitem), hfirst]

theorem depthItems_eq_zero {items : List Value} (h : ∀ item ∈ items, item.kind.isScalar = true) :
    Value.depthItems items = 0 := by
  induction items with
  | nil => rfl
  | cons v items ih =>
    rw [List.forall_mem_cons] at h
    rw [Value.depthItems, depth_of_isScalar h.1, ih h.2]
    rfl

/-- JSON text sent for an array or a map is read as one, unless it is nested too deep. -/
theorem exists_toValueAs_json {v : Value} {reply : Resp} (h : v.holdsPayload = false)
    (hkind : v.kind = .array ∨ v.kind = .map) (hreply : v.toJsonBytes.map .bulk = .ok reply) :
    (∃ w, reply.toValueAs v.kind = .ok w) ↔ v.depth ≤ 127 := by
  obtain ⟨bytes, hbytes, rfl⟩ := Except.map_eq_ok.mp hreply
  obtain ⟨json, hjson, rfl⟩ := Value.toJsonBytes_eq_ok.mp hbytes
  have hbinary : v.kind ≠ .binary := by
    rcases hkind with h | h <;> rw [h] <;> exact fun h => nomatch h
  have hread : readAs v.kind json.compact =
      ((Json.read? json.compact).map Value.ofJson).filter fun w => w.kind = v.kind := by
    rcases hkind with h | h <;> rw [h] <;> rfl
  rw [toValueAs_bulk hbinary, hread, ← Value.exists_read?_compact h hjson]
  cases hback : Json.read? json.compact with
  | none => simp
  | some back => simp [Value.kind_ofJson hjson hback hkind]

/-- What is sent for a value is read back as a value of its kind, unless it is JSON text that is
nested too deep. -/
theorem exists_toValueAs_iff {v : Value} {reply : Resp} (h : v.holdsPayload = false)
    (hreply : ofValue v = .ok reply) : (∃ w, reply.toValueAs v.kind = .ok w) ↔ v.depth ≤ 127 := by
  have hscalar (hdepth : v.depth = 0) (hsent : ofScalar v = .ok reply) :
      (∃ w, reply.toValueAs v.kind = .ok w) ↔ v.depth ≤ 127 :=
    iff_of_true (ofScalar_comes_back hsent).2 (by omega)
  cases v with
  | null =>
    cases hreply
    exact iff_of_true ⟨.null, rfl⟩ (Nat.zero_le _)
  | array items =>
    rw [ofValue] at hreply
    split at hreply
    · next hhomogeneous =>
      obtain ⟨replies, hreplies, rfl⟩ := Except.map_eq_ok.mp hreply
      obtain ⟨vs, hvs⟩ := exists_toValues hreplies
      have hdepth := depthItems_eq_zero (isScalar_of_isHomogeneous hhomogeneous)
      refine iff_of_true ⟨.array vs, by rw [toValueAs, Value.kind, if_pos rfl, hvs]; rfl⟩ ?_
      rw [Value.depth, hdepth]
      decide
    · exact exists_toValueAs_json h (.inl rfl) hreply
  | map entries => exact exists_toValueAs_json h (.inr rfl) hreply
  | payload p => cases h
  | _ => exact hscalar rfl hreply

end Resp

end Polystore
