import Polystore.Proofs.Calendar.Spelled
import Polystore.Proofs.Resp

/-!
Scalar values sent as replies and read back. Main statement: whoever knows the kind gets the value
itself, and whoever does not gets its text; in an array every item is read for its text.
-/

namespace Polystore

open Polystore.Calendar (Stamp Time Offset)
open Polystore.Number (Decimal)

theorem Number.Decimal.unsignedZero_of_ne_zero {d : Decimal} (h : d.mantissa ≠ 0) :
    d.unsignedZero = d := by
  have hsign : (d.negative && d.mantissa != 0) = d.negative := by
    rw [bne_iff_ne.mpr h, Bool.and_true]
  rw [unsignedZero, hsign]

namespace Value

/-- A single datum other than a float, which is spelled in full. -/
structure Spelled (v : Value) : Prop where
  scalar : v.kind.isScalar = true
  exact : v.kind ≠ .float
  stamp : ∀ s, v = .date s → s.Spelled

/-- One value, or two zeros with the same places. -/
def Exactly (v w : Value) : Prop :=
  v = w ∨ ∃ d e : Decimal, v = .decimal d ∧ w = .decimal e ∧ d.mantissa = 0 ∧ e.mantissa = 0 ∧
    d.scale = e.scale

/-- What is left of a datum for a reader who does not know its kind: its text, and bytes where they
are no text. -/
def unlabelled : Value → Value
  | .binary bytes =>
    match bytes.toText? with
    | some s => .string s
    | none => .binary bytes
  | v =>
    match v.scalarText? with
    | some s => .string s
    | none => v

theorem unlabelled_of_text {v : Value} {s : String} (h : v.scalarText? = some s) :
    unlabelled v = .string s := by
  cases v with
  | binary bytes => cases h
  | _ => rw [unlabelled, h]; rintro bytes ⟨⟩

theorem Spelled.exactly_reread {v : Value} (h : v.Spelled) : Exactly v.reread v := by
  cases v with
  | decimal d =>
    by_cases hzero : d.mantissa = 0
    · exact .inr ⟨d.unsignedZero, d, rfl, rfl, hzero, hzero, rfl⟩
    · exact .inl (congrArg Value.decimal (Decimal.unsignedZero_of_ne_zero hzero))
  | date s => exact .inl (congrArg Value.date (h.stamp s rfl).written)
  | _ => exact .inl rfl

end Value

namespace Resp

open Value (Spelled Exactly unlabelled)

/-- A datum is sent as bytes. Read as its kind they are the datum, and read as they are its text. -/
theorem ofScalar_spelled {v : Value} (h : v.Spelled) : ∃ bytes, ofScalar v = .ok (.bulk bytes) ∧
    toValueAs v.kind (.bulk bytes) = .ok v.reread ∧ toValue (.bulk bytes) = .ok (unlabelled v) := by
  by_cases hbinary : ∃ bytes, v = .binary bytes
  · obtain ⟨bytes, rfl⟩ := hbinary
    refine ⟨bytes, rfl, rfl, ?_⟩
    rw [toValue, unlabelled]
    cases bytes.toText? with
    | none => rfl
    | some s => rfl
  · have hkind : v.kind ≠ .binary := by
      cases v with
      | binary bytes => exact absurd ⟨bytes, rfl⟩ hbinary
      | _ => exact fun hkind => by cases hkind
    obtain ⟨s, hs⟩ : ∃ s, v.scalarText? = some s := by
      have hscalar := h.scalar
      cases v with
      | null | array items | map entries | payload p => cases hscalar
      | binary bytes => exact absurd rfl hkind
      | _ => exact ⟨_, rfl⟩
    refine ⟨Bytes.ofText s, ?_, ?_, ?_⟩
    · unfold ofScalar
      split
      · next bytes => exact absurd rfl hkind
      · rw [hs]
    · simp only [toValueAs, if_neg hkind, Bytes.toText?_ofText, readText,
        readAs_scalarText hs h.exact]
    · rw [toValue, Bytes.toText?_ofText, Value.unlabelled_of_text hs]

theorem ofValue_scalar {v : Value} (h : v.kind.isScalar = true) : ofValue v = ofScalar v := by
  cases v with
  | null | array items | map entries | payload p => cases h
  | _ => rfl

theorem isHomogeneous_of_kind {items : List Value} {kind : Kind} (hscalar : kind.isScalar = true)
    (h : ∀ item ∈ items, item.kind = kind) : isHomogeneous items = true := by
  cases items with
  | nil => rfl
  | cons first rest =>
    obtain ⟨rfl, hrest⟩ := List.forall_mem_cons.mp h
    rw [isHomogeneous, hscalar, Bool.true_and, List.all_eq_true]
    exact fun item hitem => decide_eq_true (hrest item hitem)

theorem toValues_spelled {items : List Value} (h : ∀ item ∈ items, item.Spelled) :
    ∃ replies, items.mapM ofScalar = .ok replies ∧ toValues replies = .ok (items.map unlabelled) := by
  induction items with
  | nil => exact ⟨[], rfl, rfl⟩
  | cons v items ih =>
    obtain ⟨hfirst, hrest⟩ := List.forall_mem_cons.mp h
    obtain ⟨bytes, hsent, -, hread⟩ := ofScalar_spelled hfirst
    obtain ⟨replies, hreplies, hvalues⟩ := ih hrest
    refine ⟨.bulk bytes :: replies, ?_, ?_⟩
    · rw [List.mapM_cons, hsent, hreplies]
      rfl
    · rw [toValues, hread, hvalues]
      rfl

/-- A leap second at the end of the first hour there is, at an offset with odd seconds. -/
def earliestLeap : Stamp :=
  ⟨.both ⟨-262143, 1, 1, by decide⟩ ⟨3599, 1500000000, by decide, by decide⟩,
    some ⟨-86399, by decide⟩, none⟩

/-- One with two places, and a zero with one place and a minus sign. -/
def prices : List Value :=
  [.decimal ⟨false, 100, 2, by decide, by decide⟩,
    .decimal ⟨true, 0, 1, Decimal.zero.mantissa_lt, by decide⟩]

theorem earliestLeap_spelled : (Value.date earliestLeap).Spelled where
  scalar := rfl
  exact := fun hkind => by cases hkind
  stamp := by
    rintro s ⟨⟩
    refine ⟨rfl, ?_⟩
    rintro t ⟨⟩
    rfl

theorem prices_spelled : ∀ item ∈ prices, item.Spelled ∧ item.kind = .decimal := by
  intro item hitem
  simp only [prices, List.mem_cons, List.not_mem_nil, or_false] at hitem
  rcases hitem with rfl | rfl
  all_goals exact ⟨⟨rfl, (fun hkind => by cases hkind), fun s hs => by cases hs⟩, rfl⟩

end Resp

end Polystore
