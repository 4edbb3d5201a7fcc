import Polystore.Proofs.Postgres.RoundTrip
import Polystore.Proofs.Value.Conversion

/-!
Numbers that are converted to another number type, of the program or of the server. Main statements:
an integer type takes exactly the whole numbers in its range, but for a zero with a minus sign; and no
conversion merges two numbers, but for those of a word to a decimal, which merge numbers that agree in
their first fifteen digits.
-/

namespace Polystore

open Number (Binary64 Decimal)
open Value (Kept Whole Approximated)

namespace Number.Binary64

theorem isFinite_of_isZero {x : Binary64} (h : x.isZero = true) : x.isFinite = true := by
  rw [isZero, beq_iff_eq] at h
  rw [isFinite, h]
  decide

/-- A word that is equal to a finite one is finite and denotes the same number. -/
theorem value_of_numEq {x y : Binary64} (hy : y.isFinite = true) (h : x.numEq y = true) :
    x.isFinite = true ∧ x.value = y.value := by
  simp only [numEq, Bool.and_eq_true, Bool.or_eq_true, beq_iff_eq] at h
  rcases h.2 with rfl | ⟨hx, hzero⟩
  · exact ⟨hy, rfl⟩
  · exact ⟨isFinite_of_isZero hx, value_eq_iff.mpr (.inr (by rw [hx, hzero]; rfl))⟩

end Number.Binary64

namespace Postgres

/-- A value that is written as a type and read back. -/
def sentAndRead (type : Scalar) (v : Value) : Except Error Value :=
  encode v (.scalar type) >>= fun bytes => (bytes.map (decode (.scalar type))).getD (.ok .null)

theorem sentAndRead_of_encode {type : Scalar} {v : Value} {bytes : Bytes}
    (h : encode v (.scalar type) = .ok (some bytes)) :
    sentAndRead type v = decodeScalar type bytes := by
  rw [sentAndRead, h]
  rfl

theorem sentAndRead_of_error {type : Scalar} {v : Value} {e : Error}
    (h : encode v (.scalar type) = .error e) : sentAndRead type v = .error e := by
  rw [sentAndRead, h]
  rfl

/-- A word of at most eight bytes takes the integers of its range. -/
theorem kept_encodeWord (width : Nat) (hwidth : 0 < width ∧ width ≤ 8) {type : Scalar} {v : Value}
    {i : Int} {target : String}
    (hencode : encode v (.scalar type) = (encodeWord width target i).map some)
    (hdecode : ∀ bytes, decodeScalar type bytes =
      (readSigned width bytes).map fun r => .int (Int64.ofInt r.1)) :
    Kept i (Whole (-(2 ^ (8 * width - 1))) (2 ^ (8 * width - 1)) i) (sentAndRead type v) := by
  rw [Value.whole_intCast_iff]
  by_cases hrange : -(2 ^ (8 * width - 1)) ≤ i ∧ i < 2 ^ (8 * width - 1)
  · rw [encodeWord_eq_ok target hrange] at hencode
    refine .inl ⟨hrange, .int (Int64.ofInt i), ?_, ?_⟩
    · rw [sentAndRead_of_encode hencode, hdecode,
        readSigned_word_alone hwidth.1 hrange.1 hrange.2]
      rfl
    · have hbound : (2 : Int) ^ (8 * width - 1) ≤ 2 ^ 63 :=
        pow_le_pow_right₀ (by decide) (by omega)
      rw [Value.number?, Int64.toInt_ofInt_of_le (by omega) (by omega)]
  · rw [encodeWord, if_neg hrange] at hencode
    exact .inr ⟨hrange, _, _, sentAndRead_of_error hencode⟩

theorem sentAndRead_encodeDecimal {v : Value} {d : Decimal}
    (h : encode v (.scalar .numeric) = .ok (some (encodeDecimal d))) :
    sentAndRead .numeric v = .ok (.decimal d.unsignedZero) := by
  rw [sentAndRead_of_encode h, decodeScalar, Numeric.decodeNumeric_encodeDecimal]

/-- An exact number arrives as a decimal of the same number. -/
theorem kept_encodeDecimal {v : Value} {d : Decimal} {q : ℚ}
    (h : encode v (.scalar .numeric) = .ok (some (encodeDecimal d))) (hq : d.value = q) :
    Kept q True (sentAndRead .numeric v) := by
  refine .inl ⟨trivial, _, sentAndRead_encodeDecimal h, ?_⟩
  rw [Value.number?, Decimal.value_unsignedZero, hq]

theorem approximated_encodeFloat {x : Binary64} (hx : x.isFinite = true) :
    Approximated x.value (sentAndRead .numeric (.float x)) := by
  have hnumber : x.isNaN = false ∧ x.isInfinite = false := by
    have hlt : x.magnitude < Number.BinaryFormat.double.infinity := of_decide_eq_true hx
    exact ⟨decide_eq_false hlt.le.not_gt, beq_eq_false_iff_ne.mpr hlt.ne⟩
  have hencode : encode (.float x) (.scalar .numeric) = (encodeFloatNumeric x).map some := by
    rw [encode, encodeFloat]
  rw [encodeFloatNumeric, hnumber.1, hnumber.2] at hencode
  simp only [Bool.false_eq_true, if_false] at hencode
  rcases Decimal.ofBinary64?_cases hx with ⟨hlarge, hnone⟩ | ⟨hsmall, d, hd, hstands⟩
  · rw [hnone] at hencode
    exact .inr ⟨hlarge, x.display, "numeric", sentAndRead_of_error hencode⟩
  · obtain ⟨hnear, hwhole⟩ := hstands.value_near
    rw [hd] at hencode
    refine .inl ⟨hsmall, _, d.value, sentAndRead_encodeDecimal hencode, ?_, hnear, hwhole⟩
    rw [Value.number?, Decimal.value_unsignedZero]

theorem readWord_bigEndian_alone {width n : Nat} (h : n < 256 ^ width) :
    readWord width (Bytes.bigEndian width n) = .ok (n, []) := by
  have hread := readWord_bigEndian h []
  rwa [List.append_nil] at hread

theorem kept_float8 {x : Binary64} {q : ℚ} (hq : (Value.float x).number? = some q) :
    Kept q True (sentAndRead .float8 (.float x)) := by
  have hencode : encode (.float x) (.scalar .float8) = .ok (some (Bytes.bigEndian 8 x.bits.toNat)) := by
    rw [encode, encodeFloat]
    rfl
  refine .inl ⟨trivial, .float x, ?_, hq⟩
  rw [sentAndRead_of_encode hencode, decodeScalar, readWord_bigEndian_alone x.bits.toNat_lt]
  simp only [Except.map, UInt64.ofNat_toNat]

/-- The narrow words take the numbers that come back from there. -/
theorem kept_float4 {x : Binary64} (hx : x.isFinite = true) :
    Kept x.value (x.narrow.widen.numEq x = true) (sentAndRead .float4 (.float x)) := by
  have hencode : encode (.float x) (.scalar .float4) = (encodeFloat x (.scalar .float4)).map some := by
    rw [encode]
  rw [encodeFloat, hx, Bool.true_and] at hencode
  cases hsame : x.narrow.widen.numEq x with
  | true =>
    obtain ⟨hfinite, hvalue⟩ := Binary64.value_of_numEq hx hsame
    rw [hsame] at hencode
    refine .inl ⟨rfl, .float x.narrow.widen, ?_, hvalue ▸ Value.number?_float hfinite⟩
    rw [sentAndRead_of_encode hencode, decodeScalar,
      readWord_bigEndian_alone x.narrow.bits.toNat_lt]
    simp only [Except.map, UInt32.ofNat_toNat]
  | false =>
    rw [hsame] at hencode
    exact .inr ⟨Bool.false_ne_true, _, _, sentAndRead_of_error hencode⟩

/-! ### All targets -/

/-- What a number is converted to: a number type of the program, or a type of the server. -/
inductive Target where
  | int64
  | int32
  | uint64
  | binary64
  | decimal
  | wire (type : Scalar)
deriving DecidableEq

namespace Target

/-- A value as the target has it. What is sent to the server is looked at as it would be read back. -/
def convert : Target → Value → Except Error Value
  | .int64, v => v.toInt64.map .int
  | .int32, v => v.toInt32.map fun n => .int n.toInt64
  | .uint64, v => v.toUInt64.map .uint
  | .binary64, v => v.toBinary64.map .float
  | .decimal, v => v.toDecimal.map .decimal
  | .wire type, v => sentAndRead type v

/-- The kinds of numbers that a target takes at all. -/
def kinds : Target → List Kind
  | .int64 | .int32 | .uint64 => [.int, .uint, .decimal]
  | .binary64 => [.int, .uint, .float]
  | .decimal | .wire .numeric => [.int, .uint, .float, .decimal]
  | .wire .int2 | .wire .int4 | .wire .int8 => [.int, .uint]
  | .wire .float4 | .wire .float8 => [.float]
  | .wire _ => []

/-- The targets that integers are sent to. -/
def integers : List Target :=
  [.int64, .int32, .uint64, .wire .int2, .wire .int4, .wire .int8, .wire .numeric]

/-- The numbers that such a target has: the whole ones of a range, or all that are sent there. -/
def Holds : Target → ℚ → Prop
  | .int64, q | .wire .int8, q => Whole (-(2 ^ 63)) (2 ^ 63) q
  | .int32, q | .wire .int4, q => Whole (-(2 ^ 31)) (2 ^ 31) q
  | .uint64, q => Whole 0 (2 ^ 64) q
  | .wire .int2, q => Whole (-(2 ^ 15)) (2 ^ 15) q
  | _, _ => True

/-- Words are not turned into decimals exactly. -/
def Approximates (t : Target) (k : Kind) : Prop :=
  k = .float ∧ (t = .decimal ∨ t = .wire .numeric)

/-- Both kinds of integers are written by one function. -/
theorem exists_encodeInteger {v : Value} {q : ℚ} (hv : v.number? = some q)
    (hkind : v.kind ∈ [Kind.int, .uint]) :
    ∃ (i : Int) (d : Decimal), q = i ∧ d.value = i ∧
      ∀ type, encode v type = (encodeInteger v i d type).map some := by
  cases v with
  | int n =>
    cases hv
    exact ⟨n.toInt, .ofInt64 n, rfl, Decimal.value_ofInt64 n, fun type => by rw [encode]⟩
  | uint n =>
    cases hv
    exact ⟨n.toNat, .ofUInt64 n, (Int.cast_natCast _).symm,
      (Decimal.value_ofUInt64 n).trans (Int.cast_natCast _).symm, fun type => by rw [encode]⟩
  | _ => simp [Value.kind] at hkind

theorem kept_integer {type : Scalar} {v : Value} {q : ℚ} (hv : v.number? = some q)
    (hkind : v.kind ∈ [Kind.int, .uint]) (htype : type ∈ [Scalar.int2, .int4, .int8]) :
    Kept q ((wire type).Holds q) (sentAndRead type v) := by
  obtain ⟨i, d, rfl, -, hencode⟩ := exists_encodeInteger hv hkind
  simp only [List.mem_cons, List.not_mem_nil, or_false] at htype
  rcases htype with rfl | rfl | rfl
  · exact kept_encodeWord 2 (by decide) ((hencode _).trans (by rw [encodeInteger])) fun _ => rfl
  · exact kept_encodeWord 4 (by decide) ((hencode _).trans (by rw [encodeInteger])) fun _ => rfl
  · exact kept_encodeWord 8 (by decide) ((hencode _).trans (by rw [encodeInteger])) fun _ => rfl

theorem kept_numeric {v : Value} {q : ℚ} (hv : v.number? = some q)
    (hkind : v.kind ∈ [Kind.int, .uint, .decimal]) : Kept q True (sentAndRead .numeric v) := by
  by_cases hdecimal : v.kind = .decimal
  · cases v with
    | decimal d =>
      cases hv
      exact kept_encodeDecimal (by rw [encode, if_pos rfl]) rfl
    | _ => cases hdecimal
  · have hinteger : v.kind ∈ [Kind.int, .uint] := by
      simpa [hdecimal] using hkind
    obtain ⟨i, d, rfl, hd, hencode⟩ := exists_encodeInteger hv hinteger
    exact kept_encodeDecimal ((hencode _).trans (by rw [encodeInteger]; rfl)) hd

/-- The integer targets take what they hold, but for a zero with a minus sign. -/
theorem kept_convert_integer {t : Target} (ht : t ∈ integers) {v : Value} {q : ℚ}
    (hv : v.number? = some q) (hkind : v.kind ∈ t.kinds) (hfloat : v.kind ≠ .float) :
    Kept q (t.Holds q ∧ ¬(t = .uint64 ∧ v.isNegativeZero = true)) (t.convert v) := by
  have hall {fits : Prop} {x : Except Error Value} (hne : t ≠ .uint64) (h : Kept q fits x) :
      Kept q (fits ∧ ¬(t = .uint64 ∧ v.isNegativeZero = true)) x := by
    simpa only [hne, false_and, not_false_eq_true, and_true] using h
  cases t with
  | int64 => exact hall (by decide) (Value.kept_toInt64 hv hfloat)
  | int32 => exact hall (by decide) (Value.kept_toInt32 hv hfloat)
  | uint64 =>
    have h : Kept q (uint64.Holds q ∧ v.isNegativeZero = false) (uint64.convert v) :=
      Value.kept_toUInt64 hv hfloat
    simpa only [true_and, Bool.not_eq_true] using h
  | binary64 => simp [integers] at ht
  | decimal => simp [integers] at ht
  | wire type =>
    refine hall (by simp) ?_
    simp only [integers, List.mem_cons, List.not_mem_nil, or_false, wire.injEq, reduceCtorEq,
      false_or] at ht
    rcases ht with rfl | rfl | rfl | rfl
    · exact kept_integer hv hkind (by decide)
    · exact kept_integer hv hkind (by decide)
    · exact kept_integer hv hkind (by decide)
    · refine kept_numeric hv ?_
      simpa [kinds, hfloat] using hkind

theorem exists_kept_float {t : Target} {x : Binary64} (hx : x.isFinite = true)
    (hkind : Kind.float ∈ t.kinds) (h : ¬t.Approximates .float) :
    ∃ fits, Kept x.value fits (t.convert (.float x)) := by
  cases t with
  | int64 | int32 | uint64 => simp [kinds] at hkind
  | binary64 => exact ⟨_, Value.kept_toBinary64 (Value.number?_float hx) Kind.noConfusion⟩
  | decimal => exact absurd ⟨rfl, .inl rfl⟩ h
  | wire type =>
    cases type with
    | float4 => exact ⟨_, kept_float4 hx⟩
    | float8 => exact ⟨_, kept_float8 (Value.number?_float hx)⟩
    | numeric => exact absurd ⟨rfl, .inr rfl⟩ h
    | int2 | int4 | int8 => simp [kinds] at hkind
    | _ => exact absurd hkind List.not_mem_nil

/-- A number of a kind that a target takes is kept, or refused as too large, unless it is a word that is
turned into a decimal. -/
theorem exists_kept_convert {t : Target} {v : Value} {q : ℚ} (hv : v.number? = some q)
    (hkind : v.kind ∈ t.kinds) (h : ¬t.Approximates v.kind) : ∃ fits, Kept q fits (t.convert v) := by
  by_cases hfloat : v.kind = .float
  · cases v with
    | float x =>
      rw [Value.number?] at hv
      split at hv
      · next hfinite =>
        cases hv
        exact exists_kept_float hfinite hkind h
      · cases hv
    | _ => cases hfloat
  · by_cases hinteger : t ∈ integers
    · exact ⟨_, kept_convert_integer hinteger hv hkind hfloat⟩
    · cases t with
      | int64 | int32 | uint64 => exact absurd (by decide) hinteger
      | binary64 =>
        refine ⟨_, Value.kept_toBinary64 hv fun hdecimal => ?_⟩
        rw [hdecimal] at hkind
        simp [kinds] at hkind
      | decimal => exact ⟨_, Value.kept_toDecimal hv hfloat⟩
      | wire type =>
        cases type with
        | int2 | int4 | int8 | numeric => exact absurd (by decide) hinteger
        | float4 | float8 => exact absurd (List.mem_singleton.mp hkind) hfloat
        | _ => exact absurd hkind List.not_mem_nil

theorem approximated_convert {t : Target} {v : Value} {q : ℚ} (hv : v.number? = some q)
    (h : t.Approximates v.kind) : Approximated q (t.convert v) := by
  obtain ⟨hfloat, htarget⟩ := h
  cases v with
  | float x =>
    rw [Value.number?] at hv
    split at hv
    · next hfinite =>
      cases hv
      rcases htarget with rfl | rfl
      · exact Value.approximated_toDecimal hfinite
      · exact approximated_encodeFloat hfinite
    · cases hv
  | _ => cases hfloat

/-- What a refusal for want of a conversion looks like. -/
def Unsupported {α : Type} (x : Except Error α) : Prop :=
  ∃ backend description, x = .error (.unsupportedType backend description)

theorem unsupported_wire {v : Value} {type : Scalar} (h : Unsupported (encode v (.scalar type))) :
    Unsupported ((wire type).convert v) := by
  obtain ⟨backend, description, herror⟩ := h
  exact ⟨backend, description, sentAndRead_of_error herror⟩

theorem unsupported_wire_integer {v : Value} {q : ℚ} (hv : v.number? = some q)
    (hinteger : v.kind ∈ [Kind.int, .uint]) {type : Scalar} (hkind : v.kind ∉ (wire type).kinds) :
    Unsupported (encode v (.scalar type)) := by
  obtain ⟨i, d, -, -, hencode⟩ := exists_encodeInteger hv hinteger
  rw [hencode]
  cases type with
  | int2 | int4 | int8 => exact absurd hinteger hkind
  | numeric =>
    have hnumeric : v.kind ∈ [Kind.int, .uint] ++ [.float, .decimal] := List.mem_append_left _ hinteger
    exact absurd hnumeric hkind
  | _ => exact ⟨_, _, rfl⟩

theorem unsupported_wire_float {x : Binary64} {type : Scalar} (hkind : Kind.float ∉ (wire type).kinds) :
    Unsupported (encode (.float x) (.scalar type)) := by
  cases type with
  | float4 | float8 | numeric => exact absurd (by decide) hkind
  | _ => exact ⟨_, _, rfl⟩

theorem unsupported_wire_decimal {d : Decimal} {type : Scalar} (h : type ≠ .numeric) :
    Unsupported (encode (.decimal d) (.scalar type)) := by
  rw [encode, if_neg fun heq => h (PgType.scalar.inj heq)]
  exact ⟨_, _, rfl⟩

theorem convert_unsupported {t : Target} {v : Value} {q : ℚ} (hv : v.number? = some q)
    (hkind : v.kind ∉ t.kinds) : Unsupported (t.convert v) := by
  cases v with
  | int n =>
    cases t with
    | wire type => exact unsupported_wire (unsupported_wire_integer hv List.mem_cons_self hkind)
    | _ => exact absurd (by decide : Kind.int ∈ kinds _) hkind
  | uint n =>
    have huint : Kind.uint ∈ [Kind.int, .uint] := by decide
    cases t with
    | wire type => exact unsupported_wire (unsupported_wire_integer hv huint hkind)
    | _ => exact absurd (by decide : Kind.uint ∈ kinds _) hkind
  | float x =>
    cases t with
    | wire type => exact unsupported_wire (unsupported_wire_float hkind)
    | int64 | int32 | uint64 => exact ⟨_, _, rfl⟩
    | binary64 | decimal => exact absurd (by decide : Kind.float ∈ kinds _) hkind
  | decimal d =>
    cases t with
    | wire type =>
      refine unsupported_wire (unsupported_wire_decimal ?_)
      rintro rfl
      exact absurd (by decide : Kind.decimal ∈ kinds (wire .numeric)) hkind
    | binary64 => exact ⟨_, _, rfl⟩
    | _ => exact absurd (by decide : Kind.decimal ∈ kinds _) hkind
  | _ => cases hv

/-- What a target makes of a number: words become decimals that are near to them, and everything else
is exact; what is not taken over is refused, with the reason for it. -/
structure Converts (t : Target) (v : Value) (q : ℚ) : Prop where
  exact : ¬t.Approximates v.kind → ∀ w, t.convert v = .ok w → w.number? = some q
  near : t.Approximates v.kind → ∀ w, t.convert v = .ok w → ∃ r, w.number? = some r ∧
    |r - q| ≤ 1 / 10 ^ 28 + |q| / 2 ^ 49 ∧ ((∃ i : ℤ, q = i) → r = q)
  small : t.Approximates v.kind → ((∃ w, t.convert v = .ok w) ↔ |q| < 2 ^ 96)
  refused : v.kind ∈ t.kinds → ∀ e, t.convert v = .error e →
    ∃ value target, e = .numericOverflow value target
  unsupported : v.kind ∉ t.kinds → Unsupported (t.convert v)

theorem converts (t : Target) {v : Value} {q : ℚ} (hv : v.number? = some q) : t.Converts v q where
  exact h w hw := by
    by_cases hkind : v.kind ∈ t.kinds
    · obtain ⟨fits, hkept⟩ := exists_kept_convert hv hkind h
      exact hkept.number?_eq hw
    · obtain ⟨_, _, herror⟩ := convert_unsupported hv hkind
      rw [herror] at hw
      cases hw
  near h w hw := (approximated_convert hv h).near hw
  small h := (approximated_convert hv h).exists_ok_iff
  refused hkind e he := by
    by_cases h : t.Approximates v.kind
    · exact (approximated_convert hv h).error_eq he
    · obtain ⟨fits, hkept⟩ := exists_kept_convert hv hkind h
      exact hkept.error_eq he
  unsupported hkind := convert_unsupported hv hkind

end Target

/-- The word nearest to three tenths, and the next one. -/
def threeTenths : Binary64 := ⟨0x3FD3333333333333⟩

def pastThreeTenths : Binary64 := ⟨0x3FD3333333333334⟩

/-- The least word above zero. -/
def leastWord : Binary64 := ⟨1⟩

theorem one_le_maxScale : 1 ≤ Decimal.maxScale := by decide

def tenths : Decimal := ⟨false, 3, 1, by decide, one_le_maxScale⟩

theorem convert_decimal_of_eq {x : Binary64} {d : Decimal} (h : Decimal.ofBinary64? x = some d) :
    Target.decimal.convert (.float x) = .ok (.decimal d) := by
  rw [Target.convert, Value.toDecimal, h]
  rfl

theorem convert_threeTenths : Target.decimal.convert (.float threeTenths) = .ok (.decimal tenths) :=
  convert_decimal_of_eq (by decide +kernel)

theorem convert_pastThreeTenths :
    Target.decimal.convert (.float pastThreeTenths) = .ok (.decimal tenths) :=
  convert_decimal_of_eq (by decide +kernel)

/-- An integer type takes the whole numbers of its range and nothing else, and takes them as they are;
only a zero with a minus sign is refused by the type without signs. -/
theorem integers_converted {t : Target} (ht : t ∈ Target.integers) {v : Value} {q : ℚ}
    (hv : v.number? = some q) (hkind : v.kind ∈ t.kinds) (hfloat : v.kind ≠ .float) :
    ((∃ w, t.convert v = .ok w) ↔ t.Holds q ∧ ¬(t = .uint64 ∧ v.isNegativeZero = true)) ∧
      (∀ w, t.convert v = .ok w → w.number? = some q) ∧
      ∀ e, t.convert v = .error e → ∃ value target, e = .numericOverflow value target := by
  have hkept := Target.kept_convert_integer ht hv hkind hfloat
  exact ⟨hkept.exists_ok_iff, fun w hw => hkept.number?_eq hw, fun e he => hkept.error_eq he⟩

/-- Seven with four places, which is whole, and a zero with a minus sign. -/
def sevenInPlaces : Decimal := ⟨false, 70000, 4, by decide, by decide⟩

def minusZero : Decimal :=
  ⟨true, 0, Decimal.maxScale, Decimal.zero.mantissa_lt, Nat.le_refl Decimal.maxScale⟩

theorem number?_sevenInPlaces : (Value.decimal sevenInPlaces).number? = some 7 := by
  norm_num [Value.number?, Decimal.value, Decimal.signed, sevenInPlaces]

theorem number?_minusZero : (Value.decimal minusZero).number? = some 0 := by
  norm_num [Value.number?, Decimal.value, Decimal.signed, minusZero]

theorem integers_converted_seven :
    (∃ w, Target.int32.convert (.decimal sevenInPlaces) = .ok w ∧ w.number? = some 7) ∧
      (∀ w, (Target.wire .int2).convert (.uint 32768) ≠ .ok w) ∧
      ∀ w, Target.uint64.convert (.decimal minusZero) ≠ .ok w := by
  refine ⟨?_, fun w hw => ?_, fun w hw => ?_⟩
  · obtain ⟨htaken, hnumber, -⟩ :=
      integers_converted (t := .int32) (by decide) number?_sevenInPlaces (by decide) Kind.noConfusion
    obtain ⟨w, hw⟩ := htaken.mpr ⟨⟨7, by norm_num⟩, by decide⟩
    exact ⟨w, hw, hnumber w hw⟩
  · have hnumber : (Value.uint 32768).number? = some (32768 : Int) := by
      rw [Value.number?, show UInt64.toNat 32768 = 32768 by decide]
      norm_num
    obtain ⟨htaken, -⟩ :=
      integers_converted (t := .wire .int2) (by decide) hnumber (by decide) Kind.noConfusion
    have hrange := Value.whole_intCast_iff.mp (htaken.mp ⟨w, hw⟩).1
    omega
  · obtain ⟨htaken, -⟩ :=
      integers_converted (t := .uint64) (by decide) number?_minusZero (by decide) Kind.noConfusion
    exact (htaken.mp ⟨w, hw⟩).2 ⟨rfl, rfl⟩

/-- Zero with a minus sign is refused by the one integer type that has no other zeros below it. -/
theorem minus_zero_refused :
    (Value.decimal minusZero).number? = some 0 ∧ Target.uint64.Holds 0 ∧
      Target.int64.convert (.decimal minusZero) = .ok (.int 0) ∧
      Target.uint64.convert (.decimal minusZero) =
        .error (.numericOverflow "-0.0000000000000000000000000000" "u64") :=
  ⟨number?_minusZero, ⟨0, by norm_num⟩, rfl, rfl⟩

end Postgres

end Polystore
