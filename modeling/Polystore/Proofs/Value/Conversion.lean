import Polystore.Proofs.Number.Approximation
import Polystore.Proofs.Number.Whole
import Polystore.Value.Convert

/-!
Checked conversions of numbers. Main statement: a conversion to an integer type, to a word or of an
exact number to a decimal keeps the number or refuses it as too large; a zero with a minus sign is the
one number that is refused although it fits.
-/

namespace Polystore.Value

open Polystore.Number (Binary64 Decimal)

/-- The number that a value of a numeric kind denotes, if it is finite. -/
def number? : Value → Option ℚ
  | .int n => some n.toInt
  | .uint n => some n.toNat
  | .decimal d => some d.value
  | .float x => if x.isFinite then some x.value else none
  | _ => none

theorem number?_float {x : Binary64} (hx : x.isFinite = true) :
    (float x).number? = some x.value := by
  rw [number?, if_pos hx]

/-- A zero that has kept a minus sign. -/
def isNegativeZero : Value → Bool
  | .decimal d => d.negative && d.mantissa == 0
  | _ => false

/-- A whole number from a bound on, up to another bound that is left out. -/
def Whole (low high : Int) (q : ℚ) : Prop :=
  ∃ i : Int, q = i ∧ low ≤ i ∧ i < high

/-- What comes of a conversion that loses nothing: the number itself if it fits, and otherwise it is
refused as too large. -/
def Kept (q : ℚ) (fits : Prop) (x : Except Error Value) : Prop :=
  (fits ∧ ∃ w, x = .ok w ∧ w.number? = some q) ∨
    (¬fits ∧ ∃ value target, x = .error (.numericOverflow value target))

namespace Kept

variable {q : ℚ} {fits : Prop} {x : Except Error Value}

theorem exists_ok_iff (h : Kept q fits x) : (∃ w, x = .ok w) ↔ fits := by
  rcases h with ⟨hfits, w, rfl, -⟩ | ⟨hfits, value, target, rfl⟩
  · exact iff_of_true ⟨w, rfl⟩ hfits
  · exact iff_of_false (fun ⟨_, hw⟩ => by cases hw) hfits

theorem number?_eq (h : Kept q fits x) {w : Value} (hw : x = .ok w) : w.number? = some q := by
  rcases h with ⟨-, w', rfl, hnumber⟩ | ⟨-, value, target, rfl⟩
  · cases hw
    exact hnumber
  · cases hw

theorem error_eq (h : Kept q fits x) {e : Error} (he : x = .error e) :
    ∃ value target, e = .numericOverflow value target := by
  rcases h with ⟨-, w, rfl, -⟩ | ⟨-, value, target, rfl⟩
  · cases he
  · cases he
    exact ⟨value, target, rfl⟩

end Kept

theorem whole_intCast_iff {low high i : Int} : Whole low high i ↔ low ≤ i ∧ i < high := by
  constructor
  · rintro ⟨j, hj, hrange⟩
    rwa [Int.cast_inj.mp hj]
  · exact fun h => ⟨i, rfl, h⟩

theorem int64?_eq_some_iff {i : Int} {n : Int64} : int64? i = some n ↔ n.toInt = i := by
  rw [int64?]
  constructor
  · intro h
    split at h
    · next hrange =>
      rw [← Option.some.inj h, Int64.toInt_ofInt_of_le hrange.1 hrange.2]
    · cases h
  · rintro rfl
    rw [if_pos ⟨n.le_toInt, n.toInt_lt⟩, Int64.ofInt_toInt]

theorem uint64?_eq_some_iff {i : Int} {n : UInt64} : uint64? i = some n ↔ (n.toNat : Int) = i := by
  rw [uint64?]
  constructor
  · intro h
    split at h
    · next hrange =>
      rw [← Option.some.inj h, UInt64.toNat_ofNat_of_lt' (by rw [UInt64.size]; omega),
        Int.toNat_of_nonneg hrange.1]
    · cases h
  · rintro rfl
    have hlt : (n.toNat : Int) < 2 ^ 64 := by exact_mod_cast n.toNat_lt
    rw [if_pos ⟨Int.natCast_nonneg _, hlt⟩, Int.toNat_natCast, UInt64.ofNat_toNat]

theorem whole_int64_iff {q : ℚ} : Whole (-(2 ^ 63)) (2 ^ 63) q ↔ ∃ n : Int64, q = n.toInt := by
  constructor
  · rintro ⟨i, rfl, hlow, hhigh⟩
    exact ⟨Int64.ofInt i, by rw [Int64.toInt_ofInt_of_le hlow hhigh]⟩
  · rintro ⟨n, rfl⟩
    exact whole_intCast_iff.mpr ⟨n.le_toInt, n.toInt_lt⟩

theorem whole_uint64_iff {q : ℚ} : Whole 0 (2 ^ 64) q ↔ ∃ n : UInt64, q = n.toNat := by
  constructor
  · rintro ⟨i, rfl, hlow, hhigh⟩
    obtain ⟨k, rfl⟩ := Int.eq_ofNat_of_zero_le hlow
    refine ⟨UInt64.ofNat k, ?_⟩
    rw [UInt64.toNat_ofNat_of_lt' (by rw [UInt64.size]; omega)]
    rfl
  · rintro ⟨n, rfl⟩
    exact ⟨n.toNat, by norm_cast, Int.natCast_nonneg _, by exact_mod_cast n.toNat_lt⟩

/-! ### Integers -/

/-- What a function's specification alone implies is true of the function. -/
@[elab_as_elim]
theorem of_specification {α : Type} {motive : α → Prop} (f : α) (spec : α → Prop) (hf : spec f)
    (h : ∀ g, spec g → motive g) : motive f :=
  h f hf

theorem some_or_none {α : Type} {found : Option α} {P : α → Prop} (h : ∀ a, found = some a ↔ P a) :
    (∃ a, found = some a ∧ P a) ∨ (found = none ∧ ∀ a, ¬P a) := by
  cases found with
  | some a => exact .inl ⟨a, rfl, (h a).mp rfl⟩
  | none => exact .inr ⟨rfl, fun a ha => Option.some_ne_none a ((h a).mpr ha).symm⟩

theorem toInt64_cases {v : Value} {q : ℚ} (hv : v.number? = some q) (hkind : v.kind ≠ .float) :
    (∃ n, v.toInt64 = .ok n ∧ q = n.toInt) ∨
      (¬Whole (-(2 ^ 63)) (2 ^ 63) q ∧ ∃ value, v.toInt64 = .error (.numericOverflow value "i64")) := by
  rw [whole_int64_iff, not_exists]
  unfold toInt64
  -- comparisons with the bounds must not be evaluated on a word that is not known
  refine of_specification int64? (fun check => ∀ i n, check i = some n ↔ n.toInt = i)
    (fun _ _ => int64?_eq_some_iff) fun check hcheck => ?_
  cases v with
  | int n =>
    cases hv
    exact .inl ⟨n, rfl, rfl⟩
  | uint n =>
    cases hv
    have hnumber (i : Int64) : check n.toNat = some i ↔ (n.toNat : ℚ) = i.toInt := by
      rw [hcheck, eq_comm, ← Int.cast_inj (α := ℚ), Int.cast_natCast]
    rcases some_or_none hnumber with ⟨i, h, hi⟩ | ⟨h, hnone⟩
    · exact .inl ⟨i, by simp only [h], hi⟩
    · exact .inr ⟨hnone, intText n.toNat, by simp only [h, overflow]⟩
  | decimal d =>
    cases hv
    have hnumber (i : Int64) : d.toInt?.bind check = some i ↔ d.value = i.toInt := by
      simp only [Option.bind_eq_some_iff, hcheck, Decimal.toInt?_eq_some_iff]
      exact ⟨fun ⟨_, hk, hi⟩ => hi ▸ hk, fun h => ⟨_, h, rfl⟩⟩
    rcases some_or_none hnumber with ⟨i, h, hi⟩ | ⟨h, hnone⟩
    · exact .inl ⟨i, by simp only [h], hi⟩
    · exact .inr ⟨hnone, d.text, by simp only [h, overflow]⟩
  | float x => exact absurd rfl hkind
  | _ => cases hv

theorem kept_toInt64 {v : Value} {q : ℚ} (hv : v.number? = some q) (hkind : v.kind ≠ .float) :
    Kept q (Whole (-(2 ^ 63)) (2 ^ 63) q) (v.toInt64.map .int) := by
  rcases toInt64_cases hv hkind with ⟨n, hn, rfl⟩ | ⟨hrange, value, hvalue⟩
  · refine .inl ⟨whole_int64_iff.mpr ⟨n, rfl⟩, .int n, ?_, rfl⟩
    rw [hn]
    rfl
  · refine .inr ⟨hrange, value, "i64", ?_⟩
    rw [hvalue]
    rfl

/-- The narrow type is reached by way of the wide one, which has all of its numbers. -/
theorem kept_toInt32 {v : Value} {q : ℚ} (hv : v.number? = some q) (hkind : v.kind ≠ .float) :
    Kept q (Whole (-(2 ^ 31)) (2 ^ 31) q) (v.toInt32.map fun n => .int n.toInt64) := by
  rcases toInt64_cases hv hkind with ⟨n, hn, rfl⟩ | ⟨hrange, value, hvalue⟩
  · rw [whole_intCast_iff, toInt32, hn]
    simp only [bind, Except.bind]
    split
    · next hnarrow =>
      refine .inl ⟨hnarrow, _, rfl, ?_⟩
      rw [number?, Int32.toInt_toInt64, Int32.toInt_ofInt_of_le hnarrow.1 hnarrow.2]
    · next hwide => exact .inr ⟨hwide, _, _, rfl⟩
  · refine .inr ⟨?_, value, "i64", ?_⟩
    · rintro ⟨i, hi, hlow, hhigh⟩
      exact hrange ⟨i, hi, by omega, by omega⟩
    · rw [toInt32, hvalue]
      rfl

/-- With a minus sign only a zero is not below the range. -/
theorem isNegativeZero_of_negative {d : Decimal} (hsign : d.negative = true) {n : UInt64}
    (h : d.value = n.toNat) : (decimal d).isNegativeZero = true := by
  have hsize : d.size = 0 := by
    have hnonneg := d.size_nonneg
    have hcast : (0 : ℚ) ≤ n.toNat := Nat.cast_nonneg _
    rw [Decimal.value_eq_size, if_pos hsign] at h
    linarith
  have hmantissa : d.mantissa = 0 := by
    rw [Decimal.size, div_eq_zero_iff] at hsize
    exact_mod_cast hsize.resolve_right (by positivity)
  rw [isNegativeZero, hsign, hmantissa]
  rfl

theorem toUInt64_cases {v : Value} {q : ℚ} (hv : v.number? = some q) (hkind : v.kind ≠ .float) :
    (∃ n, v.toUInt64 = .ok n ∧ q = n.toNat ∧ v.isNegativeZero = false) ∨
      ((∀ n : UInt64, q = n.toNat → v.isNegativeZero = true) ∧
        ∃ value, v.toUInt64 = .error (.numericOverflow value "u64")) := by
  unfold toUInt64
  refine of_specification uint64? (fun check => ∀ i n, check i = some n ↔ (n.toNat : Int) = i)
    (fun _ _ => uint64?_eq_some_iff) fun check hcheck => ?_
  cases v with
  | uint n =>
    cases hv
    exact .inl ⟨n, rfl, rfl, rfl⟩
  | int n =>
    cases hv
    have hnumber (k : UInt64) : check n.toInt = some k ↔ (n.toInt : ℚ) = k.toNat := by
      rw [hcheck, eq_comm, ← Int.cast_inj (α := ℚ), Int.cast_natCast]
    rcases some_or_none hnumber with ⟨k, h, hk⟩ | ⟨h, hnone⟩
    · exact .inl ⟨k, by simp only [h], hk, rfl⟩
    · exact .inr ⟨fun k hk => absurd hk (hnone k), intText n.toInt, by simp only [h, overflow]⟩
  | decimal d =>
    cases hv
    have hnumber (k : UInt64) : d.toInt?.bind check = some k ↔ d.value = k.toNat := by
      simp only [Option.bind_eq_some_iff, hcheck, Decimal.toInt?_eq_some_iff]
      constructor
      · rintro ⟨i, hi, rfl⟩
        rw [hi, Int.cast_natCast]
      · exact fun h => ⟨k.toNat, by rw [h, Int.cast_natCast], rfl⟩
    cases hsign : d.negative with
    | true =>
      exact .inr ⟨fun k hk => isNegativeZero_of_negative hsign hk, d.text,
        by simp only [hsign, if_true, overflow]⟩
    | false =>
      have hpositive : (decimal d).isNegativeZero = false := by rw [isNegativeZero, hsign, Bool.false_and]
      rcases some_or_none hnumber with ⟨k, h, hk⟩ | ⟨h, hnone⟩
      · refine .inl ⟨k, ?_, hk, hpositive⟩
        simp only [hsign, Bool.false_eq_true, if_false, h]
      · refine .inr ⟨fun k hk => absurd hk (hnone k), d.text, ?_⟩
        simp only [hsign, Bool.false_eq_true, if_false, h, overflow]
  | float x => exact absurd rfl hkind
  | _ => cases hv

theorem kept_toUInt64 {v : Value} {q : ℚ} (hv : v.number? = some q) (hkind : v.kind ≠ .float) :
    Kept q (Whole 0 (2 ^ 64) q ∧ v.isNegativeZero = false) (v.toUInt64.map .uint) := by
  rw [whole_uint64_iff]
  rcases toUInt64_cases hv hkind with ⟨n, hn, rfl, hsign⟩ | ⟨hnone, value, hvalue⟩
  · refine .inl ⟨⟨⟨n, rfl⟩, hsign⟩, .uint n, ?_, rfl⟩
    rw [hn]
    rfl
  · refine .inr ⟨?_, value, "u64", ?_⟩
    · rintro ⟨⟨n, hn⟩, hsign⟩
      exact Bool.false_ne_true (hsign.symm.trans (hnone n hn))
    · rw [hvalue]
      rfl

/-! ### Words and decimals -/

theorem number?_ofInt {i : Int} (h : i.natAbs ≤ 2 ^ 53) : (float (.ofInt i)).number? = some (i : ℚ) := by
  obtain ⟨hfinite, hvalue⟩ := Binary64.value_ofInt h
  rw [number?_float hfinite, hvalue]

theorem abs_intCast_le_iff {i : Int} : |(i : ℚ)| ≤ 2 ^ 53 ↔ i.natAbs ≤ 2 ^ 53 := by
  rw [← Int.cast_abs, Int.abs_eq_natAbs, Int.cast_natCast]
  exact_mod_cast Iff.rfl

theorem kept_toBinary64 {v : Value} {q : ℚ} (hv : v.number? = some q) (hkind : v.kind ≠ .decimal) :
    Kept q (v.kind = .float ∨ |q| ≤ 2 ^ 53) (v.toBinary64.map .float) := by
  cases v with
  | float x => exact .inl ⟨.inl rfl, float x, rfl, hv⟩
  | int n =>
    cases hv
    rw [abs_intCast_le_iff, toBinary64]
    split
    · next hrange =>
      have hbound : n.toInt.natAbs ≤ 2 ^ 53 := by omega
      exact .inl ⟨.inr hbound, _, rfl, number?_ofInt hbound⟩
    · next hrange =>
      refine .inr ⟨?_, _, _, rfl⟩
      rintro (hfloat | hbound)
      · cases hfloat
      · omega
  | uint n =>
    cases hv
    rw [← Int.cast_natCast, abs_intCast_le_iff, Int.natAbs_natCast, toBinary64]
    split
    · next hrange => exact .inl ⟨.inr hrange, _, rfl, number?_ofInt hrange⟩
    · next hrange =>
      refine .inr ⟨?_, _, _, rfl⟩
      rintro (hfloat | hbound)
      · cases hfloat
      · exact hrange hbound
  | decimal d => exact absurd rfl hkind
  | _ => cases hv

theorem kept_toDecimal {v : Value} {q : ℚ} (hv : v.number? = some q) (hkind : v.kind ≠ .float) :
    Kept q True (v.toDecimal.map .decimal) := by
  cases v with
  | int n =>
    cases hv
    exact .inl ⟨trivial, _, rfl, congrArg some (Decimal.value_ofInt64 n)⟩
  | uint n =>
    cases hv
    exact .inl ⟨trivial, _, rfl, congrArg some (Decimal.value_ofUInt64 n)⟩
  | decimal d =>
    cases hv
    exact .inl ⟨trivial, _, rfl, rfl⟩
  | float x => exact absurd rfl hkind
  | _ => cases hv

/-- What comes of a word that is turned into a decimal: a number near to its own, or its own if that is
whole; and a word of `2 ^ 96` or more is refused. -/
def Approximated (q : ℚ) (x : Except Error Value) : Prop :=
  (|q| < 2 ^ 96 ∧ ∃ w r, x = .ok w ∧ w.number? = some r ∧ |r - q| ≤ 1 / 10 ^ 28 + |q| / 2 ^ 49 ∧
      ((∃ i : ℤ, q = i) → r = q)) ∨
    (2 ^ 96 ≤ |q| ∧ ∃ value target, x = .error (.numericOverflow value target))

namespace Approximated

variable {q : ℚ} {x : Except Error Value}

theorem exists_ok_iff (h : Approximated q x) : (∃ w, x = .ok w) ↔ |q| < 2 ^ 96 := by
  rcases h with ⟨hsmall, w, -, rfl, -⟩ | ⟨hlarge, value, target, rfl⟩
  · exact iff_of_true ⟨w, rfl⟩ hsmall
  · exact iff_of_false (fun ⟨_, hw⟩ => by cases hw) (not_lt.mpr hlarge)

theorem near (h : Approximated q x) {w : Value} (hw : x = .ok w) : ∃ r, w.number? = some r ∧
    |r - q| ≤ 1 / 10 ^ 28 + |q| / 2 ^ 49 ∧ ((∃ i : ℤ, q = i) → r = q) := by
  rcases h with ⟨-, w', r, rfl, hnear⟩ | ⟨-, value, target, rfl⟩
  · cases hw
    exact ⟨r, hnear⟩
  · cases hw

theorem error_eq (h : Approximated q x) {e : Error} (he : x = .error e) :
    ∃ value target, e = .numericOverflow value target := by
  rcases h with ⟨-, w, -, rfl, -⟩ | ⟨-, value, target, rfl⟩
  · cases he
  · cases he
    exact ⟨value, target, rfl⟩

end Approximated

theorem approximated_toDecimal {x : Binary64} (hx : x.isFinite = true) :
    Approximated x.value ((float x).toDecimal.map .decimal) := by
  rcases Decimal.ofBinary64?_cases hx with ⟨hlarge, hnone⟩ | ⟨hsmall, d, hd, hstands⟩
  · refine .inr ⟨hlarge, x.display, "decimal", ?_⟩
    rw [toDecimal, hnone]
    rfl
  · obtain ⟨hnear, hwhole⟩ := hstands.value_near
    refine .inl ⟨hsmall, .decimal d, d.value, ?_, rfl, hnear, hwhole⟩
    rw [toDecimal, hd]
    rfl

end Polystore.Value
