import Mathlib.Algebra.Order.Field.Power
import Mathlib.Tactic.NormNum
import Polystore.Proofs.Number.Value
import Polystore.Value.Bson

/-!
What is made of a word of 128 bits: the number it denotes, with the places the word has, or nothing.
The standard reads coefficients of more than 34 digits as zero; the decoder does so in one of the two
forms only. The loops of the decoder stay within their registers.
-/

namespace Polystore.Decimal128

open Polystore.Number (Decimal)

/-! ### The reading of the standard -/

/-- A coefficient of more than 34 digits counts as zero. -/
def Reading.canonical : Reading → Reading
  | .finite negative coefficient exponent =>
    .finite negative (if coefficient < 10 ^ 34 then coefficient else 0) exponent
  | reading => reading

/-- A word by its fields: a sign, five bits that tell the forms apart, an exponent of 14 bits, and a
coefficient that is written out or has the bits 100 in front of it. -/
def standard (w : Decimal128) : Reading :=
  let field (low width : Nat) : Nat := (w.bits.extractLsb' low width).toNat
  let negative := field 127 1 = 1
  if field 122 5 = 31 then .notANumber
  else if field 122 5 = 30 then .infinite negative
  else if field 125 2 = 3 then
    Reading.canonical
      (.finite negative (2 ^ 113 + field 0 111) ((field 111 14 : Int) - bias))
  else Reading.canonical (.finite negative (field 0 113) ((field 113 14 : Int) - bias))

/-- The decoder tells the forms apart as the standard does, and leaves only coefficients that are
written out as they are. -/
theorem standard_eq (w : Decimal128) : w.standard = w.read.canonical := by
  have hlt := w.bits.isLt
  have hsign : (w.bits.toNat / 2 ^ 127 % 2 ^ 1 = 1) = (w.bits.toNat / 2 ^ 127 = 1) :=
    propext (by omega)
  rw [standard, read]
  simp only [BitVec.extractLsb'_toNat, Nat.shiftRight_eq_div_pow, hsign]
  split
  · rfl
  split
  · rfl
  split
  · rw [Reading.canonical, Reading.canonical, if_neg (by omega), if_pos (by decide)]
  · rw [Nat.pow_zero, Nat.div_one]

theorem read_finite_bounds {w : Decimal128} {negative : Bool} {coefficient : Nat} {exponent : Int}
    (h : w.read = .finite negative coefficient exponent) :
    coefficient < 2 ^ 113 ∧ -6176 ≤ exponent ∧ exponent ≤ 6111 := by
  rw [read] at h
  simp only [bias] at h
  split at h
  · cases h
  split at h
  · cases h
  split at h
  · injection h with _ hcoefficient hexponent
    omega
  · injection h with _ hcoefficient hexponent
    omega

/-! ### The number and its places -/

/-- The number that a sign, a coefficient and an exponent denote. -/
def amount (negative : Bool) (coefficient : Nat) (exponent : Int) : ℚ :=
  (if negative then -(coefficient : ℚ) else coefficient) * 10 ^ exponent

/-- As many places as the exponent gives, up to those a decimal has. -/
def places (exponent : Int) : Nat := min (-exponent).toNat 28

/-- The coefficient after the point has been moved, if it is whole. -/
def shifted? (coefficient : Nat) (power : Int) : Option Nat :=
  if 0 ≤ power then some (coefficient * 10 ^ power.toNat)
  else dropZeros coefficient (-power).toNat

theorem dropZeros_eq_some_iff {coefficient n m : Nat} :
    dropZeros coefficient n = some m ↔ coefficient = m * 10 ^ n := by
  induction n generalizing coefficient with
  | zero => rw [dropZeros, Option.some.injEq, Nat.pow_zero, Nat.mul_one]
  | succ n ih =>
    rw [dropZeros, Nat.pow_succ, ← Nat.mul_assoc]
    split
    · rw [ih]
      omega
    · constructor
      · exact fun h => nomatch h
      · intro h
        omega

theorem shifted?_eq_some_iff {coefficient m : Nat} {power : Int} :
    shifted? coefficient power = some m ↔ (m : ℚ) = coefficient * 10 ^ power := by
  have hten : (10 : ℚ) ≠ 0 := by norm_num
  rw [shifted?]
  split
  · rename_i hpower
    obtain ⟨n, rfl⟩ := Int.eq_ofNat_of_zero_le hpower
    rw [Option.some.injEq, Int.toNat_natCast, zpow_natCast, eq_comm]
    norm_cast
  · rename_i hpower
    obtain ⟨n, hn⟩ := Int.eq_ofNat_of_zero_le (by omega : 0 ≤ -power)
    obtain rfl : power = -(n : Int) := by omega
    rw [dropZeros_eq_some_iff, Int.neg_neg, Int.toNat_natCast, zpow_neg, zpow_natCast,
      eq_mul_inv_iff_mul_eq₀ (pow_ne_zero n hten), eq_comm]
    norm_cast

theorem exponent_add_places {exponent : Int} (h : places exponent < 28) :
    0 ≤ exponent + places exponent := by
  rw [places] at *
  omega

/-- In one formula: the point is moved to the last place, and what is left must fit. -/
theorem toDecimal?_eq (negative : Bool) (coefficient : Nat) (exponent : Int) :
    toDecimal? negative coefficient exponent =
      (shifted? coefficient (exponent + places exponent)).bind fun m =>
        Decimal.ofParts? (negative && coefficient != 0) m (places exponent) := by
  rw [toDecimal?]
  split
  · rename_i hzero
    subst hzero
    have hshifted : shifted? 0 (exponent + places exponent) = some 0 := by
      rw [shifted?_eq_some_iff, Nat.cast_zero, zero_mul]
    rw [hshifted, bne_self_eq_false, Bool.and_false]
    rfl
  rename_i hne
  have hsign : (negative && coefficient != 0) = negative := by
    rw [bne_iff_ne.mpr hne, Bool.and_true]
  rw [hsign]
  split
  · rename_i hpos
    have hplaces : places exponent = 0 := by
      rw [places]
      omega
    rw [hplaces, shifted?, Int.natCast_zero, Int.add_zero, if_pos hpos.le]
    split
    · rename_i hlarge
      have hpower : 10 ^ 29 ≤ 10 ^ exponent.toNat :=
        Nat.pow_le_pow_right (by decide) (by omega)
      have hwide : 10 ^ exponent.toNat ≤ coefficient * 10 ^ exponent.toNat :=
        Nat.le_mul_of_pos_left _ (Nat.pos_of_ne_zero hne)
      symm
      exact dif_neg (by omega)
    · rfl
  rename_i hnonpos
  split
  · rename_i hlow
    have hplaces : places exponent = 28 := by
      rw [places]
      omega
    have hdrop : (-(exponent + 28)).toNat = (-28 - exponent).toNat := by omega
    rw [hplaces, shifted?, if_neg (by omega)]
    change _ = (dropZeros coefficient (-(exponent + 28)).toNat).bind _
    rw [hdrop]
  · rename_i hhigh
    have hplaces : places exponent = (-exponent).toNat := by
      rw [places]
      omega
    have hzero : exponent + ((-exponent).toNat : Int) = 0 := by omega
    rw [hplaces, hzero, shifted?, if_pos le_rfl, Int.toNat_zero, Nat.pow_zero, Nat.mul_one]
    rfl

theorem toDecimal?_eq_some_iff {negative : Bool} {coefficient : Nat} {exponent : Int}
    {d : Decimal} :
    toDecimal? negative coefficient exponent = some d ↔
      d.negative = (negative && coefficient != 0) ∧ d.scale = places exponent ∧
        d.size = coefficient * 10 ^ exponent := by
  have hten : (10 : ℚ) ≠ 0 := by norm_num
  have hsize (hscale : d.scale = places exponent) :
      (d.mantissa : ℚ) = coefficient * 10 ^ (exponent + places exponent) ↔
        d.size = coefficient * 10 ^ exponent := by
    rw [Decimal.size, hscale, div_eq_iff (pow_ne_zero _ hten), zpow_add₀ hten, zpow_natCast,
      mul_assoc]
  rw [toDecimal?_eq, Option.bind_eq_some_iff]
  constructor
  · rintro ⟨m, hm, hd⟩
    obtain ⟨hnegative, hmantissa, hscale⟩ := Decimal.ofParts?_eq_some_iff.mp hd
    rw [← hmantissa, shifted?_eq_some_iff] at hm
    exact ⟨hnegative, hscale, (hsize hscale).mp hm⟩
  · rintro ⟨hnegative, hscale, hd⟩
    refine ⟨d.mantissa, ?_, Decimal.ofParts?_eq_some_iff.mpr ⟨hnegative, rfl, hscale⟩⟩
    exact shifted?_eq_some_iff.mpr ((hsize hscale).mpr hd)

theorem abs_amount (negative : Bool) (coefficient : Nat) (exponent : Int) :
    |amount negative coefficient exponent| = coefficient * 10 ^ exponent := by
  have hpower : (0 : ℚ) < 10 ^ exponent := zpow_pos (by norm_num) exponent
  rw [amount, abs_mul, abs_of_pos hpower]
  cases negative <;> simp

theorem value_eq_amount {negative : Bool} {coefficient : Nat} {exponent : Int} {d : Decimal}
    (h : toDecimal? negative coefficient exponent = some d) :
    d.value = amount negative coefficient exponent := by
  obtain ⟨hnegative, -, hsize⟩ := toDecimal?_eq_some_iff.mp h
  rw [Decimal.value_eq_size, hnegative, hsize, amount]
  by_cases hzero : coefficient = 0
  · simp [hzero]
  · cases negative <;> simp [hzero]

/-- A number that some decimal denotes is refused only where it does not fit with the places of the
word. -/
theorem exists_toDecimal? {negative : Bool} {coefficient : Nat} {exponent : Int} {d : Decimal}
    (hvalue : d.value = amount negative coefficient exponent)
    (hfits : |amount negative coefficient exponent| * 10 ^ places exponent < 2 ^ 96) :
    ∃ d', toDecimal? negative coefficient exponent = some d' := by
  have hten : (10 : ℚ) ≠ 0 := by norm_num
  have hsize : d.size = coefficient * 10 ^ exponent := by
    rw [← d.abs_value, hvalue, abs_amount]
  have hmoved : (coefficient : ℚ) * 10 ^ exponent * 10 ^ places exponent =
      coefficient * 10 ^ (exponent + places exponent) := by
    rw [zpow_add₀ hten, zpow_natCast, mul_assoc]
  obtain ⟨m, hm⟩ : ∃ m : Nat, (m : ℚ) = coefficient * 10 ^ (exponent + places exponent) := by
    rcases Nat.lt_or_ge (places exponent) 28 with hfew | hmany
    · obtain ⟨n, hn⟩ := Int.eq_ofNat_of_zero_le (exponent_add_places hfew)
      refine ⟨coefficient * 10 ^ n, ?_⟩
      rw [hn, zpow_natCast]
      norm_cast
    · refine ⟨d.mantissa * 10 ^ (places exponent - d.scale), ?_⟩
      have hscale : d.scale ≤ places exponent := d.scale_le.trans hmany
      have hpower : (10 : ℚ) ^ places exponent =
          10 ^ d.scale * 10 ^ (places exponent - d.scale) := by
        rw [← pow_add, Nat.add_sub_cancel' hscale]
      rw [← hmoved, ← hsize, Decimal.size, hpower, ← mul_assoc,
        div_mul_cancel₀ _ (pow_ne_zero _ hten)]
      norm_cast
  have hsmall : m < 2 ^ 96 := by
    rw [abs_amount, hmoved, ← hm] at hfits
    exact_mod_cast hfits
  have hplaces : places exponent ≤ 28 := Nat.min_le_right _ _
  rw [toDecimal?_eq, shifted?_eq_some_iff.mpr hm]
  exact ⟨_, Decimal.ofParts?_eq_some_iff (d := ⟨_, m, _, hsmall, hplaces⟩).mpr ⟨rfl, rfl, rfl⟩⟩

/-! ### The loops -/

/-- What the loops of the decoder work on: a word of 128 bits and a signed one of 32. -/
structure Registers where
  coefficient : Nat
  exponent : Int
deriving DecidableEq

namespace Registers

def Fit (r : Registers) : Prop :=
  r.coefficient < 2 ^ 128 ∧ -(2 ^ 31) ≤ r.exponent ∧ r.exponent < 2 ^ 31

/-- One turn. Down from a positive exponent the coefficient is multiplied, unless that leaves the
word; up to the last place of a decimal zeros are dropped. -/
def turn (r : Registers) : Option Registers :=
  if 0 < r.exponent then
    if r.coefficient * 10 < 2 ^ 128 then some ⟨r.coefficient * 10, r.exponent - 1⟩ else none
  else if r.exponent < -28 ∧ r.coefficient % 10 = 0 ∧ r.coefficient ≠ 0 then
    some ⟨r.coefficient / 10, r.exponent + 1⟩
  else none

/-- The registers after so many turns, or after the last one. -/
def after : Nat → Registers → Registers
  | 0, r => r
  | n + 1, r =>
    match r.turn with
    | some r' => after n r'
    | none => r

/-- What is made of the registers after the last turn. A positive exponent is left there only by a
multiplication that was refused. -/
def outcome? (negative : Bool) (r : Registers) : Option Decimal :=
  if 0 < r.exponent then none
  else
    let exponent := if r.coefficient = 0 then max r.exponent (-28) else r.exponent
    if exponent < -28 then none
    else Decimal.ofParts? (negative && r.coefficient != 0) r.coefficient (-exponent).toNat

theorem turn_eq_some {r r' : Registers} (h : r.turn = some r') :
    (0 < r.exponent ∧ r.coefficient * 10 < 2 ^ 128 ∧
        r' = ⟨r.coefficient * 10, r.exponent - 1⟩) ∨
      (r.exponent < -28 ∧ r.coefficient % 10 = 0 ∧ r.coefficient ≠ 0 ∧
        r' = ⟨r.coefficient / 10, r.exponent + 1⟩) := by
  rw [turn] at h
  split at h
  · rename_i hpos
    split at h
    · rename_i hfits
      cases h
      exact .inl ⟨hpos, hfits, rfl⟩
    · cases h
  · split at h
    · rename_i hlow
      cases h
      exact .inr ⟨hlow.1, hlow.2.1, hlow.2.2, rfl⟩
    · cases h

/-- No register overflows, and every turn takes the exponent one nearer to zero. -/
theorem Fit.turn {r r' : Registers} (hfit : r.Fit) (h : r.turn = some r') :
    r'.Fit ∧ r'.exponent.natAbs + 1 = r.exponent.natAbs := by
  obtain ⟨hcoefficient, hlow, hhigh⟩ := hfit
  rcases turn_eq_some h with ⟨hpos, hword, rfl⟩ | ⟨hneg, -, -, rfl⟩
  · refine ⟨⟨hword, ?_, ?_⟩, ?_⟩ <;> dsimp only <;> omega
  · refine ⟨⟨?_, ?_, ?_⟩, ?_⟩ <;> dsimp only <;> omega

theorem Fit.after {r : Registers} (hfit : r.Fit) (n : Nat) : (r.after n).Fit := by
  induction n generalizing r with
  | zero => exact hfit
  | succ n ih =>
    rw [Registers.after]
    split
    · exact ih (hfit.turn ‹_›).1
    · exact hfit

/-- The loops are over after as many turns as the exponent is away from zero. -/
theorem Fit.turn_after {r : Registers} (hfit : r.Fit) {n : Nat} (h : r.exponent.natAbs ≤ n) :
    (r.after n).turn = none := by
  induction n generalizing r with
  | zero =>
    cases hturn : r.turn with
    | none => exact hturn
    | some r' =>
      have hnearer := (hfit.turn hturn).2
      omega
  | succ n ih =>
    rw [Registers.after]
    cases hturn : r.turn with
    | none => exact hturn
    | some r' =>
      have hnext := hfit.turn hturn
      exact ih hnext.1 (by omega)

/-- A turn changes neither the number nor the places it will have. -/
theorem toDecimal?_turn {r r' : Registers} (h : r.turn = some r') (negative : Bool) :
    toDecimal? negative r'.coefficient r'.exponent =
      toDecimal? negative r.coefficient r.exponent := by
  have hten : (10 : ℚ) ≠ 0 := by norm_num
  have hsame : (r'.coefficient ≠ 0 ↔ r.coefficient ≠ 0) ∧ places r'.exponent = places r.exponent ∧
      (r'.coefficient : ℚ) * 10 ^ r'.exponent = r.coefficient * 10 ^ r.exponent := by
    rcases turn_eq_some h with ⟨hpos, -, rfl⟩ | ⟨hneg, hzero, hne, rfl⟩
    · refine ⟨by dsimp only; omega, ?_, ?_⟩
      · rw [places, places]
        dsimp only
        omega
      · rw [zpow_sub_one₀ hten]
        push_cast
        rw [mul_mul_mul_comm, mul_inv_cancel₀ hten, mul_one]
    · refine ⟨by dsimp only; omega, ?_, ?_⟩
      · rw [places, places]
        dsimp only
        omega
      · obtain ⟨c, hc⟩ := Nat.dvd_of_mod_eq_zero hzero
        rw [hc, Nat.mul_div_cancel_left c (by decide), zpow_add_one₀ hten]
        push_cast
        ring
  obtain ⟨hsign, hplaces, hnumber⟩ := hsame
  have hbne : (r'.coefficient != 0) = (r.coefficient != 0) := by
    rw [Bool.eq_iff_iff, bne_iff_ne, bne_iff_ne]
    exact hsign
  apply Option.ext
  intro d
  rw [toDecimal?_eq_some_iff, toDecimal?_eq_some_iff, hbne, hplaces, hnumber]

theorem toDecimal?_eq_none_of_wide {negative : Bool} {coefficient : Nat} {exponent : Int}
    (hpos : 0 < exponent) (hwide : 2 ^ 96 ≤ coefficient * 10) :
    toDecimal? negative coefficient exponent = none := by
  have hpower : 10 ^ 1 ≤ 10 ^ exponent.toNat := Nat.pow_le_pow_right (by decide) (by omega)
  have hproduct : coefficient * 10 ≤ coefficient * 10 ^ exponent.toNat :=
    Nat.mul_le_mul_left coefficient hpower
  rw [toDecimal?, if_neg (by omega), if_pos hpos]
  split
  · rfl
  · exact dif_neg (by omega)

/-- Where there is no turn left, the decimal is what the registers say. -/
theorem outcome?_eq {r : Registers} (hturn : r.turn = none) (negative : Bool) :
    r.outcome? negative = toDecimal? negative r.coefficient r.exponent := by
  obtain ⟨coefficient, exponent⟩ := r
  rw [turn] at hturn
  rw [outcome?]
  dsimp only at hturn ⊢
  split
  · rename_i hpos
    rw [if_pos hpos] at hturn
    split at hturn
    · cases hturn
    · exact (toDecimal?_eq_none_of_wide hpos (by omega)).symm
  rename_i hnonpos
  rw [if_neg hnonpos] at hturn
  by_cases hzero : coefficient = 0
  · have hscale : (-max exponent (-28)).toNat = min (-exponent).toNat 28 := by omega
    rw [toDecimal?, if_pos hzero, if_pos hzero, if_neg (by omega), hscale, hzero,
      bne_self_eq_false, Bool.and_false]
  · have hsign : (negative && coefficient != 0) = negative := by
      rw [bne_iff_ne.mpr hzero, Bool.and_true]
    rw [toDecimal?, if_neg hzero, if_neg hzero, if_neg hnonpos, hsign]
    split
    · rename_i hlow
      obtain ⟨n, hn⟩ : ∃ n, (-28 - exponent).toNat = n + 1 := ⟨(-29 - exponent).toNat, by omega⟩
      have htail : coefficient % 10 ≠ 0 := by
        intro hdigit
        rw [if_pos ⟨hlow, hdigit, hzero⟩] at hturn
        cases hturn
      rw [hn, dropZeros, if_neg htail]
      rfl
    · rfl

/-- The loops do what moving the point does. -/
theorem outcome?_after {r : Registers} (hfit : r.Fit) {n : Nat} (h : r.exponent.natAbs ≤ n)
    (negative : Bool) :
    (r.after n).outcome? negative = toDecimal? negative r.coefficient r.exponent := by
  have hkept (m : Nat) (r : Registers) :
      toDecimal? negative (r.after m).coefficient (r.after m).exponent =
        toDecimal? negative r.coefficient r.exponent := by
    induction m generalizing r with
    | zero => rfl
    | succ m ih =>
      rw [Registers.after]
      split
      · rw [ih, toDecimal?_turn ‹_›]
      · rfl
  rw [outcome?_eq (hfit.turn_after h), hkept]

end Registers

/-! ### Words -/

/-- Whatever the word, it is told apart as the standard tells it apart. Infinities and words that are
no numbers give floats. For a finite one the loops of the decoder stay in their registers and come to
an end, and either the decimal of just that number is given, with the places of the word, or the word
is refused, and no decimal of that number fits with those places. -/
theorem decoded_word (w : Decimal128) :
    w.standard = w.read.canonical ∧
      match w.read with
      | .notANumber => Bson.ofDecimal128 w = .ok (.float .nan)
      | .infinite negative =>
        Bson.ofDecimal128 w = .ok (.float (if negative then .negInfinity else .infinity))
      | .finite negative coefficient exponent =>
        (∀ n, (Registers.after n ⟨coefficient, exponent⟩).Fit) ∧
          (Registers.after exponent.natAbs ⟨coefficient, exponent⟩).turn = none ∧
          (match (Registers.after exponent.natAbs ⟨coefficient, exponent⟩).outcome? negative with
            | some d => Bson.ofDecimal128 w = .ok (.decimal d) ∧
                d.value = amount negative coefficient exponent ∧ d.scale = places exponent
            | none =>
                Bson.ofDecimal128 w =
                    .error (.unsupportedType "mongodb" "decimal128 beyond decimal range") ∧
                  ∀ d : Decimal, d.value = amount negative coefficient exponent →
                    2 ^ 96 ≤ |d.value| * 10 ^ places exponent) := by
  refine ⟨w.standard_eq, ?_⟩
  cases hread : w.read with
  | notANumber => simp only [Bson.ofDecimal128, hread]
  | infinite negative => simp only [Bson.ofDecimal128, hread]
  | finite negative coefficient exponent =>
    obtain ⟨hcoefficient, hlow, hhigh⟩ := read_finite_bounds hread
    have hfit : Registers.Fit ⟨coefficient, exponent⟩ := by
      refine ⟨?_, ?_, ?_⟩ <;> dsimp only <;> omega
    refine ⟨hfit.after, hfit.turn_after le_rfl, ?_⟩
    rw [Registers.outcome?_after hfit le_rfl]
    dsimp only
    cases hdecimal : toDecimal? negative coefficient exponent with
    | some d =>
      refine ⟨?_, value_eq_amount hdecimal, (toDecimal?_eq_some_iff.mp hdecimal).2.1⟩
      simp only [Bson.ofDecimal128, hread, hdecimal]
    | none =>
      refine ⟨?_, fun d hvalue => ?_⟩
      · simp only [Bson.ofDecimal128, hread, hdecimal]
        rfl
      · by_contra hsmall
        rw [hvalue, not_le] at hsmall
        obtain ⟨d', hd'⟩ := exists_toDecimal? hvalue hsmall
        rw [hdecimal] at hd'
        cases hd'

/-- Eight, in 29 digits and 28 places. -/
def wideEight : Decimal128 := pack false (bias - 28) (8 * 10 ^ 28)

/-- A coefficient of 35 digits, written out. -/
def longOne : Decimal128 := pack false (bias - 34) (10 ^ 34)

def eight : Decimal := ⟨false, 8, 0, by decide, Decimal.zero.scale_le⟩

theorem eight_value : eight.value = amount false (8 * 10 ^ 28) (-28) := by
  rw [Decimal.value, amount, eight]
  norm_num [Decimal.signed]

theorem decoded_word_wideEight : 2 ^ 96 ≤ |eight.value| * 10 ^ places (-28) :=
  (decoded_word wideEight).2.2.2.2 eight eight_value

/-- A decimal of eight there is, but the word with eight in it is refused; and a word that the
standard reads as zero is taken for one. -/
theorem words_decoded_otherwise :
    wideEight.standard = .finite false (8 * 10 ^ 28) (-28) ∧
      eight.value = amount false (8 * 10 ^ 28) (-28) ∧
      Bson.ofDecimal128 wideEight =
        .error (.unsupportedType "mongodb" "decimal128 beyond decimal range") ∧
      longOne.standard = .finite false 0 (-34) ∧
      Bson.ofDecimal128 longOne = .ok (.decimal ⟨false, 10 ^ 28, 28, by decide, by decide⟩) :=
  ⟨rfl, eight_value, rfl, rfl, rfl⟩

end Polystore.Decimal128
