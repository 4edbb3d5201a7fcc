import Polystore.Proofs.Number.Value
import Polystore.Value.Bson

/-!
Decimals packed into words of 128 bits are read back.
-/

namespace Polystore.Decimal128

open Polystore.Number (Decimal)

/-- The exponent field of a packed decimal leaves the bits free by which infinities, words that are
no numbers and large coefficients are told. -/
theorem read_pack {negative : Bool} {exponent coefficient : Nat}
    (hlow : bias - 28 ≤ exponent) (hhigh : exponent ≤ bias) (hcoefficient : coefficient < 2 ^ 96) :
    (pack negative exponent coefficient).read =
      .finite negative coefficient ((exponent : Int) - bias) := by
  rw [bias] at hlow hhigh
  have hbits : (pack negative exponent coefficient).bits.toNat =
      (if negative then 2 ^ 127 else 0) + exponent * 2 ^ 113 + coefficient := by
    rw [pack, BitVec.toNat_ofNat]
    apply Nat.mod_eq_of_lt
    split <;> omega
  have hsign : decide (((if negative then 2 ^ 127 else 0) + exponent * 2 ^ 113 + coefficient) /
      2 ^ 127 = 1) = negative := by
    cases negative with
    | false =>
      simp only [Bool.false_eq_true, if_false, decide_eq_false_iff_not]
      omega
    | true =>
      simp only [if_true, decide_eq_true_eq]
      omega
  rw [read]
  simp only [hbits, hsign]
  generalize hn : (if negative then 2 ^ 127 else 0) + exponent * 2 ^ 113 + coefficient = n
  have hparts : n / 2 ^ 113 % 2 ^ 14 = exponent ∧ n % 2 ^ 113 = coefficient := by
    split at hn <;> omega
  rw [if_neg (by omega), if_neg (by omega), if_neg (by omega), hparts.1, hparts.2]

theorem toDecimal?_self (d : Decimal) :
    toDecimal? (d.negative && d.mantissa != 0) d.mantissa (-(d.scale : Int)) =
      some d.unsignedZero := by
  have hmantissa := d.mantissa_lt
  have hscale := d.scale_le
  rw [toDecimal?]
  by_cases hzero : d.mantissa = 0
  · simp [Decimal.ofParts?, Decimal.unsignedZero, hzero, hscale]
  · rw [if_neg hzero, if_neg (by omega), if_neg (by omega)]
    simp [Decimal.ofParts?, Decimal.unsignedZero, hscale, hmantissa]

end Decimal128

open Polystore.Number (Decimal)

theorem Bson.ofDecimal128_ofDecimal (d : Decimal) :
    Bson.ofDecimal128 (Decimal128.ofDecimal d) = .ok (.decimal d.unsignedZero) := by
  have hscale := d.scale_le
  have hexponent : ((Decimal128.bias - d.scale : Nat) : Int) - Decimal128.bias = -d.scale := by
    rw [Decimal128.bias]
    omega
  rw [Bson.ofDecimal128, Decimal128.ofDecimal,
    Decimal128.read_pack (by omega) (by omega) d.mantissa_lt, hexponent]
  simp only [Decimal128.toDecimal?_self]

end Polystore
