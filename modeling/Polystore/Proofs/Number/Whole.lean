import Mathlib.Tactic.Linarith
import Mathlib.Tactic.NormNum
import Mathlib.Tactic.Positivity
import Polystore.Proofs.Number.Equality

/-!
Whole numbers as decimals and as binary words. A decimal is read as a whole number exactly if it is
one; the integers of the two 64-bit types are decimals; and the integers up to `2 ^ 53` are words, so
that nothing is rounded when one of them is turned into a word.
-/

namespace Polystore.Number

namespace Decimal

theorem value_eq_intCast_iff {d : Decimal} {i : Int} : d.value = i ↔ d.signed = i * 10 ^ d.scale := by
  rw [value, div_eq_iff (by positivity)]
  norm_cast

/-- The whole number of a decimal is found exactly if there is one. -/
theorem toInt?_eq_some_iff {d : Decimal} {i : Int} : d.toInt? = some i ↔ d.value = i := by
  have hpow : (0 : Int) < 10 ^ d.scale := by positivity
  have hsigned : d.signed = i * 10 ^ d.scale ↔
      (d.mantissa : Int) = (if d.negative then -i else i) * 10 ^ d.scale := by
    rw [signed]
    split
    · rw [neg_mul, eq_neg_iff_add_eq_zero, neg_eq_iff_add_eq_zero]
    · rfl
  rw [value_eq_intCast_iff, hsigned, toInt?]
  constructor
  · intro h
    split at h
    · next hmod =>
      have hdiv : (d.mantissa : Int) = (d.mantissa / 10 ^ d.scale : Nat) * 10 ^ d.scale := by
        exact_mod_cast (Nat.div_mul_cancel (Nat.dvd_of_mod_eq_zero hmod)).symm
      rw [hdiv, ← Option.some.inj h]
      split <;> simp
    · cases h
  · intro h
    have hnonneg : 0 ≤ if d.negative then -i else i := by
      by_contra hneg
      have := mul_neg_of_neg_of_pos (not_le.mp hneg) hpow
      omega
    obtain ⟨n, hn⟩ := Int.eq_ofNat_of_zero_le hnonneg
    rw [hn] at h
    have hmantissa : d.mantissa = n * 10 ^ d.scale := by exact_mod_cast h
    rw [hmantissa, if_pos (Nat.mul_mod_left _ _), Nat.mul_div_cancel _ (by positivity)]
    dsimp only
    rw [← hn]
    split <;> simp

theorem value_ofUInt64 (n : UInt64) : (ofUInt64 n).value = n.toNat := by
  change (ofUInt64 n).value = ((n.toNat : Int) : ℚ)
  rw [value_eq_intCast_iff]
  simp [signed, ofUInt64, ofWord]

theorem value_ofInt64 (n : Int64) : (ofInt64 n).value = n.toInt := by
  have hlow := n.le_toInt
  have hhigh := n.toInt_lt
  have hmagnitude : (UInt64.ofNat n.toInt.natAbs).toNat = n.toInt.natAbs :=
    UInt64.toNat_ofNat_of_lt' (by rw [UInt64.size]; omega)
  rw [value_eq_intCast_iff, signed, ofInt64, ofWord]
  simp only [hmagnitude, Int64.lt_iff_toInt_lt, Int64.toInt_zero, decide_eq_true_eq, pow_zero, mul_one]
  split <;> omega

end Decimal

namespace BinaryFormat

variable (format : BinaryFormat)

/-- The word with a significand in its place. -/
theorem value_placed {place significand : Nat} (hlow : place = 0 ∨ 2 ^ format.fractionBits ≤ significand)
    (hhigh : significand < 2 ^ (format.fractionBits + 1)) :
    format.value (place * 2 ^ format.fractionBits + significand) =
      significand * 2 ^ ((place : Int) - format.minPlace) := by
  have hpos : 0 < 2 ^ format.fractionBits := Nat.two_pow_pos _
  rw [Nat.pow_succ] at hhigh
  have hfield : (place * 2 ^ format.fractionBits + significand) / 2 ^ format.fractionBits =
      place + significand / 2 ^ format.fractionBits := by
    rw [Nat.add_comm, Nat.add_mul_div_right _ _ hpos, Nat.add_comm]
  rw [value, unpack, hfield, Nat.add_comm (place * _), Nat.add_mul_mod_self_right]
  rcases Nat.lt_or_ge significand (2 ^ format.fractionBits) with hsmall | hlarge
  · obtain rfl : place = 0 := hlow.resolve_right (Nat.not_le.mpr hsmall)
    rw [Nat.div_eq_of_lt hsmall, Nat.mod_eq_of_lt hsmall]
    simp
  · have hone : significand / 2 ^ format.fractionBits = 1 := by
      rw [Nat.div_eq_iff hpos]
      omega
    have hrest : 2 ^ format.fractionBits + significand % 2 ^ format.fractionBits = significand := by
      have := Nat.div_add_mod significand (2 ^ format.fractionBits)
      rwa [hone, Nat.mul_one] at this
    rw [hone]
    simp only [Nat.succ_ne_zero, if_false, hrest, Nat.cast_succ, add_sub_cancel_right]

/-- A quotient that is whole, counted in the last place of the word nearest to it, is that word. -/
theorem value_roundRatio_of_whole {num den n : Nat} (hnum : num ≠ 0) (hden : 0 < den)
    (h : (num : ℚ) / den = n * 2 ^ format.placeOf num den)
    (hfinite : format.roundRatio num den < format.infinity) :
    format.value (format.roundRatio num den) = num / den := by
  obtain ⟨hroom, hleast, hplace⟩ := format.placeOf_spec hnum hden
  have hpow : (0 : ℚ) < 2 ^ format.placeOf num den := by positivity
  have hcounted : (num : ℚ) / den / 2 ^ format.placeOf num den = n := by
    rw [h, mul_div_cancel_right₀ _ hpow.ne']
  have hsignificand : format.significandOf num den = n := by
    have hnearest := format.isNearest_significandOf num hden
    rw [hcounted] at hnearest
    exact le_antisymm (hnearest.mono (isNearest_self n) le_rfl) ((isNearest_self n).mono hnearest le_rfl)
  have hlow : (format.placeOf num den + format.minPlace).toNat = 0 ∨ 2 ^ format.fractionBits ≤ n := by
    rcases hplace with hsmallest | -
    · exact .inl (by omega)
    · by_cases hsmallest : format.placeOf num den = -(format.minPlace : Int)
      · exact .inl (by omega)
      · exact .inr (hsignificand ▸ format.le_significandOf hnum hden hsmallest)
  have hhigh : n < 2 ^ (format.fractionBits + 1) := by
    rw [add_assoc, zpow_add₀ two_ne_zero, mul_comm, ← div_lt_iff₀ hpow, hcounted] at hroom
    exact_mod_cast hroom
  rw [format.roundRatio_eq hnum] at hfinite ⊢
  have hbits := (min_lt_iff.mp hfinite).resolve_right (lt_irrefl _)
  rw [min_eq_left hbits.le, hsignificand, format.value_placed hlow hhigh,
    Int.toNat_of_nonneg (by omega), add_sub_cancel_right, h]

end BinaryFormat

namespace Binary64

open BinaryFormat

theorem isNegative_ofMagnitude (negative : Bool) {n : Nat} (h : n < 2 ^ 63) :
    (ofMagnitude negative n).isNegative = negative := by
  cases negative with
  | false =>
    simp only [isNegative, ofMagnitude, Bool.false_eq_true, if_false, UInt64.toNat_ofNat',
      decide_eq_false_iff_not]
    omega
  | true =>
    simp only [isNegative, ofMagnitude, if_true, UInt64.toNat_ofNat', decide_eq_true_eq]
    omega

theorem roundRatio_lt_infinity {n : Nat} (h : n ≤ 2 ^ 53) : double.roundRatio n 1 < double.infinity := by
  have hlargest : double.roundRatio (2 ^ 53) 1 < double.infinity := by decide +kernel
  refine lt_of_le_of_lt (double.roundRatio_mono one_pos one_pos ?_) hlargest
  rw [Nat.cast_one, div_one, div_one]
  exact_mod_cast h

/-- Up to `2 ^ 53` the last place of a word weighs one or less, but for `2 ^ 53` itself, which is even. -/
theorem exists_whole_in_place {n : Nat} (hn : n ≠ 0) (h : n ≤ 2 ^ 53) :
    ∃ k : Nat, (n : ℚ) / (1 : Nat) = k * 2 ^ double.placeOf n 1 := by
  have hbound : (n : ℚ) ≤ 2 ^ (53 : Int) := by exact_mod_cast h
  obtain ⟨-, -, hplace⟩ := double.placeOf_spec hn one_pos
  rw [Nat.cast_one, div_one] at hplace ⊢
  rcases Int.lt_or_le 0 (double.placeOf n 1) with hpos | hneg
  · have hlarge : (2 : ℚ) ^ (double.placeOf n 1 + 52) ≤ n := hplace.resolve_left (by omega)
    have hone : double.placeOf n 1 = 1 := by
      have := (zpow_le_zpow_iff_right₀ (by norm_num : (1 : ℚ) < 2)).mp (hlarge.trans hbound)
      omega
    refine ⟨2 ^ 52, le_antisymm ?_ ?_⟩
    · rw [hone]
      exact hbound.trans (by norm_num)
    · rw [hone] at hlarge ⊢
      exact le_trans (by norm_num) hlarge
  · refine ⟨n * 2 ^ (-double.placeOf n 1).toNat, ?_⟩
    have hpow : (2 : ℚ) ^ (-double.placeOf n 1).toNat * 2 ^ double.placeOf n 1 = 1 := by
      rw [← zpow_natCast, Int.toNat_of_nonneg (by omega), ← zpow_add₀ two_ne_zero, neg_add_cancel,
        zpow_zero]
    push_cast
    rw [mul_assoc, hpow, mul_one]

theorem value_roundRatio_one {n : Nat} (h : n ≤ 2 ^ 53) : double.value (double.roundRatio n 1) = n := by
  rcases eq_or_ne n 0 with rfl | hn
  · rw [BinaryFormat.roundRatio, if_pos rfl, BinaryFormat.value_zero, Nat.cast_zero]
  · obtain ⟨k, hk⟩ := exists_whole_in_place hn h
    rw [double.value_roundRatio_of_whole hn one_pos hk (roundRatio_lt_infinity h), Nat.cast_one, div_one]

/-- An integer up to `2 ^ 53` is a word. -/
theorem value_ofInt {i : Int} (h : i.natAbs ≤ 2 ^ 53) :
    (ofInt i).isFinite = true ∧ (ofInt i).value = i := by
  have hmagnitude := magnitude_ofRatio (i < 0) i.natAbs 1
  constructor
  · rw [isFinite, ofInt, hmagnitude]
    exact decide_eq_true (roundRatio_lt_infinity h)
  · rw [value, ofInt, hmagnitude, ofRatio, isNegative_ofMagnitude _ (roundRatio_lt _ _),
      value_roundRatio_one h]
    rcases Int.lt_or_le i 0 with hneg | hnonneg
    · rw [if_pos (decide_eq_true hneg), Nat.cast_natAbs, abs_of_neg hneg, Int.cast_neg, neg_neg]
    · rw [if_neg (fun h => not_lt.mpr hnonneg (of_decide_eq_true h)), Nat.cast_natAbs, abs_of_nonneg hnonneg]

end Binary64

end Polystore.Number
