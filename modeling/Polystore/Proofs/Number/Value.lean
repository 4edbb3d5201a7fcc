import Mathlib.Data.Rat.Defs
import Mathlib.Algebra.Order.Field.Basic
import Mathlib.Algebra.Order.Field.Rat
import Mathlib.Tactic.Linarith
import Mathlib.Tactic.Ring
import Polystore.Number.Decimal

/-!
The numbers that decimals denote.
-/

namespace Polystore.Number.Decimal

/-- The number that a decimal denotes. -/
def value (d : Decimal) : ℚ :=
  (d.signed : ℚ) / 10 ^ d.scale

/-- The same decimal, but for the sign of a zero. -/
def unsignedZero (d : Decimal) : Decimal :=
  { d with negative := d.negative && d.mantissa != 0 }

theorem signed_unsignedZero (d : Decimal) : d.unsignedZero.signed = d.signed := by
  obtain ⟨negative, mantissa, scale, hmantissa, hscale⟩ := d
  by_cases h : mantissa = 0
  · subst h
    cases negative <;> rfl
  · simp [signed, unsignedZero, h]

theorem value_unsignedZero (d : Decimal) : d.unsignedZero.value = d.value := by
  rw [value, value, signed_unsignedZero]
  rfl

/-- The number that a decimal denotes, without its sign. -/
def size (d : Decimal) : ℚ :=
  d.mantissa / 10 ^ d.scale

theorem size_nonneg (d : Decimal) : 0 ≤ d.size :=
  div_nonneg (Nat.cast_nonneg _) (pow_nonneg (by norm_num) _)

theorem value_eq_size (d : Decimal) : d.value = if d.negative then -d.size else d.size := by
  rw [value, signed, size]
  split
  · push_cast
    ring
  · push_cast
    rfl

theorem abs_value (d : Decimal) : |d.value| = d.size := by
  rw [value_eq_size]
  split
  · rw [abs_neg, abs_of_nonneg d.size_nonneg]
  · rw [abs_of_nonneg d.size_nonneg]

theorem size_le (d : Decimal) : d.size ≤ 2 ^ 96 - 1 := by
  have hmantissa : (d.mantissa : ℚ) + 1 ≤ 2 ^ 96 := by exact_mod_cast d.mantissa_lt
  have hplaces : d.size ≤ d.mantissa :=
    div_le_self (Nat.cast_nonneg _) (one_le_pow₀ (by norm_num))
  linarith

/-- Every decimal is whole in the last place that there is. -/
theorem value_mul_ten_pow (d : Decimal) : ∃ i : ℤ, d.value * 10 ^ 28 = i := by
  refine ⟨d.signed * 10 ^ (28 - d.scale), ?_⟩
  have hpower : (10 : ℚ) ^ 28 = 10 ^ d.scale * 10 ^ (28 - d.scale) := by
    rw [← pow_add, Nat.add_sub_cancel' d.scale_le]
  rw [value, hpower, ← mul_assoc, div_mul_cancel₀ _ (pow_ne_zero _ (by norm_num))]
  push_cast
  rfl

/-- A sign that only a zero has lost is the sign of the number. -/
theorem value_of_sign {d : Decimal} {negative : Bool}
    (h : d.negative = (negative && d.mantissa != 0)) :
    d.value = if negative then -d.size else d.size := by
  rw [value_eq_size, h]
  by_cases hzero : d.mantissa = 0
  · simp [size, hzero]
  · simp [hzero]

theorem ofParts?_eq_some_iff {negative : Bool} {mantissa scale : Nat} {d : Decimal} :
    ofParts? negative mantissa scale = some d ↔
      d.negative = negative ∧ d.mantissa = mantissa ∧ d.scale = scale := by
  rw [ofParts?]
  constructor
  · intro h
    split at h
    · cases h
      exact ⟨rfl, rfl, rfl⟩
    · cases h
  · rintro ⟨rfl, rfl, rfl⟩
    rw [dif_pos ⟨d.mantissa_lt, d.scale_le⟩]

end Polystore.Number.Decimal
