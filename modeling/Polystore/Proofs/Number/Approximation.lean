import Mathlib.Algebra.Order.Field.Power
import Mathlib.Algebra.Order.Ring.Pow
import Mathlib.Data.Nat.Cast.Order.Field
import Mathlib.Tactic.Linarith
import Mathlib.Tactic.NormNum
import Mathlib.Tactic.Positivity
import Mathlib.Tactic.Ring
import Polystore.Number.Approximation
import Polystore.Proofs.Number.Equality

/-!
How far the decimal for a binary word is from that word. Each division by two loses at most the last
bit of a full mantissa, and each digit that is rounded off at most half of its place; the losses are
added up over the passes. Main statement: there is a decimal for every finite word below `2 ^ 96`, it
is off by a part in `2 ^ 49` and a unit of the last place that decimals have, and it is equal to a word
that is whole.
-/

namespace Polystore.Number

namespace Partway

/-- The number on its way. -/
def value (p : Partway) : ℚ :=
  p.mantissa * 10 ^ p.power

/-- A mantissa of 96 bits, and no digit that is left of the point for good. -/
structure Fits (p : Partway) : Prop where
  mantissa : p.mantissa < 2 ^ 96
  power : p.power ≤ 0

theorem value_nonneg (p : Partway) : 0 ≤ p.value := by
  unfold value
  positivity

theorem ten_zpow_add_one (e : Int) : (10 : ℚ) ^ (e + 1) = 10 * 10 ^ e := by
  rw [zpow_add_one₀ (by norm_num), mul_comm]

/-! ### Divisions by two -/

theorem Fits.half {p : Partway} (h : p.Fits) : p.half.Fits := by
  have hhalved : p.mantissa / 2 < 2 ^ 96 := (Nat.div_le_self _ 2).trans_lt h.mantissa
  rw [Partway.half]
  split
  · exact ⟨hhalved, h.power⟩
  · split
    · next hroom => exact ⟨hroom, (Int.sub_le_self _ (by decide)).trans h.power⟩
    · exact ⟨hhalved, h.power⟩

/-- A division by two is exact, or it loses the last bit of a mantissa past a fifth of `2 ^ 96`. -/
theorem value_half (p : Partway) :
    p.value / 2 * (1 - 5 / 2 ^ 96) ≤ p.half.value ∧ p.half.value ≤ p.value / 2 := by
  have hpow : (0 : ℚ) < 10 ^ p.power := by positivity
  have hexact (h : p.half.value = p.value / 2) :
      p.value / 2 * (1 - 5 / 2 ^ 96) ≤ p.half.value ∧ p.half.value ≤ p.value / 2 := by
    have := p.value_nonneg
    constructor <;> linarith
  rcases Nat.even_or_odd' p.mantissa with ⟨k, heven | hodd⟩
  · apply hexact
    rw [half, if_pos (by omega), value, value, heven, Nat.mul_div_cancel_left k two_pos]
    push_cast
    ring
  · by_cases hroom : 5 * p.mantissa < 2 ^ 96
    · apply hexact
      have hplace : (10 : ℚ) ^ p.power = 10 * 10 ^ (p.power - 1) := by
        rw [← ten_zpow_add_one, sub_add_cancel]
      rw [half, if_neg (by omega), if_pos hroom, value, value, hplace]
      push_cast
      ring
    · have hfull : (2 : ℚ) ^ 96 ≤ 5 * p.mantissa := by exact_mod_cast Nat.le_of_not_lt hroom
      have hlast : p.mantissa / 2 = k := by omega
      have hmantissa : (p.mantissa : ℚ) = 2 * k + 1 := by exact_mod_cast hodd
      have hloss : p.value / 2 - p.half.value = 10 ^ p.power / 2 := by
        rw [half, if_neg (by omega), if_neg hroom, hlast, value, value, hmantissa]
        ring
      have hbit : (2 : ℚ) ^ 96 * 10 ^ p.power ≤ 5 * p.value := by
        rw [value, ← mul_assoc]
        exact mul_le_mul_of_nonneg_right hfull hpow.le
      constructor <;> linarith

theorem Fits.iterate_half {p : Partway} (h : p.Fits) (n : Nat) :
    (iterate Partway.half n p).Fits := by
  induction n generalizing p with
  | zero => exact h
  | succ n ih => exact ih h.half

/-- The losses of several divisions by two multiply up. -/
theorem value_iterate_half (n : Nat) (p : Partway) :
    p.value / 2 ^ n * (1 - 5 / 2 ^ 96) ^ n ≤ (iterate half n p).value ∧
      (iterate half n p).value ≤ p.value / 2 ^ n := by
  induction n generalizing p with
  | zero => simp [iterate]
  | succ n ih =>
    obtain ⟨hlow, hhigh⟩ := ih p.half
    obtain ⟨hfirst, hlast⟩ := p.value_half
    have hfactor : (0 : ℚ) ≤ (1 - 5 / 2 ^ 96) ^ n := pow_nonneg (by norm_num) n
    refine ⟨le_trans ?_ hlow, hhigh.trans ?_⟩
    · calc
        p.value / 2 ^ (n + 1) * (1 - 5 / 2 ^ 96) ^ (n + 1)
          = p.value / 2 * (1 - 5 / 2 ^ 96) / 2 ^ n * (1 - 5 / 2 ^ 96) ^ n := by
            rw [pow_succ, pow_succ]
            ring
        _ ≤ p.half.value / 2 ^ n * (1 - 5 / 2 ^ 96) ^ n := by gcongr
    · calc
        p.half.value / 2 ^ n ≤ p.value / 2 / 2 ^ n := by gcongr
        _ = p.value / 2 ^ (n + 1) := by
            rw [pow_succ]
            ring

/-- As many divisions as a word may need lose next to nothing. -/
theorem iterate_half_near {n : Nat} (hn : n ≤ 1074) (p : Partway) :
    p.value / 2 ^ n * (1 - 1 / 2 ^ 83) ≤ (iterate half n p).value ∧
      (iterate half n p).value ≤ p.value / 2 ^ n := by
  obtain ⟨hlow, hhigh⟩ := value_iterate_half n p
  refine ⟨le_trans ?_ hlow, hhigh⟩
  have hcount : (n : ℚ) ≤ 1074 := by exact_mod_cast hn
  have hbernoulli := one_add_mul_le_pow (by norm_num : (-2 : ℚ) ≤ -(5 / 2 ^ 96)) n
  rw [← sub_eq_add_neg] at hbernoulli
  have hfactor : (1 : ℚ) - 1 / 2 ^ 83 ≤ (1 - 5 / 2 ^ 96) ^ n := by
    refine le_trans ?_ hbernoulli
    linarith
  exact mul_le_mul_of_nonneg_left hfactor (div_nonneg p.value_nonneg (by positivity))

/-- A number that is whole when all is done loses nothing on the way. -/
theorem iterate_half_whole (n k : Nat) (power : Int) :
    iterate half n ⟨k * 2 ^ n, power⟩ = ⟨k, power⟩ := by
  induction n with
  | zero => rw [pow_zero, mul_one, iterate]
  | succ n ih =>
    have hhalf : half ⟨k * 2 ^ (n + 1), power⟩ = ⟨k * 2 ^ n, power⟩ := by
      rw [pow_succ, ← mul_assoc, half, if_pos (Nat.mul_mod_left _ 2), Nat.mul_div_cancel _ two_pos]
    rw [iterate, hhalf, ih]

/-! ### Digits that are rounded off -/

/-- A digit that is rounded off makes a difference of half its place at most. -/
theorem abs_value_dropDigit_sub_le (p : Partway) : |p.dropDigit.value - p.value| ≤ 5 * 10 ^ p.power := by
  have hpow : (0 : ℚ) < 10 ^ p.power := by positivity
  have hlt : p.mantissa % 10 < 10 := Nat.mod_lt _ (by decide)
  have hsplit : (p.mantissa : ℚ) = 10 * (p.mantissa / 10 : Nat) + (p.mantissa % 10 : Nat) := by
    exact_mod_cast (Nat.div_add_mod p.mantissa 10).symm
  have hloss : p.dropDigit.value - p.value =
      (10 * (if 5 ≤ p.mantissa % 10 then 1 else 0 : Nat) - (p.mantissa % 10 : Nat)) * 10 ^ p.power := by
    rw [value, value, hsplit, dropDigit, ten_zpow_add_one]
    push_cast
    ring
  rw [hloss, abs_mul, abs_of_pos hpow]
  refine mul_le_mul_of_nonneg_right ?_ hpow.le
  rw [abs_le]
  split
  · next hup =>
    have hlow : (5 : ℚ) ≤ (p.mantissa % 10 : Nat) := by exact_mod_cast hup
    have hhigh : ((p.mantissa % 10 : Nat) : ℚ) ≤ 10 := by exact_mod_cast hlt.le
    constructor <;> push_cast <;> linarith
  · next hdown =>
    have hhigh : ((p.mantissa % 10 : Nat) : ℚ) ≤ 5 := by exact_mod_cast (not_le.mp hdown).le
    have hlow : (0 : ℚ) ≤ (p.mantissa % 10 : Nat) := Nat.cast_nonneg _
    constructor <;> push_cast <;> linarith

theorem power_dropDigit (p : Partway) : p.dropDigit.power = p.power + 1 :=
  rfl

theorem Fits.dropDigit {p : Partway} (h : p.Fits) (hplace : p.power < 0) : p.dropDigit.Fits := by
  have hmantissa := h.mantissa
  refine ⟨?_, Int.add_one_le_iff.mpr hplace⟩
  change p.mantissa / 10 + (if 5 ≤ p.mantissa % 10 then 1 else 0) < 2 ^ 96
  split <;> omega

theorem Fits.fitScale {p : Partway} (h : p.Fits) {n : Nat} (hn : p.power + n ≤ 0) :
    (fitScale n p).Fits ∧ ((fitScale n p).power = p.power + n ∨ (fitScale n p).power = 0) := by
  induction n generalizing p with
  | zero => exact ⟨h, .inl (add_zero _).symm⟩
  | succ n ih =>
    rw [Partway.fitScale]
    split
    · exact ⟨⟨by decide, le_refl 0⟩, .inr rfl⟩
    · rw [Nat.cast_succ, add_comm (n : Int), ← add_assoc, ← power_dropDigit] at hn ⊢
      exact ih (h.dropDigit (by rw [power_dropDigit] at hn; omega)) hn

/-- Rounded off digit by digit up to a place, a number changes by less than a unit of that place. -/
theorem abs_value_fitScale_sub_le (n : Nat) (p : Partway) :
    |(fitScale n p).value - p.value| ≤ 10 ^ (p.power + n) - 10 ^ p.power := by
  have hpow : (0 : ℚ) < 10 ^ p.power := by positivity
  induction n generalizing p with
  | zero => simp [fitScale]
  | succ n ih =>
    have hplaces : (10 : ℚ) ^ (p.power + (n + 1 : Nat)) = 10 ^ (p.power + 1 + n) := by
      congr 1
      push_cast
      ring
    rw [fitScale, hplaces]
    split
    · next hsmall =>
      have hmantissa : (p.mantissa : ℚ) ≤ 9 := by exact_mod_cast Nat.le_of_lt_succ hsmall
      have hvalue : p.value ≤ 9 * 10 ^ p.power := mul_le_mul_of_nonneg_right hmantissa hpow.le
      have hlast : (10 : ℚ) ^ (p.power + 1) ≤ 10 ^ (p.power + 1 + n) :=
        zpow_le_zpow_right₀ (by norm_num) (by omega)
      have hzero : value ⟨0, 0⟩ = 0 := by simp [value]
      rw [ten_zpow_add_one] at hlast
      rw [hzero, zero_sub, abs_neg, abs_of_nonneg p.value_nonneg]
      linarith
    · have hdrop := p.abs_value_dropDigit_sub_le
      have hrest : |(fitScale n p.dropDigit).value - p.dropDigit.value| ≤
          10 ^ (p.power + 1 + n) - 10 ^ (p.power + 1) := ih p.dropDigit (by positivity)
      rw [ten_zpow_add_one] at hrest
      calc
        |(fitScale n p.dropDigit).value - p.value|
          ≤ |(fitScale n p.dropDigit).value - p.dropDigit.value| + |p.dropDigit.value - p.value| :=
            abs_sub_le _ _ _
        _ ≤ 10 ^ (p.power + 1 + n) - 10 * 10 ^ p.power + 5 * 10 ^ p.power := add_le_add hrest hdrop
        _ ≤ 10 ^ (p.power + 1 + n) - 10 ^ p.power := by linarith

theorem Fits.fitPrecision {p : Partway} (h : p.Fits) {n : Nat} (hn : p.power + n ≤ 0) :
    (fitPrecision n p).Fits ∧ p.power ≤ (fitPrecision n p).power := by
  induction n generalizing p with
  | zero => exact ⟨h, le_refl _⟩
  | succ n ih =>
    rw [Partway.fitPrecision]
    split
    · rw [Nat.cast_succ, add_comm (n : Int), ← add_assoc, ← power_dropDigit] at hn
      obtain ⟨hfits, hpower⟩ := ih (h.dropDigit (by rw [power_dropDigit] at hn; omega)) hn
      exact ⟨hfits, (le_add_of_nonneg_right zero_le_one).trans hpower⟩
    · exact ⟨h, le_refl _⟩

theorem fitPrecision_of_lt {p : Partway} (h : p.mantissa < 2 ^ 52) (n : Nat) : fitPrecision n p = p := by
  cases n with
  | zero => rfl
  | succ n => rw [fitPrecision, if_neg (Nat.not_le.mpr h)]

theorem le_value {p : Partway} (h : 2 ^ 52 ≤ p.mantissa) : 2 ^ 52 * 10 ^ p.power ≤ p.value := by
  have hmantissa : (2 : ℚ) ^ 52 ≤ p.mantissa := by exact_mod_cast h
  exact mul_le_mul_of_nonneg_right hmantissa (by positivity)

/-- Digits are rounded off only as long as there are more than fifteen of them. -/
theorem abs_value_fitPrecision_sub_le (n : Nat) {p : Partway} (h : 2 ^ 52 ≤ p.mantissa) :
    |(fitPrecision n p).value - p.value| ≤ 6 / 2 ^ 52 * p.value - 10 ^ p.power := by
  induction n generalizing p with
  | zero =>
    have hlarge := le_value h
    have hpow : (0 : ℚ) < 10 ^ p.power := by positivity
    rw [fitPrecision, sub_self, abs_zero]
    linarith
  | succ n ih =>
    have hlarge := le_value h
    have hpow : (0 : ℚ) < 10 ^ p.power := by positivity
    have hdrop := p.abs_value_dropDigit_sub_le
    rw [fitPrecision, if_pos h]
    by_cases hmore : 2 ^ 52 ≤ p.dropDigit.mantissa
    · have hrest := ih hmore
      have hplace : (10 : ℚ) ^ p.dropDigit.power = 10 * 10 ^ p.power := ten_zpow_add_one p.power
      have hup := (abs_le.mp hdrop).2
      rw [hplace] at hrest
      calc
        |(fitPrecision n p.dropDigit).value - p.value|
          ≤ |(fitPrecision n p.dropDigit).value - p.dropDigit.value| + |p.dropDigit.value - p.value| :=
            abs_sub_le _ _ _
        _ ≤ 6 / 2 ^ 52 * p.dropDigit.value - 10 * 10 ^ p.power + 5 * 10 ^ p.power :=
            add_le_add hrest hdrop
        _ ≤ 6 / 2 ^ 52 * p.value - 10 ^ p.power := by linarith
    · rw [fitPrecision_of_lt (Nat.lt_of_not_le hmore)]
      linarith

/-! ### All passes -/

/-- The number in the places that a decimal has. -/
def toScale (p : Partway) : Partway :=
  p.fitScale (-p.power - Decimal.maxScale).toNat

/-- The number in the digits that a word determines. -/
def toPrecision (p : Partway) : Partway :=
  p.fitPrecision (-p.power).toNat

theorem Fits.toScale {p : Partway} (h : p.Fits) : p.toScale.Fits ∧ -28 ≤ p.toScale.power := by
  have hpower := h.power
  have hmost : Decimal.maxScale = 28 := rfl
  obtain ⟨hfits, hplaces⟩ := h.fitScale (n := (-p.power - Decimal.maxScale).toNat) (by omega)
  rw [Partway.toScale]
  exact ⟨hfits, by omega⟩

theorem Fits.toPrecision {p : Partway} (h : p.Fits) :
    p.toPrecision.Fits ∧ p.power ≤ p.toPrecision.power := by
  have hpower := h.power
  exact h.fitPrecision (by omega)

theorem abs_value_toScale_sub_le (p : Partway) : |p.toScale.value - p.value| ≤ 1 / 10 ^ 28 := by
  have hmost : (Decimal.maxScale : Int) = 28 := rfl
  rcases le_total (-28) p.power with hfew | hmany
  · have hnone : (-p.power - Decimal.maxScale).toNat = 0 := by omega
    rw [toScale, hnone, fitScale, sub_self, abs_zero]
    norm_num
  · have hlast : p.power + (-p.power - Decimal.maxScale).toNat = -28 := by omega
    have hloss := abs_value_fitScale_sub_le (-p.power - Decimal.maxScale).toNat p
    have hpow : (0 : ℚ) < 10 ^ p.power := by positivity
    have hplace : (10 : ℚ) ^ (-28 : Int) = 1 / 10 ^ 28 := by norm_num
    rw [hlast, hplace] at hloss
    exact hloss.trans (by linarith)

/-- The two roundings together: a unit of the last place that decimals have, and seven parts in
`2 ^ 52`. -/
theorem abs_value_rounded_sub_le {p : Partway} (h : p.Fits) :
    |p.toScale.toPrecision.value - p.value| ≤ 1 / 10 ^ 28 + 7 / 2 ^ 52 * p.value := by
  have hscale := p.abs_value_toScale_sub_le
  have hnonneg := p.value_nonneg
  by_cases hmany : 2 ^ 52 ≤ p.toScale.mantissa
  · have hprecision : |p.toScale.toPrecision.value - p.toScale.value| ≤
        6 / 2 ^ 52 * p.toScale.value - 10 ^ p.toScale.power := abs_value_fitPrecision_sub_le _ hmany
    -- a number of so many digits is large against the last place
    have hlarge : 2 ^ 52 * (1 / 10 ^ 28) ≤ p.toScale.value := by
      refine le_trans ?_ (le_value hmany)
      have hplace : (1 / 10 ^ 28 : ℚ) ≤ 10 ^ p.toScale.power := by
        rw [show (1 / 10 ^ 28 : ℚ) = 10 ^ (-28 : Int) by norm_num]
        exact zpow_le_zpow_right₀ (by norm_num) h.toScale.2
      linarith
    have hpow : (0 : ℚ) < 10 ^ p.toScale.power := by positivity
    have hup := (abs_le.mp hscale).2
    have htriangle := abs_sub_le p.toScale.toPrecision.value p.toScale.value p.value
    generalize (1 / 10 ^ 28 : ℚ) = unit at *
    linarith
  · rw [toPrecision, fitPrecision_of_lt (Nat.lt_of_not_le hmany)]
    linarith

end Partway

theorem Binary64.unpack_significand_lt (x : Binary64) : x.unpack.1 < 2 ^ 53 := by
  have hbits : BinaryFormat.double.fractionBits = 52 := rfl
  simp only [Binary64.unpack, BinaryFormat.unpack, hbits]
  split <;> omega

theorem Binary64.le_unpack_exponent (x : Binary64) : -1074 ≤ x.unpack.2 := by
  have hplace : BinaryFormat.double.minPlace = 1074 := by decide
  have hbits : BinaryFormat.double.fractionBits = 52 := rfl
  simp only [Binary64.unpack, BinaryFormat.unpack, hplace, hbits]
  split <;> omega

theorem Binary64.abs_value (x : Binary64) : |x.value| = x.unpack.1 * 2 ^ x.unpack.2 := by
  have hnonneg := BinaryFormat.double.value_nonneg x.magnitude
  rw [Binary64.value]
  split
  · rw [abs_neg, abs_of_nonneg hnonneg]
    rfl
  · rw [abs_of_nonneg hnonneg]
    rfl

namespace Decimal

open Partway (iterate half)

/-- A decimal that stands for a number with a sign: it is near to the number, and equal to it if the
number is whole. -/
structure StandsFor (d : Decimal) (negative : Bool) (x : ℚ) : Prop where
  sign : d.negative = negative
  near : |d.size - x| ≤ 1 / 10 ^ 28 + x / 2 ^ 49
  whole : (∃ n : Nat, x = n) → d.size = x

theorem standsFor_of_eq {d : Decimal} {negative : Bool} {x : ℚ} (hsign : d.negative = negative)
    (h : d.size = x) : d.StandsFor negative x := by
  refine ⟨hsign, ?_, fun _ => h⟩
  have hnonneg := d.size_nonneg
  rw [h] at hnonneg
  rw [h, sub_self, abs_zero]
  positivity

/-- The digits that are left make a decimal of the same number. -/
theorem exists_ofParts? {p : Partway} (h : p.Fits) (hplaces : -28 ≤ p.power) (negative : Bool) :
    ∃ d, ofParts? negative (stripZeros p.mantissa (-p.power).toNat).1
        (stripZeros p.mantissa (-p.power).toNat).2 = some d ∧
      d.negative = negative ∧ d.size = p.value := by
  have hpower := h.power
  obtain ⟨hless, hfewer⟩ := stripZeros_le p.mantissa (-p.power).toNat
  have hscale : (stripZeros p.mantissa (-p.power).toNat).2 ≤ 28 := hfewer.trans (by omega)
  refine ⟨⟨negative, _, _, hless.trans_lt h.mantissa, hscale⟩,
    ofParts?_eq_some_iff.mpr ⟨rfl, rfl, rfl⟩, rfl, ?_⟩
  have hmul : ((stripZeros p.mantissa (-p.power).toNat).1 : ℚ) * 10 ^ (-p.power).toNat =
      p.mantissa * 10 ^ (stripZeros p.mantissa (-p.power).toNat).2 := by
    exact_mod_cast stripZeros_mul p.mantissa (-p.power).toNat
  have hvalue : p.value = p.mantissa / 10 ^ (-p.power).toNat := by
    rw [Partway.value, div_eq_mul_inv, ← zpow_natCast, Int.toNat_of_nonneg (by omega), ← zpow_neg,
      neg_neg]
  rw [hvalue]
  exact (div_eq_div_iff (by positivity) (by positivity)).mpr hmul

/-- A word with digits after the binary point has a decimal. -/
theorem exists_rounded {m n : Nat} (hm : m < 2 ^ 53) (hn : n ≤ 1074) (negative : Bool) :
    ∃ d, (let p := (iterate half n ⟨m, 0⟩).toScale.toPrecision
        ofParts? negative (stripZeros p.mantissa (-p.power).toNat).1
          (stripZeros p.mantissa (-p.power).toNat).2) = some d ∧
      d.StandsFor negative (m / 2 ^ n) := by
  have hstart : Partway.Fits ⟨m, 0⟩ := ⟨hm.trans (by decide), le_refl 0⟩
  have hhalved := hstart.iterate_half n
  have hscale := hhalved.toScale
  have hprecision := hscale.1.toPrecision
  obtain ⟨d, hd, hsign, hsize⟩ :=
    exists_ofParts? hprecision.1 (hscale.2.trans hprecision.2) negative
  refine ⟨d, hd, hsign, ?_, ?_⟩
  · have hvalue : Partway.value ⟨m, 0⟩ = m := by simp [Partway.value]
    obtain ⟨hlow, hhigh⟩ := Partway.iterate_half_near hn ⟨m, 0⟩
    have hrounded := Partway.abs_value_rounded_sub_le hhalved
    rw [← hsize] at hrounded
    rw [hvalue] at hlow hhigh
    have hdivided : |(iterate half n ⟨m, 0⟩).value - m / 2 ^ n| ≤ m / 2 ^ n * (1 / 2 ^ 83) := by
      rw [abs_le]
      constructor <;> linarith
    have htriangle := abs_sub_le d.size (iterate half n ⟨m, 0⟩).value (m / 2 ^ n)
    generalize (1 / 10 ^ 28 : ℚ) = unit at *
    linarith
  · rintro ⟨k, hk⟩
    have hwhole : m = k * 2 ^ n := by
      rw [div_eq_iff (by positivity)] at hk
      exact_mod_cast hk
    have hkept : (iterate half n ⟨m, 0⟩).toScale.toPrecision = ⟨k, 0⟩ := by
      rw [hwhole, Partway.iterate_half_whole]
      rfl
    rw [hsize, hkept, hk]
    simp [Partway.value]

theorem ofBinary64?_of_nonneg {x : Binary64} (hx : x.isFinite = true) (hzero : x.isZero = false)
    (he : 0 ≤ x.unpack.2) :
    ofBinary64? x = ofParts? x.isNegative (x.unpack.1 * 2 ^ x.unpack.2.toNat) 0 := by
  rw [ofBinary64?, hx, hzero]
  simp only [Bool.not_true, Bool.false_eq_true, if_false, if_pos he]

theorem ofBinary64?_of_neg {x : Binary64} (hx : x.isFinite = true) (hzero : x.isZero = false)
    (he : x.unpack.2 < 0) :
    ofBinary64? x =
      let p := (iterate half (-x.unpack.2).toNat ⟨x.unpack.1, 0⟩).toScale.toPrecision
      ofParts? x.isNegative (stripZeros p.mantissa (-p.power).toNat).1
        (stripZeros p.mantissa (-p.power).toNat).2 := by
  rw [ofBinary64?, hx, hzero]
  simp only [Bool.not_true, Bool.false_eq_true, if_false, if_neg (not_le.mpr he)]
  rfl

/-- Every finite word below `2 ^ 96` has a decimal, and no other has one. -/
theorem ofBinary64?_cases {x : Binary64} (hx : x.isFinite = true) :
    (2 ^ 96 ≤ |x.value| ∧ ofBinary64? x = none) ∨
      (|x.value| < 2 ^ 96 ∧ ∃ d, ofBinary64? x = some d ∧ d.StandsFor x.isNegative |x.value|) := by
  cases hzero : x.isZero with
  | true =>
    have hvalue : |x.value| = 0 := by
      rw [Binary64.isZero, beq_iff_eq] at hzero
      rw [Binary64.value, hzero, BinaryFormat.value_zero]
      simp
    refine .inr ⟨by rw [hvalue]; positivity, ⟨x.isNegative, 0, 0, by decide, by decide⟩, ?_,
      standsFor_of_eq rfl ?_⟩
    · rw [ofBinary64?, hx, hzero]
      rfl
    · rw [hvalue]
      simp [size]
  | false =>
    rcases Int.lt_or_le x.unpack.2 0 with hneg | hnonneg
    · obtain ⟨d, hd, hstands⟩ := exists_rounded x.unpack_significand_lt
        (by have := x.le_unpack_exponent; omega : (-x.unpack.2).toNat ≤ 1074) x.isNegative
      have hvalue : |x.value| = x.unpack.1 / 2 ^ (-x.unpack.2).toNat := by
        rw [x.abs_value, BinaryFormat.two_zpow_of_neg hneg, div_eq_mul_inv]
      rw [← hvalue] at hstands
      refine .inr ⟨?_, d, (ofBinary64?_of_neg hx hzero hneg).trans hd, hstands⟩
      have hsignificand : (x.unpack.1 : ℚ) < 2 ^ 96 := by
        exact_mod_cast x.unpack_significand_lt.trans (by decide)
      rw [hvalue]
      exact (div_le_self (Nat.cast_nonneg _) (one_le_pow₀ (by norm_num))).trans_lt hsignificand
    · have hvalue : |x.value| = (x.unpack.1 * 2 ^ x.unpack.2.toNat : Nat) := by
        rw [x.abs_value, BinaryFormat.two_zpow_of_nonneg hnonneg]
        push_cast
        rfl
      rw [ofBinary64?_of_nonneg hx hzero hnonneg, hvalue]
      generalize x.unpack.1 * 2 ^ x.unpack.2.toNat = n
      by_cases hfits : n < 2 ^ 96
      · refine .inr ⟨by exact_mod_cast hfits, ⟨x.isNegative, n, 0, hfits, by decide⟩,
          ofParts?_eq_some_iff.mpr ⟨rfl, rfl, rfl⟩, standsFor_of_eq rfl ?_⟩
        rw [size, pow_zero, div_one]
      · exact .inl ⟨by exact_mod_cast Nat.le_of_not_lt hfits, dif_neg fun h => hfits h.1⟩

/-- What stands for the size of a word with its sign is as near to the word. -/
theorem StandsFor.value_near {x : Binary64} {d : Decimal} (h : d.StandsFor x.isNegative |x.value|) :
    |d.value - x.value| ≤ 1 / 10 ^ 28 + |x.value| / 2 ^ 49 ∧
      ((∃ i : ℤ, x.value = i) → d.value = x.value) := by
  obtain ⟨hsign, hnear, hwhole⟩ := h
  have hsigned : x.value = if x.isNegative then -|x.value| else |x.value| := by
    rw [x.abs_value]
    rfl
  have hvalue : d.value = if x.isNegative then -d.size else d.size := by rw [value_eq_size, hsign]
  constructor
  · refine le_trans (le_of_eq ?_) hnear
    rw [hvalue]
    nth_rewrite 1 [hsigned]
    split
    · rw [neg_sub_neg, abs_sub_comm]
    · rfl
  · rintro ⟨i, hi⟩
    have hsize : d.size = |x.value| := hwhole ⟨i.natAbs, by rw [hi, Nat.cast_natAbs, Int.cast_abs]⟩
    rw [hvalue, hsize, ← hsigned]

end Decimal

end Polystore.Number
