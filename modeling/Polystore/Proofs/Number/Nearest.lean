import Mathlib.Algebra.Order.Field.Power
import Mathlib.Algebra.Order.Field.Rat
import Mathlib.Tactic.FieldSimp
import Mathlib.Tactic.Linarith
import Mathlib.Tactic.NormNum
import Mathlib.Tactic.Positivity
import Mathlib.Tactic.Ring
import Polystore.Number.Binary

/-!
Rounding to binary words keeps the order: of two quotients the greater one is not rounded to the lesser
word, and of two words the one with more bits denotes the greater number. Main statement: a product
does not get less if one of its factors gets greater.
-/

namespace Polystore.Number

/-- A whole number nearest to a number, and even if there is another one as near. -/
structure IsNearest (x : ℚ) (n : Nat) : Prop where
  low : x - 1 / 2 ≤ n
  high : n ≤ x + 1 / 2
  even : n = x - 1 / 2 ∨ n = x + 1 / 2 → n % 2 = 0

theorem IsNearest.mono {x y : ℚ} {m n : Nat} (hm : IsNearest x m) (hn : IsNearest y n)
    (h : x ≤ y) : m ≤ n := by
  by_contra hlt
  have hnext : (n : ℚ) + 1 ≤ m := by exact_mod_cast Nat.not_le.mp hlt
  -- they are neighbours with both numbers half way between them, and then both are even
  have hmlow := hm.high
  have hnhigh := hn.low
  have hmeven := hm.even (.inr (by linarith))
  have hneven := hn.even (.inl (by linarith))
  have hsucc : m = n + 1 := by
    have : (m : ℚ) = n + 1 := by linarith
    exact_mod_cast this
  omega

theorem isNearest_self (n : Nat) : IsNearest n n where
  low := by linarith
  high := by linarith
  even := by
    rintro (h | h)
    · linarith
    · linarith

namespace BinaryFormat

theorem isNearest_roundHalfEven (num : Nat) {den : Nat} (hden : 0 < den) :
    IsNearest (num / den) (roundHalfEven num den) := by
  have hpos : (0 : ℚ) < den := by exact_mod_cast hden
  have hsplit : (num : ℚ) / den = (num / den : Nat) + (num % den : Nat) / den := by
    rw [div_eq_iff hpos.ne', add_mul, div_mul_cancel₀ _ hpos.ne']
    exact_mod_cast (Nat.div_add_mod' num den).symm
  have hrest : ((num % den : Nat) : ℚ) / den < 1 := by
    rw [div_lt_one hpos]
    exact_mod_cast Nat.mod_lt num hden
  have hnonneg : (0 : ℚ) ≤ ((num % den : Nat) : ℚ) / den := by positivity
  have hhalf : ((num % den : Nat) : ℚ) / den = 1 / 2 ↔ 2 * (num % den) = den := by
    rw [div_eq_iff hpos.ne']
    constructor
    · intro h
      have : (2 * (num % den : Nat) : ℚ) = den := by linarith
      exact_mod_cast this
    · intro h
      have : (2 * (num % den : Nat) : ℚ) = den := by exact_mod_cast h
      linarith
  have hover : 1 / 2 ≤ ((num % den : Nat) : ℚ) / den ↔ den ≤ 2 * (num % den) := by
    rw [le_div_iff₀ hpos]
    constructor
    · intro h
      have : (den : ℚ) ≤ 2 * (num % den : Nat) := by linarith
      exact_mod_cast this
    · intro h
      have : (den : ℚ) ≤ 2 * (num % den : Nat) := by exact_mod_cast h
      linarith
  simp only [roundHalfEven, Bool.or_eq_true, Bool.and_eq_true, decide_eq_true_eq, beq_iff_eq]
  rw [hsplit]
  split
  · next hup =>
    have hlarge : 1 / 2 ≤ ((num % den : Nat) : ℚ) / den := by
      rw [hover]
      omega
    refine ⟨by push_cast; linarith, by push_cast; linarith, ?_⟩
    push_cast
    rintro (h | h)
    · linarith
    · have heven : 2 * (num % den) = den := by
        rw [← hhalf]
        linarith
      omega
  · next hdown =>
    have hsmall : ((num % den : Nat) : ℚ) / den ≤ 1 / 2 := by
      by_contra hlarge
      have hle := hover.mp (not_le.mp hlarge).le
      have hne : 2 * (num % den) ≠ den := fun h => hlarge (hhalf.mpr h).le
      omega
    refine ⟨by linarith, by linarith, ?_⟩
    rintro (h | h)
    · have heven : 2 * (num % den) = den := by
        rw [← hhalf]
        linarith
      omega
    · linarith

theorem two_zpow_of_nonneg {e : Int} (h : 0 ≤ e) : (2 : ℚ) ^ e = 2 ^ e.toNat := by
  rw [← zpow_natCast, Int.toNat_of_nonneg h]

theorem two_zpow_of_neg {e : Int} (h : e < 0) : (2 : ℚ) ^ e = (2 ^ (-e).toNat)⁻¹ := by
  rw [← zpow_natCast, Int.toNat_of_nonneg (by omega), zpow_neg, inv_inv]

theorem lt_scaled_iff (num : Nat) {den : Nat} (hden : 0 < den) (e : Int) (k : Nat) :
    (if 0 ≤ e then num < den * 2 ^ e.toNat * 2 ^ k else num * 2 ^ (-e).toNat < den * 2 ^ k) ↔
      (num : ℚ) / den < 2 ^ (e + k) := by
  have hpos : (0 : ℚ) < den := by exact_mod_cast hden
  rw [zpow_add₀ two_ne_zero, zpow_natCast, div_lt_iff₀ hpos]
  split
  · next h =>
    rw [two_zpow_of_nonneg h, ← Nat.cast_lt (α := ℚ)]
    push_cast
    rw [mul_comm (den : ℚ), mul_assoc, mul_comm (den : ℚ), ← mul_assoc]
  · next h =>
    have htwo : (0 : ℚ) < 2 ^ (-e).toNat := by positivity
    rw [two_zpow_of_neg (not_le.mp h), ← Nat.cast_lt (α := ℚ)]
    push_cast
    rw [← lt_div_iff₀ htwo]
    have hsame : (den : ℚ) * 2 ^ k / 2 ^ (-e).toNat = (2 ^ (-e).toNat)⁻¹ * 2 ^ k * den := by
      field_simp
    rw [hsame]

variable (format : BinaryFormat)

theorem placeOf_eq (num : Nat) {den : Nat} (hden : 0 < den) :
    format.placeOf num den =
      max (if (num : ℚ) / den < 2 ^ ((num.log2 : Int) - den.log2 - format.fractionBits - 1 +
          (format.fractionBits + 1 : Nat)) then
          (num.log2 : Int) - den.log2 - format.fractionBits - 1
        else (num.log2 : Int) - den.log2 - format.fractionBits - 1 + 1)
        (-(format.minPlace : Int)) := by
  rw [placeOf]
  congr 1
  refine if_congr ?_ rfl rfl
  rw [← lt_scaled_iff num hden]
  split
  · exact decide_eq_true_iff
  · exact decide_eq_true_iff

/-- The weight of the last place of the word nearest to a quotient: there is room for the quotient above
it, and no place is given up but for want of smaller ones. -/
theorem placeOf_spec {num den : Nat} (hnum : num ≠ 0) (hden : 0 < den) :
    (num : ℚ) / den < 2 ^ (format.placeOf num den + format.fractionBits + 1) ∧
      -(format.minPlace : Int) ≤ format.placeOf num den ∧
      (format.placeOf num den = -(format.minPlace : Int) ∨
        (2 : ℚ) ^ (format.placeOf num den + format.fractionBits) ≤ (num : ℚ) / den) := by
  have hpos : (0 : ℚ) < den := by exact_mod_cast hden
  have hnumLow : (2 : ℚ) ^ (num.log2 : Int) ≤ num := by
    rw [zpow_natCast]
    exact_mod_cast Nat.log2_self_le hnum
  have hnumHigh : (num : ℚ) < 2 ^ ((num.log2 : Int) + 1) := by
    rw [← Nat.cast_succ, zpow_natCast]
    exact_mod_cast Nat.lt_log2_self
  have hdenLow : (2 : ℚ) ^ (den.log2 : Int) ≤ den := by
    rw [zpow_natCast]
    exact_mod_cast Nat.log2_self_le hden.ne'
  have hdenHigh : (den : ℚ) < 2 ^ ((den.log2 : Int) + 1) := by
    rw [← Nat.cast_succ, zpow_natCast]
    exact_mod_cast Nat.lt_log2_self
  have hlow : (2 : ℚ) ^ ((num.log2 : Int) - den.log2 - 1) ≤ num / den := by
    rw [le_div_iff₀ hpos]
    calc
      (2 : ℚ) ^ ((num.log2 : Int) - den.log2 - 1) * den
        ≤ 2 ^ ((num.log2 : Int) - den.log2 - 1) * 2 ^ ((den.log2 : Int) + 1) :=
          mul_le_mul_of_nonneg_left hdenHigh.le (by positivity)
      _ = 2 ^ (num.log2 : Int) := by
          rw [← zpow_add₀ two_ne_zero]
          congr 1
          ring
      _ ≤ num := hnumLow
  have hhigh : (num : ℚ) / den < 2 ^ ((num.log2 : Int) - den.log2 + 1) := by
    rw [div_lt_iff₀ hpos]
    calc
      (num : ℚ) < 2 ^ ((num.log2 : Int) + 1) := hnumHigh
      _ = 2 ^ ((num.log2 : Int) - den.log2 + 1) * 2 ^ (den.log2 : Int) := by
          rw [← zpow_add₀ two_ne_zero]
          congr 1
          ring
      _ ≤ 2 ^ ((num.log2 : Int) - den.log2 + 1) * den :=
          mul_le_mul_of_nonneg_left hdenLow (by positivity)
  obtain ⟨first, hfirst, hroom, hleast⟩ : ∃ first : Int,
      format.placeOf num den = max first (-(format.minPlace : Int)) ∧
      (num : ℚ) / den < 2 ^ (first + format.fractionBits + 1) ∧
      (2 : ℚ) ^ (first + format.fractionBits) ≤ num / den := by
    refine ⟨_, placeOf_eq format num hden, ?_⟩
    split
    · next hfit =>
      refine ⟨by rwa [Nat.cast_succ, ← add_assoc] at hfit, ?_⟩
      rwa [show (num.log2 : Int) - den.log2 - format.fractionBits - 1 + format.fractionBits =
        num.log2 - den.log2 - 1 by ring]
    · next hfit =>
      refine ⟨?_, ?_⟩
      · rwa [show (num.log2 : Int) - den.log2 - format.fractionBits - 1 + 1 + format.fractionBits + 1 =
          num.log2 - den.log2 + 1 by ring]
      · rw [add_assoc, add_comm (1 : Int)]
        exact not_lt.mp hfit
  rw [hfirst]
  refine ⟨hroom.trans_le ?_, le_max_right _ _, ?_⟩
  · exact zpow_le_zpow_right₀ (by norm_num) (by have := le_max_left first (-(format.minPlace : Int)); linarith)
  · rcases max_choice first (-(format.minPlace : Int)) with h | h
    · rw [h]
      exact .inr hleast
    · exact .inl h

/-- The quotient counted in last places, rounded. -/
def significandOf (num den : Nat) : Nat :=
  let place := format.placeOf num den
  if 0 ≤ place then roundHalfEven num (den * 2 ^ place.toNat)
  else roundHalfEven (num * 2 ^ (-place).toNat) den

theorem roundRatio_eq {num : Nat} (hnum : num ≠ 0) (den : Nat) :
    format.roundRatio num den =
      min ((format.placeOf num den + format.minPlace).toNat * 2 ^ format.fractionBits +
        format.significandOf num den) format.infinity := by
  rw [roundRatio, if_neg hnum]
  rfl

theorem isNearest_significandOf (num : Nat) {den : Nat} (hden : 0 < den) :
    IsNearest (num / den / 2 ^ format.placeOf num den) (format.significandOf num den) := by
  simp only [significandOf]
  split
  · next h =>
    have hpos : 0 < den * 2 ^ (format.placeOf num den).toNat := by positivity
    have hnearest := isNearest_roundHalfEven num hpos
    rw [two_zpow_of_nonneg h, div_div]
    exact_mod_cast hnearest
  · next h =>
    have hnearest := isNearest_roundHalfEven (num * 2 ^ (-format.placeOf num den).toNat) hden
    rw [two_zpow_of_neg (not_le.mp h), div_inv_eq_mul, div_mul_eq_mul_div]
    exact_mod_cast hnearest

theorem significandOf_le {num den : Nat} (hnum : num ≠ 0) (hden : 0 < den) :
    format.significandOf num den ≤ 2 ^ (format.fractionBits + 1) := by
  have hspec := (format.placeOf_spec hnum hden).1
  refine (format.isNearest_significandOf num hden).mono (isNearest_self _) ?_
  rw [add_assoc, zpow_add₀ two_ne_zero, mul_comm] at hspec
  rw [div_le_iff₀ (by positivity)]
  exact_mod_cast hspec.le

theorem le_significandOf {num den : Nat} (hnum : num ≠ 0) (hden : 0 < den)
    (h : format.placeOf num den ≠ -(format.minPlace : Int)) :
    2 ^ format.fractionBits ≤ format.significandOf num den := by
  have hspec := (format.placeOf_spec hnum hden).2.2.resolve_left h
  refine (isNearest_self _).mono (format.isNearest_significandOf num hden) ?_
  rw [zpow_add₀ two_ne_zero, mul_comm] at hspec
  rw [le_div_iff₀ (by positivity)]
  exact_mod_cast hspec

theorem roundRatio_mono {num den num' den' : Nat} (hden : 0 < den) (hden' : 0 < den')
    (h : (num : ℚ) / den ≤ num' / den') :
    format.roundRatio num den ≤ format.roundRatio num' den' := by
  by_cases hnum : num = 0
  · rw [hnum, roundRatio, if_pos rfl]
    exact Nat.zero_le _
  have hpos : (0 : ℚ) < num / den := by
    have : 0 < num := Nat.pos_of_ne_zero hnum
    positivity
  have hnum' : num' ≠ 0 := by
    rintro rfl
    rw [Nat.cast_zero, zero_div] at h
    exact absurd h (not_le.mpr hpos)
  obtain ⟨hroom, hplace, -⟩ := format.placeOf_spec hnum hden
  obtain ⟨hroom', hplace', hleast'⟩ := format.placeOf_spec hnum' hden'
  rw [format.roundRatio_eq hnum, format.roundRatio_eq hnum']
  refine min_le_min_right _ ?_
  rcases lt_trichotomy (format.placeOf num den) (format.placeOf num' den') with hlt | heq | hgt
  · -- the lesser significand may fill up its place, and the greater one begins the next
    have hle := format.significandOf_le hnum hden
    have hge := format.le_significandOf hnum' hden' (by omega)
    obtain ⟨k, hk⟩ : ∃ k, (format.placeOf num' den' + format.minPlace).toNat =
        (format.placeOf num den + format.minPlace).toNat + 1 + k := Nat.exists_eq_add_of_le (by omega)
    rw [hk, Nat.add_mul, Nat.add_mul, Nat.one_mul]
    rw [Nat.pow_succ] at hle
    omega
  · have hmono : format.significandOf num den ≤ format.significandOf num' den' := by
      refine (format.isNearest_significandOf num hden).mono
        (format.isNearest_significandOf num' hden') ?_
      rw [heq]
      exact div_le_div_of_nonneg_right h (by positivity)
    rw [heq]
    omega
  · -- the lesser quotient would have to be the greater one
    have hleast := (format.placeOf_spec hnum hden).2.2.resolve_left (by omega)
    have hchain := (hleast.trans h).trans_lt hroom'
    have := (zpow_lt_zpow_iff_right₀ (by norm_num : (1 : ℚ) < 2)).mp hchain
    omega

/-- The number that magnitude bits denote. -/
def value (magnitude : Nat) : ℚ :=
  (format.unpack magnitude).1 * 2 ^ (format.unpack magnitude).2

theorem value_nonneg (magnitude : Nat) : 0 ≤ format.value magnitude := by
  unfold value
  positivity

theorem value_lt (a : Nat) :
    format.value a < 2 ^ format.fractionBits *
      2 ^ (((a / 2 ^ format.fractionBits : Nat) : Int) - format.minPlace) := by
  have hfraction : ((a % 2 ^ format.fractionBits : Nat) : ℚ) < 2 ^ format.fractionBits := by
    exact_mod_cast Nat.mod_lt a (Nat.two_pow_pos _)
  simp only [value, unpack]
  split
  · next hzero =>
    rw [hzero, Nat.cast_zero, zero_sub]
    exact mul_lt_mul_of_pos_right hfraction (by positivity)
  · have htwice : ((a / 2 ^ format.fractionBits : Nat) : Int) - format.minPlace =
        1 + (((a / 2 ^ format.fractionBits : Nat) : Int) - 1 - format.minPlace) := by ring
    rw [htwice, zpow_add₀ two_ne_zero, zpow_one, ← mul_assoc]
    refine mul_lt_mul_of_pos_right ?_ (by positivity)
    push_cast at hfraction ⊢
    linarith

theorem le_value {b : Nat} (h : b / 2 ^ format.fractionBits ≠ 0) :
    (2 : ℚ) ^ format.fractionBits *
      2 ^ (((b / 2 ^ format.fractionBits : Nat) : Int) - 1 - format.minPlace) ≤ format.value b := by
  simp only [value, unpack, if_neg h]
  refine mul_le_mul_of_nonneg_right ?_ (by positivity)
  push_cast
  exact le_add_of_nonneg_right (Nat.cast_nonneg _)

theorem value_strictMono : StrictMono format.value := by
  intro a b h
  have hfields : a / 2 ^ format.fractionBits ≤ b / 2 ^ format.fractionBits := Nat.div_le_div_right h.le
  rcases hfields.lt_or_eq with hlt | heq
  · refine (format.value_lt a).trans_le (le_trans ?_ (format.le_value (Nat.ne_zero_of_lt hlt)))
    refine mul_le_mul_of_nonneg_left ?_ (by positivity)
    exact zpow_le_zpow_right₀ (by norm_num) (by omega)
  · have hfractions : a % 2 ^ format.fractionBits < b % 2 ^ format.fractionBits := by
      have ha := Nat.div_add_mod a (2 ^ format.fractionBits)
      have hb := Nat.div_add_mod b (2 ^ format.fractionBits)
      rw [heq] at ha
      omega
    have hcast : ((a % 2 ^ format.fractionBits : Nat) : ℚ) < (b % 2 ^ format.fractionBits : Nat) := by
      exact_mod_cast hfractions
    simp only [value, unpack, heq]
    split
    · exact mul_lt_mul_of_pos_right hcast (by positivity)
    · refine mul_lt_mul_of_pos_right ?_ (by positivity)
      push_cast at hcast ⊢
      linarith

theorem value_mono {a b : Nat} (h : a ≤ b) : format.value a ≤ format.value b :=
  format.value_strictMono.monotone h

theorem value_zero : format.value 0 = 0 := by
  simp [value, unpack]

end BinaryFormat

namespace Binary64

open BinaryFormat

theorem magnitude_ofMagnitude (negative : Bool) {n : Nat} (h : n < 2 ^ 63) :
    (ofMagnitude negative n).magnitude = n := by
  cases negative with
  | false =>
    simp only [magnitude, ofMagnitude, Bool.false_eq_true, if_false, UInt64.toNat_ofNat']
    omega
  | true =>
    simp only [magnitude, ofMagnitude, if_true, UInt64.toNat_ofNat']
    omega

theorem roundRatio_le_infinity (num den : Nat) : double.roundRatio num den ≤ double.infinity := by
  unfold roundRatio
  split
  · exact Nat.zero_le _
  · exact Nat.min_le_right _ _

theorem roundRatio_lt (num den : Nat) : double.roundRatio num den < 2 ^ 63 :=
  Nat.lt_of_le_of_lt (roundRatio_le_infinity num den) (by decide)

theorem magnitude_ofRatio (negative : Bool) (num den : Nat) :
    (ofRatio negative num den).magnitude = double.roundRatio num den :=
  magnitude_ofMagnitude negative (roundRatio_lt num den)

theorem magnitude_ofRatio_mono (negative : Bool) {n m : Nat} (h : n ≤ m) :
    (ofRatio negative n 1).magnitude ≤ (ofRatio negative m 1).magnitude := by
  rw [magnitude_ofRatio, magnitude_ofRatio]
  refine double.roundRatio_mono one_pos one_pos ?_
  rw [Nat.cast_one, div_one, div_one]
  exact_mod_cast h

theorem ofScaled_eq (negative : Bool) (significand : Nat) (e : Int) : ∃ num den : Nat, 0 < den ∧
    (num : ℚ) / den = significand * 2 ^ e ∧
    (ofScaled negative significand e).magnitude = double.roundRatio num den := by
  rw [ofScaled]
  split
  · next h =>
    refine ⟨_, 1, one_pos, ?_, magnitude_ofRatio _ _ _⟩
    rw [two_zpow_of_nonneg h]
    push_cast
    rw [div_one]
  · next h =>
    refine ⟨_, _, Nat.two_pow_pos _, ?_, magnitude_ofRatio _ _ _⟩
    rw [two_zpow_of_neg (not_le.mp h)]
    push_cast
    rw [div_eq_mul_inv]

/-- A product is the word nearest to the product of the numbers. -/
theorem mul_eq (x y : Binary64) : ∃ num den : Nat, 0 < den ∧
    (num : ℚ) / den = double.value x.magnitude * double.value y.magnitude ∧
    (x.mul y).magnitude = double.roundRatio num den := by
  obtain ⟨num, den, hden, hvalue, hmagnitude⟩ := ofScaled_eq (x.isNegative != y.isNegative)
    (x.unpack.1 * y.unpack.1) (x.unpack.2 + y.unpack.2)
  refine ⟨num, den, hden, hvalue.trans ?_, hmagnitude⟩
  rw [zpow_add₀ two_ne_zero, Nat.cast_mul, mul_mul_mul_comm]
  rfl

/-- A quotient is the word nearest to the quotient of the numbers. -/
theorem div_eq (x : Binary64) {y : Binary64} (hy : 0 < double.value y.magnitude) :
    ∃ num den : Nat, 0 < den ∧
      (num : ℚ) / den = double.value x.magnitude / double.value y.magnitude ∧
      (x.div y).magnitude = double.roundRatio num den := by
  have hsignificand : 0 < y.unpack.1 := by
    rw [Nat.pos_iff_ne_zero]
    intro hzero
    rw [BinaryFormat.value, show (double.unpack y.magnitude).1 = 0 from hzero] at hy
    simp at hy
  have hvalue (x : Binary64) : double.value x.magnitude = x.unpack.1 * 2 ^ x.unpack.2 := rfl
  rw [hvalue, hvalue, mul_div_mul_comm, ← zpow_sub₀ two_ne_zero]
  simp only [div]
  split
  · next h =>
    refine ⟨_, _, hsignificand, ?_, magnitude_ofRatio _ _ _⟩
    rw [two_zpow_of_nonneg (by omega)]
    push_cast
    rw [div_mul_eq_mul_div]
  · next h =>
    refine ⟨_, _, Nat.mul_pos hsignificand (Nat.two_pow_pos _), ?_, magnitude_ofRatio _ _ _⟩
    rw [two_zpow_of_neg (by omega), Int.neg_sub]
    push_cast
    rw [div_mul_eq_div_div, div_eq_mul_inv (_ / _)]

theorem magnitude_mul_mono {x x' : Binary64} (h : x.magnitude ≤ x'.magnitude) (y : Binary64) :
    (x.mul y).magnitude ≤ (x'.mul y).magnitude := by
  obtain ⟨num, den, hden, hvalue, hmul⟩ := mul_eq x y
  obtain ⟨num', den', hden', hvalue', hmul'⟩ := mul_eq x' y
  rw [hmul, hmul']
  refine double.roundRatio_mono hden hden' ?_
  rw [hvalue, hvalue']
  exact mul_le_mul_of_nonneg_right (double.value_mono h) (double.value_nonneg _)

end Binary64

end Polystore.Number
