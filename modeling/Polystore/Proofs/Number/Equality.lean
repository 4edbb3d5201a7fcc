import Mathlib.Order.WithBot
import Polystore.Proofs.Number.Nearest
import Polystore.Proofs.Number.Value

/-!
Numeric equality. Main statements: decimals have the same normal form exactly if they denote the same
number, and words count as the same exactly if they denote the same, be it a number, an infinity or
nothing.
-/

namespace Polystore.Number

namespace Decimal

theorem numEq_iff_value_eq (d e : Decimal) : d.numEq e = true ↔ d.value = e.value := by
  rw [numEq, beq_iff_eq, value, value, div_eq_div_iff (by positivity) (by positivity)]
  norm_cast

/-- A decimal in its fewest places; its sign is that of its number. -/
structure Normal (d : Decimal) : Prop where
  reduced : d.scale = 0 ∨ d.mantissa % 10 ≠ 0
  unsigned : d.mantissa = 0 → d.negative = false

theorem stripZeros_reduced (mantissa scale : Nat) :
    (stripZeros mantissa scale).2 = 0 ∨ (stripZeros mantissa scale).1 % 10 ≠ 0 := by
  induction scale generalizing mantissa with
  | zero => exact .inl rfl
  | succ scale ih =>
    rw [stripZeros]
    split
    · exact ih _
    · next h => exact .inr h

theorem stripZeros_ne_zero {mantissa : Nat} (h : mantissa ≠ 0) (scale : Nat) :
    (stripZeros mantissa scale).1 ≠ 0 := by
  intro hzero
  have hmul := stripZeros_mul mantissa scale
  rw [hzero, Nat.zero_mul] at hmul
  exact (Nat.mul_ne_zero h (pow_ne_zero _ (by decide))) hmul.symm

theorem normal_normalize (d : Decimal) : d.normalize.Normal := by
  rw [normalize]
  split
  · exact ⟨.inl rfl, fun _ => rfl⟩
  · next h => exact ⟨stripZeros_reduced _ _, fun hzero => absurd hzero (stripZeros_ne_zero h _)⟩

theorem value_normalize (d : Decimal) : d.normalize.value = d.value := by
  rw [← numEq_iff_value_eq, numEq, beq_iff_eq, normalize]
  split
  · next h => cases hsign : d.negative <;> simp [signed, zero, h, hsign]
  · have hmul : (((stripZeros d.mantissa d.scale).1 * 10 ^ d.scale : Nat) : Int) =
        (d.mantissa * 10 ^ (stripZeros d.mantissa d.scale).2 : Nat) :=
      congrArg Nat.cast (stripZeros_mul d.mantissa d.scale)
    push_cast at hmul
    cases hsign : d.negative with
    | false => simpa [signed, hsign] using hmul
    | true => simpa [signed, hsign, Int.neg_mul] using hmul

theorem parts_eq_of_reduced {m n s t : Nat} (hm : s = 0 ∨ m % 10 ≠ 0) (hn : t = 0 ∨ n % 10 ≠ 0)
    (h : m * 10 ^ t = n * 10 ^ s) : m = n ∧ s = t := by
  -- the one with more places would end in a zero
  wlog hle : s ≤ t generalizing m n s t with hother
  · obtain ⟨hmantissa, hscale⟩ := hother hn hm h.symm (Nat.le_of_not_le hle)
    exact ⟨hmantissa.symm, hscale.symm⟩
  obtain ⟨k, rfl⟩ := Nat.exists_eq_add_of_le hle
  have hshift : m * 10 ^ k = n := by
    rw [Nat.pow_add, Nat.mul_left_comm, Nat.mul_comm n] at h
    exact Nat.eq_of_mul_eq_mul_left (Nat.pow_pos (by decide)) h
  cases k with
  | zero => exact ⟨by simpa using hshift, rfl⟩
  | succ k =>
    have hzero : n % 10 = 0 := by
      rw [← hshift, Nat.pow_succ, ← Nat.mul_assoc]
      exact Nat.mul_mod_left _ _
    omega

theorem Normal.eq_of_value_eq {d e : Decimal} (hd : d.Normal) (he : e.Normal)
    (h : d.value = e.value) : d = e := by
  have hsigned : d.signed * 10 ^ e.scale = e.signed * 10 ^ d.scale := by
    rw [← numEq_iff_value_eq, numEq, beq_iff_eq] at h
    exact h
  have hsize : d.mantissa * 10 ^ e.scale = e.mantissa * 10 ^ d.scale := by
    have habs (c : Decimal) : c.signed.natAbs = c.mantissa := by
      rw [signed]
      split <;> omega
    have hnat := congrArg Int.natAbs hsigned
    rwa [Int.natAbs_mul, Int.natAbs_mul, habs, habs, Int.natAbs_pow, Int.natAbs_pow] at hnat
  obtain ⟨hmantissa, hscale⟩ := parts_eq_of_reduced hd.reduced he.reduced hsize
  have hsign : d.negative = e.negative := by
    by_cases hzero : d.mantissa = 0
    · rw [hd.unsigned hzero, he.unsigned (hmantissa ▸ hzero)]
    · have hpow : (10 : Int) ^ e.scale ≠ 0 := pow_ne_zero _ (by decide)
      rw [hscale] at hsigned
      have heq : d.signed = e.signed := Int.eq_of_mul_eq_mul_right hpow hsigned
      rw [signed, signed] at heq
      cases hdsign : d.negative <;> cases hesign : e.negative <;> simp [hdsign, hesign] at heq ⊢ <;>
        omega
  obtain ⟨_, _, _, _, _⟩ := d
  obtain ⟨_, _, _, _, _⟩ := e
  simp only at hmantissa hscale hsign
  subst hmantissa hscale hsign
  rfl

theorem normalize_eq_iff (d e : Decimal) : d.normalize = e.normalize ↔ d.value = e.value := by
  constructor
  · intro h
    rw [← value_normalize d, h, value_normalize]
  · intro h
    apply (normal_normalize d).eq_of_value_eq (normal_normalize e)
    rw [value_normalize, value_normalize, h]

theorem normalize_normalize (d : Decimal) : d.normalize.normalize = d.normalize :=
  (normalize_eq_iff _ _).mpr (value_normalize d)

end Decimal

namespace Binary64

open BinaryFormat

theorem ext_magnitude {x y : Binary64} (hsign : x.isNegative = y.isNegative)
    (hmagnitude : x.magnitude = y.magnitude) : x = y := by
  obtain ⟨⟨a⟩⟩ := x
  obtain ⟨⟨b⟩⟩ := y
  simp only [isNegative, magnitude, decide_eq_decide] at hsign hmagnitude
  congr
  apply BitVec.eq_of_toNat_eq
  change 2 ^ 63 ≤ a.toNat ↔ 2 ^ 63 ≤ b.toNat at hsign
  change a.toNat % 2 ^ 63 = b.toNat % 2 ^ 63 at hmagnitude
  have ha := a.isLt
  have hb := b.isLt
  omega

/-- The number that a finite word denotes. -/
def value (x : Binary64) : ℚ :=
  if x.isNegative then -double.value x.magnitude else double.value x.magnitude

/-- What a word denotes: a number, or what is below or above all numbers, or nothing. -/
def number? (x : Binary64) : Option (WithBot (WithTop ℚ)) :=
  if x.isNaN then none
  else if x.isInfinite then some (if x.isNegative then ⊥ else ⊤)
  else some (x.value : WithTop ℚ)

theorem value_eq_iff {x y : Binary64} : x.value = y.value ↔ x = y ∨ (x.isZero && y.isZero) = true := by
  have hzero (x : Binary64) : double.value x.magnitude = 0 ↔ x.isZero = true := by
    rw [← double.value_zero, double.value_strictMono.injective.eq_iff, isZero, beq_iff_eq]
  constructor
  · intro h
    have hx := double.value_nonneg x.magnitude
    have hy := double.value_nonneg y.magnitude
    rw [value, value] at h
    rw [Bool.and_eq_true, ← hzero, ← hzero]
    by_cases hsign : x.isNegative = y.isNegative
    · have hvalue : double.value x.magnitude = double.value y.magnitude := by
        rw [hsign] at h
        split at h
        · exact neg_injective h
        · exact h
      exact .inl (ext_magnitude hsign (double.value_strictMono.injective hvalue))
    · right
      cases hxs : x.isNegative <;> cases hys : y.isNegative <;> simp [hxs, hys] at h hsign
      all_goals constructor <;> linarith
  · rintro (rfl | h)
    · rfl
    · rw [Bool.and_eq_true, ← hzero, ← hzero] at h
      simp [value, h.1, h.2]

theorem isZero_of_isInfinite {x : Binary64} (h : x.isInfinite = true) : x.isZero = false := by
  rw [isInfinite, beq_iff_eq] at h
  rw [isZero, h]
  decide

/-- The words of the two infinities differ in their signs alone. -/
theorem eq_iff_of_isInfinite {x y : Binary64} (hx : x.isInfinite = true) (hy : y.isInfinite = true) :
    x = y ↔ x.isNegative = y.isNegative := by
  refine ⟨fun h => h ▸ rfl, fun hsign => ext_magnitude hsign ?_⟩
  rw [isInfinite, beq_iff_eq] at hx hy
  rw [hx, hy]

theorem ne_of_isInfinite {x y : Binary64} (hx : x.isInfinite = false) (hy : y.isInfinite = true) :
    x ≠ y := by
  rintro rfl
  exact Bool.false_ne_true (hx.symm.trans hy)

/-- Words are compared by what they denote. -/
theorem sameNumber_iff_number?_eq (x y : Binary64) :
    x.sameNumber y = true ↔ x.number? = y.number? := by
  cases hx : x.isNaN <;> cases hy : y.isNaN
  case false.false =>
    have hsame : x.sameNumber y = true ↔ x = y ∨ (x.isZero && y.isZero) = true := by
      simp [sameNumber, numEq, hx, hy]
    rw [hsame]
    cases hxi : x.isInfinite <;> cases hyi : y.isInfinite
    case false.false =>
      rw [← value_eq_iff]
      simp [number?, hx, hy, hxi, hyi, WithBot.coe_inj, WithTop.coe_inj]
    case true.true =>
      rw [eq_iff_of_isInfinite hxi hyi, isZero_of_isInfinite hxi]
      cases hxs : x.isNegative <;> cases hys : y.isNegative <;>
        simp [number?, hx, hy, hxi, hyi, hxs, hys]
    case false.true =>
      cases hys : y.isNegative <;>
        simp [number?, hx, hy, hxi, hyi, hys, isZero_of_isInfinite hyi, ne_of_isInfinite hxi hyi]
    case true.false =>
      cases hxs : x.isNegative <;>
        simp [number?, hx, hy, hxi, hyi, hxs, isZero_of_isInfinite hxi, (ne_of_isInfinite hyi hxi).symm]
  case true.true => simp [sameNumber, number?, hx, hy]
  all_goals
    cases hxi : x.isInfinite <;> cases hyi : y.isInfinite <;>
      simp [sameNumber, numEq, number?, hx, hy, hxi, hyi]

theorem canonical_canonical (x : Binary64) : x.canonical.canonical = x.canonical := by
  cases hnan : x.isNaN <;> cases hzero : x.isZero <;>
    simp [canonical, hnan, hzero, isNaN_nan, isNaN_zero, isZero_zero]

end Binary64

end Polystore.Number
