import Polystore.Json.Number
import Polystore.Proofs.Number.Nearest
import Polystore.Proofs.Number.Reading
import Polystore.Proofs.Number.Written

/-!
Numbers in JSON text, read back. An integer comes back as it is; a float comes back as a float, maybe
not the same one. Main statement: no text of a finite float is refused for being too large.
-/

namespace Polystore.Json

open Polystore.Number (Binary64 BinaryFormat Scientific)
open Polystore.Number.Binary64 (spelled)
open Polystore.Text

/-! ### Digits that fit -/

theorem accumulate_spec {n : Nat} {row : List Char} (hrow : IsRow row) (hn : n < 2 ^ 64) :
    (accumulate n row).1 < 2 ^ 64 ∧ (accumulate n row).2.length ≤ row.length ∧
      (accumulate n row).1 * 10 ^ (accumulate n row).2.length ≤
        n * 10 ^ row.length + ofDigits row := by
  induction row generalizing n with
  | nil => exact ⟨hn, Nat.le_refl _, Nat.le_add_right _ _⟩
  | cons c row ih =>
    rw [accumulate]
    split
    · next hfit =>
      obtain ⟨hlt, hlength, hle⟩ := ih hrow.tail hfit
      refine ⟨hlt, Nat.le_succ_of_le hlength, ?_⟩
      rwa [Number.Decimal.ofDigits_shifted] at hle
    · exact ⟨hn, Nat.le_refl _, Nat.le_add_right _ _⟩

theorem accumulate_of_fits {n : Nat} {row : List Char}
    (h : n * 10 ^ row.length + ofDigits row < 2 ^ 64) :
    accumulate n row = (n * 10 ^ row.length + ofDigits row, []) := by
  induction row generalizing n with
  | nil => rw [accumulate]; simp [ofDigits]
  | cons c row ih =>
    rw [← Number.Decimal.ofDigits_shifted] at h ⊢
    have hfirst : 10 * n + digitValue c < 2 ^ 64 := by
      refine Nat.lt_of_le_of_lt ?_ h
      exact Nat.le_trans (Nat.le_mul_of_pos_right _ (Nat.pow_pos (by decide))) (Nat.le_add_right _ _)
    rw [accumulate, if_pos hfirst, ih h]

/-! ### Powers of ten -/

/-- Half way between the greatest float and the one before it. Larger numbers are given by the
digits of the greatest float only. -/
def limit : Nat :=
  (2 ^ 54 - 3) * 2 ^ 970

theorem limit_lt {e : Nat} (h : 309 ≤ e) : limit < 10 ^ e := by
  obtain ⟨k, rfl⟩ := Nat.exists_eq_add_of_le h
  have hpower : 10 ^ (309 + k) = 10 ^ (155 + k) * 10 ^ 154 := by
    rw [← Nat.pow_add]
    congr 1
    omega
  have hquotient : limit / 10 ^ 154 < 10 ^ (155 + k) :=
    Nat.lt_of_lt_of_le (by decide +kernel : limit / 10 ^ 154 < 10 ^ 155)
      (Nat.pow_le_pow_right (by decide) (Nat.le_add_right _ _))
  rw [hpower]
  exact (Nat.div_lt_iff_lt_mul (Nat.pow_pos (by decide))).mp hquotient

theorem lt_limit {n : Nat} (h : n < 2 ^ 64) : n < limit :=
  Nat.lt_trans h (by decide +kernel)

/-- The greatest numbers of so many digits that are not over the limit can be multiplied. -/
theorem greatest_products_finite : ∀ e < 309,
    ((Binary64.ofRatio false (min (2 ^ 64 - 1) (limit / 10 ^ e)) 1).mul
      (Binary64.ofRatio false (10 ^ e) 1)).magnitude < BinaryFormat.double.infinity := by
  decide +kernel

theorem isInfinite_eq_false {x : Binary64} (h : x.magnitude < BinaryFormat.double.infinity) :
    x.isInfinite = false := by
  simp only [Binary64.isInfinite, beq_eq_false_iff_ne]
  omega

theorem product_finite {n e : Nat} (hn : n < 2 ^ 64) (he : e < 309) (hlimit : n * 10 ^ e ≤ limit) :
    ((Binary64.ofRatio false n 1).mul (Binary64.ofRatio false (10 ^ e) 1)).isInfinite = false := by
  have hle : n ≤ min (2 ^ 64 - 1) (limit / 10 ^ e) := by
    refine Nat.le_min.mpr ⟨by omega, ?_⟩
    rwa [Nat.le_div_iff_mul_le (Nat.pow_pos (by decide))]
  refine isInfinite_eq_false (Nat.lt_of_le_of_lt ?_ (greatest_products_finite e he))
  exact Binary64.magnitude_mul_mono (Binary64.magnitude_ofRatio_mono false hle) _

theorem exists_scale_down (fuel : Nat) (x : Binary64) {exponent : Int} (h : exponent < 0) :
    ∃ y, scale fuel x exponent = some y := by
  induction fuel generalizing x exponent with
  | zero => exact ⟨x, rfl⟩
  | succ fuel ih =>
    simp only [scale, if_neg (not_le.mpr h)]
    split
    · exact ⟨_, rfl⟩
    · next hlarge =>
      split
      · exact ⟨x, rfl⟩
      · exact ih _ (by omega)

theorem exists_floatOf (negative : Bool) {significand : Nat} {exponent : Int}
    (hfit : significand < 2 ^ 64)
    (hlimit : 0 ≤ exponent → significand * 10 ^ exponent.toNat ≤ limit) :
    ∃ x, floatOf negative significand exponent = some (.float x) := by
  have hscaled : ∃ y, scale 5 (Binary64.ofRatio false significand 1) exponent = some y := by
    by_cases hdown : exponent < 0
    · exact exists_scale_down 5 _ hdown
    · have hup : 0 ≤ exponent := not_lt.mp hdown
      have hbound := hlimit hup
      simp only [scale, if_pos hup]
      split
      · next hsmall =>
        have htoNat : exponent.natAbs = exponent.toNat := by omega
        have hfinite := product_finite hfit (by omega : exponent.natAbs < 309) (by rwa [htoNat])
        rw [hfinite]
        exact ⟨_, rfl⟩
      · next hlarge =>
        -- beyond the powers of ten that there are, only zero is not over the limit
        have hzero : significand = 0 := by
          by_contra hne
          have hpower : 10 ^ exponent.toNat ≤ significand * 10 ^ exponent.toNat :=
            Nat.le_mul_of_pos_left _ (Nat.pos_of_ne_zero hne)
          exact absurd (Nat.le_trans hpower hbound) (Nat.not_le.mpr (limit_lt (by omega)))
        subst hzero
        have hisZero : (Binary64.ofRatio false 0 1).isZero = true := by decide
        rw [hisZero]
        exact ⟨_, rfl⟩
  obtain ⟨y, hy⟩ := hscaled
  exact ⟨_, by rw [floatOf, hy]; rfl⟩

/-! ### Floats -/

/-- What may come after a number: nothing that it could go on with. -/
def EndsNumber (rest : List Char) : Prop :=
  ∀ c, rest.head? = some c → isDigit c = false ∧ c ≠ '.' ∧ c ≠ 'e' ∧ c ≠ 'E'

theorem EndsNumber.endsRow {rest : List Char} (h : EndsNumber rest) : EndsRow rest :=
  fun c hc => (h c hc).1

theorem exists_readTail {negative : Bool} {significand : Nat} {exponent : Int} {rest : List Char}
    (hrest : EndsNumber rest)
    (hfloat : ∃ x, floatOf negative significand exponent = some (.float x)) :
    ∃ x, readTail negative significand exponent rest = some (.float x, rest) := by
  obtain ⟨x, hx⟩ := hfloat
  refine ⟨x, ?_⟩
  unfold readTail
  split
  · exact absurd rfl (hrest 'e' rfl).2.2.1
  · exact absurd rfl (hrest 'E' rfl).2.2.2
  · rw [hx]
    rfl

/-- An exponent is written with its sign. -/
theorem exists_readExponent {negative : Bool} {significand : Nat} {start exponent : Int}
    {rest : List Char} (hrest : EndsNumber rest)
    (hsmall : significand = 0 ∨ exponent < 2 ^ 31)
    (hfloat : ∃ x, floatOf negative significand (start + exponent) = some (.float x)) :
    ∃ x, readExponent negative significand start (signed true exponent ++ rest) =
      some (.float x, rest) := by
  obtain ⟨x, hx⟩ := hfloat
  have hspan : spanDigits (digits exponent.natAbs ++ rest) = (digits exponent.natAbs, rest) :=
    spanDigits_append (isRow_digits _) hrest.endsRow
  have hne : (digits exponent.natAbs).isEmpty = false :=
    List.isEmpty_eq_false_iff.mpr (digits_ne_nil _)
  by_cases hdown : exponent < 0
  · have hstart : start - (exponent.natAbs : Int) = start + exponent := by omega
    simp only [signed, if_pos hdown, List.cons_append, List.nil_append, readExponent, hspan, hne,
      ofDigits_digits, Bool.not_true, Bool.and_false, Bool.false_eq_true, if_false, if_true, hstart,
      hx]
    split
    · exact ⟨_, rfl⟩
    · exact ⟨_, rfl⟩
  · have hstart : start + (exponent.natAbs : Int) = start + exponent := by omega
    simp only [signed, if_neg hdown, if_true, List.cons_append, List.nil_append, readExponent, hspan,
      hne, ofDigits_digits, Bool.not_false, Bool.and_true, hstart, hx, Bool.false_eq_true, if_false]
    split
    · next hlarge =>
      rcases hsmall with rfl | hsmall
      · exact ⟨_, rfl⟩
      · omega
    · exact ⟨_, rfl⟩

theorem readFraction_row (negative : Bool) (significand : Nat) (exponent : Int)
    {fraction tail : List Char} (hrow : IsRow fraction) (hne : fraction ≠ []) (htail : EndsRow tail) :
    readFraction negative significand exponent (fraction ++ tail) =
      readTail negative (accumulate significand fraction).1
        (exponent - (fraction.length - (accumulate significand fraction).2.length : Nat)) tail := by
  simp only [readFraction, spanDigits_append hrow htail, List.isEmpty_eq_false_iff.mpr hne,
    Bool.false_eq_true, if_false]

section

variable {whole : List Char} (hwhole : IsWhole whole) (hfit : ofDigits whole < 2 ^ 64)
  (negative : Bool)

include hwhole hfit

theorem whole_accepted :
    (whole.isEmpty || (whole.head? == some '0' && decide (1 < whole.length))) = false ∧
      accumulate 0 whole = (ofDigits whole, []) := by
  constructor
  · simp only [Bool.or_eq_false_iff, Bool.and_eq_false_imp, beq_iff_eq, decide_eq_false_iff_not]
    refine ⟨List.isEmpty_eq_false_iff.mpr hwhole.ne_nil, fun hzero => ?_⟩
    have := hwhole.lead hzero
    omega
  · have h := @accumulate_of_fits 0 whole (by simpa using hfit)
    simpa using h

theorem readNumber_point (rest : List Char) :
    readNumber negative (whole ++ '.' :: rest) = readFraction negative (ofDigits whole) 0 rest := by
  obtain ⟨haccepted, hnumber⟩ := whole_accepted hwhole hfit
  simp only [readNumber, spanDigits_append hwhole.isRow (endsRow_cons (by decide : isDigit '.' = false) _),
    haccepted, hnumber, Bool.false_eq_true, if_false]
  rfl

theorem readNumber_power (rest : List Char) :
    readNumber negative (whole ++ 'e' :: rest) =
      readExponent negative (ofDigits whole) 0 rest := by
  obtain ⟨haccepted, hnumber⟩ := whole_accepted hwhole hfit
  simp only [readNumber, spanDigits_append hwhole.isRow (endsRow_cons (by decide : isDigit 'e' = false) _),
    haccepted, hnumber, Bool.false_eq_true, if_false]
  rfl

theorem readNumber_whole {rest : List Char} (hrest : EndsNumber rest) :
    readNumber negative (whole ++ rest) = some (wholeNumber negative (ofDigits whole), rest) := by
  obtain ⟨haccepted, hnumber⟩ := whole_accepted hwhole hfit
  simp only [readNumber, spanDigits_append hwhole.isRow hrest.endsRow, haccepted, hnumber,
    Bool.false_eq_true, if_false]
  split
  · exact absurd rfl (hrest '.' rfl).2.1
  · have hhead : rest.head? ≠ some 'e' ∧ rest.head? ≠ some 'E' :=
      ⟨fun h => (hrest 'e' h).2.2.1 rfl, fun h => (hrest 'E' h).2.2.2 rfl⟩
    simp [hhead.1, hhead.2]

end

/-- An integer of 64 bits comes back as it is. -/
theorem readNumber_digits {i : Int} (hlow : -(2 ^ 63) ≤ i) (hhigh : i < 2 ^ 64) {rest : List Char}
    (hrest : EndsNumber rest) :
    readNumber (i < 0) (digits i.natAbs ++ rest) = some (.integer i, rest) := by
  have hvalue := ofDigits_digits i.natAbs
  rw [readNumber_whole (isWhole_digits _) (by rw [hvalue]; omega) _ hrest, hvalue, wholeNumber]
  by_cases hnegative : i < 0
  · have hback : -(i.natAbs : Int) = i := by omega
    have hrange : 0 < i.natAbs ∧ i.natAbs ≤ 2 ^ 63 := by omega
    rw [if_neg (by simp [hnegative]), if_pos hrange, hback]
  · have hback : (i.natAbs : Int) = i := by omega
    rw [if_pos (by simp [hnegative]), hback]

/-! ### The text of a float -/

theorem exists_positional {s : Scientific} (hs : s.coefficient ≠ 0 ∨ s.exponent = 0)
    (hlead : s.exponent + (digits s.coefficient).length ≤ 16) (negative : Bool) {rest : List Char}
    (hrest : EndsNumber rest) :
    ∃ x, readNumber negative (Binary64.positional s 1 ++ rest) = some (.float x, rest) := by
  obtain ⟨whole, fraction, heq, hwhole, hfraction, hlength, hne⟩ := Binary64.positional_eq hs 1
  have hempty : fraction ≠ [] := hne (.inr (by decide))
  have hvalue : ofDigits whole < 10 ^ 16 :=
    Nat.lt_of_lt_of_le (ofDigits_lt hwhole.isRow) (Nat.pow_le_pow_right (by decide) (by omega))
  have htext : Binary64.positional s 1 ++ rest = whole ++ '.' :: (fraction ++ rest) := by
    rw [heq, spelled, List.isEmpty_eq_false_iff.mpr hempty]
    simp
  rw [htext, readNumber_point hwhole (by omega), readFraction_row _ _ _ hfraction hempty hrest.endsRow]
  obtain ⟨hsmall, hleft, -⟩ := accumulate_spec hfraction (n := ofDigits whole) (by omega)
  refine exists_readTail hrest (exists_floatOf negative hsmall fun _ => ?_)
  have hzero : (0 - ((fraction.length - (accumulate (ofDigits whole) fraction).2.length : Nat) :
      Int)).toNat = 0 := by omega
  rw [hzero, Nat.pow_zero, Nat.mul_one]
  exact (lt_limit hsmall).le

/-- One digit before the point, and the power of ten of that digit. -/
theorem exists_exponential {s : Scientific} {style : Binary64.Style}
    (hplus : style.exponentPlus = true) (negative : Bool)
    (hpower : s.exponent + (digits s.coefficient).length ≤ 2 ^ 31)
    (hfloat : ∃ x, floatOf negative (accumulate 0 (digits s.coefficient)).1
      (s.exponent + (accumulate 0 (digits s.coefficient)).2.length) = some (.float x))
    {rest : List Char} (hrest : EndsNumber rest) :
    ∃ x, readNumber negative (Binary64.exponential style s ++ rest) = some (.float x, rest) := by
  obtain ⟨c, row, hdigits⟩ := List.exists_cons_of_ne_nil (digits_ne_nil s.coefficient)
  have hrow : IsRow (c :: row) := hdigits ▸ isRow_digits s.coefficient
  have hc : digitValue c < 10 := digitValue_lt (hrow c List.mem_cons_self)
  have hfirst : ofDigits [c] = digitValue c := by simp [ofDigits]
  have hwhole : IsWhole [c] := .of_length_one (fun d hd => hrow d (by simp_all)) rfl
  have hfit : ofDigits [c] < 2 ^ 64 := by omega
  have haccumulate : accumulate 0 (c :: row) = accumulate (ofDigits [c]) row := by
    rw [accumulate, if_pos (by omega), hfirst]
    simp
  rw [Binary64.exponential_eq, hplus, hdigits]
  rw [hdigits, List.length_cons] at hpower
  rw [hdigits, haccumulate] at hfloat
  simp only [List.take_succ_cons, List.take_zero, List.drop_succ_cons, List.drop_zero]
  by_cases hempty : row = []
  · subst hempty
    have htext : spelled [c] [] ('e' :: signed true (s.exponent + (([] : List Char).length : Nat))) ++
        rest = [c] ++ 'e' :: (signed true (s.exponent + (([] : List Char).length : Nat)) ++ rest) := rfl
    rw [htext, readNumber_power hwhole hfit]
    apply exists_readExponent hrest (.inr (by simp at hpower ⊢; omega))
    simpa [accumulate] using hfloat
  · have htext : spelled [c] row ('e' :: signed true (s.exponent + (row.length : Nat))) ++ rest =
        [c] ++ '.' :: (row ++ 'e' :: (signed true (s.exponent + (row.length : Nat)) ++ rest)) := by
      rw [spelled, List.isEmpty_eq_false_iff.mpr hempty]
      simp
    obtain ⟨-, hleft, -⟩ := accumulate_spec hrow.tail hfit
    have hexponent : 0 - ((row.length - (accumulate (ofDigits [c]) row).2.length : Nat) : Int) +
        (s.exponent + (row.length : Nat)) =
          s.exponent + ((accumulate (ofDigits [c]) row).2.length : Nat) := by omega
    rw [htext, readNumber_point hwhole hfit,
      readFraction_row _ _ _ hrow.tail hempty (endsRow_cons (by decide) _)]
    apply exists_readExponent hrest (.inr (by omega))
    rwa [hexponent]

/-- The greatest float has digits that can be read; the number next to them could not. -/
theorem shortest_greatest {x : Binary64} (h : x.magnitude = BinaryFormat.double.infinity - 1) :
    x.shortest .even = ⟨17976931348623157, 292⟩ := by
  have hmagnitude : x.magnitude =
      (Binary64.ofMagnitude false (BinaryFormat.double.infinity - 1)).magnitude := by
    rw [Binary64.magnitude_ofMagnitude _ (by decide), h]
  rw [Binary64.shortest_congr hmagnitude]
  decide +kernel

theorem exists_floatOf_greatest (negative : Bool) :
    ∃ x, floatOf negative 17976931348623157 292 = some (.float x) := by
  have hscale : (scale 5 (Binary64.ofRatio false 17976931348623157 1) 292).isSome = true := by
    decide +kernel
  obtain ⟨y, hy⟩ := Option.isSome_iff_exists.mp hscale
  exact ⟨_, by rw [floatOf, hy]; rfl⟩

theorem unpack_bounds {x : Binary64} (h : x.magnitude < BinaryFormat.double.infinity - 1) :
    x.unpack.1 < 2 ^ 53 ∧ (x.unpack.2 ≤ 970 ∨ x.unpack.2 = 971 ∧ x.unpack.1 < 2 ^ 53 - 1) := by
  have hinfinity : BinaryFormat.double.infinity = 9218868437227405312 := by decide
  have hplace : BinaryFormat.double.minPlace = 1074 := by decide
  have hbits : BinaryFormat.double.fractionBits = 52 := rfl
  rw [hinfinity] at h
  simp only [Binary64.unpack, BinaryFormat.unpack, hplace, hbits]
  split
  · next hfield => omega
  · next hfield => omega

theorem interval_high_le {x : Binary64} (h : x.magnitude < BinaryFormat.double.infinity - 1) :
    x.interval.high ≤ limit * x.interval.den := by
  obtain ⟨hsignificand, hexponent⟩ := unpack_bounds h
  refine Nat.le_trans ?_ (Nat.le_mul_of_pos_right _ x.interval_den_pos)
  simp only [Binary64.interval]
  generalize x.unpack.1 = m at hsignificand hexponent ⊢
  generalize x.unpack.2 = e at hexponent ⊢
  rcases hexponent with hsmall | ⟨rfl, hless⟩
  · calc
      (4 * m + 2) * 2 ^ (e - 2).toNat ≤ (2 ^ 55 - 2) * 2 ^ 968 :=
        Nat.mul_le_mul (by omega) (Nat.pow_le_pow_right (by decide) (by omega))
      _ ≤ limit := by decide +kernel
  · calc
      (4 * m + 2) * 2 ^ ((971 : Int) - 2).toNat ≤ (2 ^ 55 - 6) * 2 ^ 969 :=
        Nat.mul_le_mul (by omega) (Nat.pow_le_pow_right (by decide) (by decide))
      _ ≤ limit := by decide +kernel

/-- Some of the digits, with the power of ten of the others. -/
theorem mul_pow_le_limit {s : Scientific} (hs : s.AtMost limit) {n k : Nat}
    (hn : n * 10 ^ k ≤ s.coefficient) (h : 0 ≤ s.exponent + k) :
    n * 10 ^ (s.exponent + k).toNat ≤ limit := by
  unfold Scientific.AtMost at hs
  by_cases hexponent : 0 ≤ s.exponent
  · have hdown : (-s.exponent).toNat = 0 := by omega
    have hsum : (s.exponent + k).toNat = k + s.exponent.toNat := by omega
    rw [hdown, Nat.pow_zero, Nat.mul_one] at hs
    rw [hsum, Nat.pow_add, ← Nat.mul_assoc]
    exact Nat.le_trans (Nat.mul_le_mul_right _ hn) hs
  · have hup : s.exponent.toNat = 0 := by omega
    have hsum : k = (s.exponent + k).toNat + (-s.exponent).toNat := by omega
    rw [hup, Nat.pow_zero, Nat.mul_one] at hs
    rw [hsum, Nat.pow_add, ← Nat.mul_assoc] at hn
    exact Nat.le_of_mul_le_mul_right (Nat.le_trans hn hs) (Nat.pow_pos (by decide))

/-- The digits of a finite float can be read, with whatever power of ten they are written. -/
theorem exists_shortest_floatOf {x : Binary64} (hfinite : x.magnitude < BinaryFormat.double.infinity)
    (hzero : x.isZero = false) (negative : Bool) :
    (x.shortest .even).exponent + (digits (x.shortest .even).coefficient).length ≤ 2 ^ 31 ∧
    ∃ y, floatOf negative (accumulate 0 (digits (x.shortest .even).coefficient)).1
      ((x.shortest .even).exponent +
        (accumulate 0 (digits (x.shortest .even).coefficient)).2.length) = some (.float y) := by
  by_cases hgreatest : x.magnitude = BinaryFormat.double.infinity - 1
  · rw [shortest_greatest hgreatest]
    have haccumulate : accumulate 0 (digits 17976931348623157) = (17976931348623157, []) := by
      decide +kernel
    refine ⟨by decide +kernel, ?_⟩
    show ∃ y, floatOf negative (accumulate 0 (digits 17976931348623157)).1 (292 +
      ((accumulate 0 (digits 17976931348623157)).2.length : Nat)) = some (.float y)
    rw [haccumulate]
    exact exists_floatOf_greatest negative
  · have hless : x.magnitude < BinaryFormat.double.infinity - 1 := by omega
    have hbound : (x.shortest .even).AtMost limit :=
      Binary64.shortest_atMost (lt_limit (by have := (unpack_bounds hless).1; omega)).le
        (interval_high_le hless) .even
    have hne := Binary64.shortest_ne_zero hzero .even
    generalize x.shortest .even = s at hbound hne ⊢
    constructor
    · by_contra hlarge
      have hpos : 0 < (digits s.coefficient).length := List.length_pos_of_ne_nil (digits_ne_nil _)
      have hlead := pow_length_digits_le hne
      rw [← Nat.one_mul (10 ^ _)] at hlead
      have hlimit := mul_pow_le_limit hbound hlead (by omega)
      rw [Nat.one_mul] at hlimit
      exact absurd hlimit (Nat.not_le.mpr (limit_lt (by omega)))
    · obtain ⟨hfit, -, hle⟩ := accumulate_spec (isRow_digits s.coefficient) (by decide : 0 < 2 ^ 64)
      rw [Nat.zero_mul, Nat.zero_add, ofDigits_digits] at hle
      exact exists_floatOf negative hfit (mul_pow_le_limit hbound hle)

theorem isFinite_cases {x : Binary64} (h : x.isFinite = true) :
    x.isNaN = false ∧ x.isInfinite = false ∧ x.magnitude < BinaryFormat.double.infinity := by
  have hless : x.magnitude < BinaryFormat.double.infinity := by simpa [Binary64.isFinite] using h
  refine ⟨?_, isInfinite_eq_false hless, hless⟩
  simp only [Binary64.isNaN, decide_eq_false_iff_not]
  omega

/-- The text of a finite float is read as a float, after its sign. -/
theorem exists_readNumber_write {x : Binary64} (hfinite : x.isFinite = true) {rest : List Char}
    (hrest : EndsNumber rest) : ∃ body y, (x.write floatStyle).toList =
      (if x.isNegative then ['-'] else []) ++ body ∧
        readNumber x.isNegative (body ++ rest) = some (.float y, rest) := by
  obtain ⟨hnan, hinfinite, hless⟩ := isFinite_cases hfinite
  cases hzero : x.isZero with
  | true =>
    obtain ⟨y, hy⟩ := @exists_positional ⟨0, 0⟩ (.inr rfl) (by decide) x.isNegative _ hrest
    exact ⟨_, y, Binary64.write_zero floatStyle hnan hinfinite hzero, hy⟩
  | false =>
    obtain ⟨hpower, hfloat⟩ := exists_shortest_floatOf hless hzero x.isNegative
    have hne := Binary64.shortest_ne_zero hzero .even
    have hread : ∃ y, readNumber x.isNegative
        (Binary64.laidOut floatStyle (x.shortest .even) ++ rest) = some (.float y, rest) := by
      simp only [Binary64.laidOut]
      split
      · next hlead =>
        have hbelow : (x.shortest .even).exponent +
            (digits (x.shortest .even).coefficient).length - 1 < 16 :=
          of_decide_eq_true (Bool.and_eq_true_iff.mp hlead).2
        exact exists_positional (.inl hne) (by omega) _ hrest
      · exact exists_exponential rfl _ hpower hfloat hrest
    obtain ⟨y, hy⟩ := hread
    exact ⟨_, y, Binary64.write_finite floatStyle hnan hinfinite hzero, hy⟩

end Polystore.Json
