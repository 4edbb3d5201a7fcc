import Polystore.Proofs.Number.Rounding
import Polystore.Proofs.Postgres.Numeric

/-!
Numbers that the server sends with more digits than a decimal has room for. Main statement: a number
that is equal to some decimal comes exactly, and one past the greatest decimal is refused; any other
number is rounded to a nearest decimal, and nothing tells that it was.
-/

namespace Polystore

namespace Postgres.Numeric

open Number (Decimal)

/-- No digit that counts stands past the last place. -/
def EndsInPlaces (n : Numeric) : Prop :=
  ∃ k : ℕ, n.magnitude * 10 ^ n.places = k

theorem ofDigits_text_exact {n : Numeric} (h : InRange n.digits) (hplaces : n.EndsInPlaces) :
    (Text.ofDigits (n.wholeText ++ n.fractionText) : ℚ) / 10 ^ n.fractionText.length =
      n.magnitude := by
  obtain ⟨k, hk⟩ := hplaces
  rw [ofDigits_text h, hk, Nat.floor_natCast, ← hk, length_fractionText h,
    mul_div_cancel_right₀ _ (by positivity)]

theorem abs_value {n : Numeric} (h : InRange n.digits) : |n.value| = n.magnitude := by
  have hnonneg : 0 ≤ n.magnitude := weighed_nonneg h n.weight
  rw [value]
  split
  · rw [abs_neg, abs_of_nonneg hnonneg]
  · exact abs_of_nonneg hnonneg

theorem read_text_outcome {n : Numeric} (h : InRange n.digits) (hplaces : n.EndsInPlaces) :
    Decimal.Outcome (n.sign = negative) n.places n.magnitude (Decimal.read n.text) := by
  have houtcome := Decimal.read_plainText_outcome (n.sign = negative) (isRow_wholeText h)
    (wholeText_ne_nil n) (isRow_fractionText h)
  rw [ofDigits_text_exact h hplaces, length_fractionText h, ← text_eq_plainText h] at houtcome
  exact houtcome

/-- What an image that has no decimal is refused with. -/
def beyondRange (n : Numeric) : Except Error Value :=
  unsupported ("numeric " ++ String.ofList n.text ++ " beyond decimal range")

theorem toValue_outcome {n : Numeric} (h : InRange n.digits) (hplaces : n.EndsInPlaces) :
    (2 ^ 96 - 1 / 2 ≤ n.magnitude → n.toValue = n.beyondRange) ∧
      (n.magnitude < 2 ^ 96 - 1 / 2 → ∃ d : Decimal, n.toValue = .ok (.decimal d) ∧
        Decimal.Rounds (n.sign = negative) n.places n.magnitude d) := by
  have houtcome := read_text_outcome h hplaces
  rw [toValue]
  cases hread : Decimal.read n.text with
  | error e =>
    rw [hread] at houtcome
    exact ⟨fun _ => rfl, fun hsmall => absurd hsmall (not_lt.mpr houtcome)⟩
  | ok d =>
    rw [hread] at houtcome
    exact ⟨fun hlarge => absurd houtcome.1 (not_lt.mpr hlarge), fun _ => ⟨d, rfl, houtcome.2⟩⟩

/-- A decimal with the sign of an image is as far from its number as their sizes are apart. -/
theorem value_sub_value {n : Numeric} {d : Decimal}
    (hsign : d.negative = (decide (n.sign = negative) && d.mantissa != 0)) :
    |d.value - n.value| = |d.size - n.magnitude| := by
  rw [Decimal.value_of_sign hsign, value]
  by_cases h : n.sign = negative
  · simp only [h, decide_true, if_true]
    rw [← abs_neg]
    ring_nf
  · simp [h]

theorem exists_value_iff {n : Numeric} (h : InRange n.digits) :
    (∃ e : Decimal, e.value = n.value) ↔ ∃ e : Decimal, e.size = n.magnitude := by
  constructor
  · rintro ⟨e, he⟩
    refine ⟨e, ?_⟩
    rw [← Decimal.abs_value, he, abs_value h]
  · rintro ⟨e, he⟩
    -- the sign of the image may be given to any decimal
    refine ⟨{ e with negative := decide (n.sign = negative) }, ?_⟩
    rw [Decimal.value_eq_size, value, ← he]
    simp only [decide_eq_true_eq]
    rfl

end Postgres.Numeric

namespace Postgres

open Number (Decimal)

/-- A number that is equal to some decimal comes as that number. One past the greatest decimal, to
the nearest, is refused. Of the others each comes as another number, a nearest one with its places. -/
theorem received_number_exact_or_rounded {n : Numeric} (hfits : n.Fits)
    (hsign : n.sign = Numeric.positive ∨ n.sign = Numeric.negative)
    (hdigits : Numeric.InRange n.digits) (hplaces : n.EndsInPlaces) :
    ((∃ e : Decimal, e.value = n.value) →
      ∃ d : Decimal, decodeNumeric n.bytes = .ok (.decimal d) ∧ d.value = n.value) ∧
    (2 ^ 96 - 1 / 2 ≤ n.magnitude → decodeNumeric n.bytes =
      unsupported ("numeric " ++ String.ofList n.text ++ " beyond decimal range")) ∧
    ((¬ ∃ e : Decimal, e.value = n.value) → n.magnitude < 2 ^ 96 - 1 / 2 →
      ∃ d : Decimal, decodeNumeric n.bytes = .ok (.decimal d) ∧ d.value ≠ n.value ∧
        d.scale ≤ n.places ∧ |d.value - n.value| ≤ 1 / 2 / 10 ^ d.scale) := by
  obtain ⟨hlarge, hsmall⟩ := Numeric.toValue_outcome hdigits hplaces
  rw [Numeric.decodeNumeric_bytes hfits hsign]
  refine ⟨fun hexact => ?_, hlarge, fun hinexact hrange => ?_⟩
  · obtain ⟨e, he⟩ := (Numeric.exists_value_iff hdigits).mp hexact
    have hrange : n.magnitude < 2 ^ 96 - 1 / 2 := by
      have := e.size_le
      rw [← he]
      linarith
    obtain ⟨d, hread, hd⟩ := hsmall hrange
    have hdistance := Numeric.value_sub_value hd.sign
    rw [hd.exact ⟨e, he⟩, sub_self, abs_zero, abs_eq_zero, sub_eq_zero] at hdistance
    exact ⟨d, hread, hdistance⟩
  · obtain ⟨d, hread, hd⟩ := hsmall hrange
    refine ⟨d, hread, fun hequal => hinexact ⟨d, hequal⟩, hd.places, ?_⟩
    rw [Numeric.value_sub_value hd.sign]
    exact hd.near

/-- A third, in thirty places. -/
def third : Numeric :=
  ⟨[3333, 3333, 3333, 3333, 3333, 3333, 3333, 3300], -1, Numeric.positive, 30⟩

theorem magnitude_third : third.magnitude * 10 ^ 30 = 333333333333333333333333333333 := by
  norm_num [Numeric.magnitude, Numeric.weighed, third, List.mapIdx, List.mapIdx.go]

theorem third_inexact : ¬ ∃ e : Decimal, e.value = third.value := by
  rintro ⟨e, he⟩
  obtain ⟨i, hi⟩ := e.value_mul_ten_pow
  have hwhole : (i : ℚ) * 100 = 333333333333333333333333333333 := by
    rw [← hi, he, ← magnitude_third]
    change third.magnitude * 10 ^ 28 * 100 = _
    ring
  have hint : i * 100 = 333333333333333333333333333333 := by exact_mod_cast hwhole
  omega

theorem received_number_exact_or_rounded_third :
    third.Fits ∧ Numeric.InRange third.digits ∧ third.EndsInPlaces ∧
      ∃ d : Decimal, decodeNumeric third.bytes = .ok (.decimal d) ∧ d.value ≠ third.value ∧
        d.scale ≤ 30 ∧ |d.value - third.value| ≤ 1 / 2 / 10 ^ d.scale := by
  have hfits : third.Fits :=
    ⟨by decide, by decide, by decide, by decide, by decide⟩
  have hdigits : Numeric.InRange third.digits := by
    unfold Numeric.InRange
    decide
  have hends : third.EndsInPlaces :=
    ⟨333333333333333333333333333333, by exact_mod_cast magnitude_third⟩
  have hsmall : third.magnitude < 2 ^ 96 - 1 / 2 := by
    have := magnitude_third
    norm_num at this ⊢
    linarith
  obtain ⟨-, -, hrounded⟩ := received_number_exact_or_rounded hfits (.inl rfl) hdigits hends
  exact ⟨hfits, hdigits, hends, hrounded third_inexact hsmall⟩

/-- The least number of twenty-nine places. -/
def grain : Numeric :=
  ⟨[1000], -8, Numeric.positive, 29⟩

/-- It comes as zero and is not refused. -/
theorem grain_comes_as_zero :
    grain.Fits ∧ grain.sign = Numeric.positive ∧ Numeric.InRange grain.digits ∧
      grain.EndsInPlaces ∧ grain.value = 1 / 10 ^ 29 ∧
      ∃ d : Decimal, decodeNumeric grain.bytes = .ok (.decimal d) ∧ d.value = 0 := by
  have hvalue : grain.value = 1 / 10 ^ 29 := by
    norm_num [Numeric.value, Numeric.magnitude, Numeric.weighed, grain, Numeric.positive,
      Numeric.negative, List.mapIdx, List.mapIdx.go]
  have hdigits : Numeric.InRange grain.digits := by
    unfold Numeric.InRange
    decide
  refine ⟨⟨by decide, by decide, by decide, by decide, by decide⟩, rfl, hdigits, ⟨1, ?_⟩, hvalue,
    ⟨false, 0, 28, by decide, by decide⟩, rfl, ?_⟩
  · change grain.value * 10 ^ 29 = _
    rw [hvalue]
    norm_num
  · norm_num [Decimal.value, Decimal.signed]

end Postgres

end Polystore
