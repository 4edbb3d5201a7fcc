import Mathlib.Algebra.Order.Field.Power
import Mathlib.Algebra.Order.Floor.Semifield
import Mathlib.Data.Rat.Floor
import Mathlib.Tactic.FieldSimp
import Mathlib.Tactic.Linarith
import Mathlib.Tactic.Positivity
import Mathlib.Tactic.Ring
import Polystore.Proofs.Number.Reading
import Polystore.Proofs.Number.Value
import Polystore.Proofs.Postgres.Words

/-!
Exact numbers on the wire. An image stands for a sum of its digits, each weighed by a power of ten
thousand. The image of a decimal stands for that decimal; the text of an image spells its sum, cut
after the last place. From the two, a decimal that was sent comes back with its places.
-/

namespace Polystore

namespace Postgres.Numeric

open Number (Decimal)
open Text

/-- The sum of digits, the first of which weighs ten thousand to a power. -/
def weighed (weight : Int) (digits : List Int) : ℚ :=
  (digits.mapIdx fun i (d : Int) => (d : ℚ) * 10000 ^ (weight - i)).sum

def magnitude (n : Numeric) : ℚ :=
  weighed n.weight n.digits

/-- The number that an image stands for. -/
def value (n : Numeric) : ℚ :=
  if n.sign = negative then -n.magnitude else n.magnitude

def InRange (digits : List Int) : Prop :=
  ∀ d ∈ digits, 0 ≤ d ∧ d ≤ 9999

theorem weighed_nil (weight : Int) : weighed weight [] = 0 :=
  rfl

theorem weighed_cons (weight d : Int) (digits : List Int) :
    weighed weight (d :: digits) = d * 10000 ^ weight + weighed (weight - 1) digits := by
  rw [weighed, weighed, List.mapIdx_cons, List.sum_cons]
  congr 1
  · simp
  · congr 2
    funext i d
    rw [Nat.cast_succ, ← sub_sub, sub_right_comm]

theorem weighed_append (weight : Int) (a b : List Int) :
    weighed weight (a ++ b) = weighed weight a + weighed (weight - a.length) b := by
  induction a generalizing weight with
  | nil => simp [weighed_nil]
  | cons d a ih =>
    rw [List.cons_append, weighed_cons, weighed_cons, ih, add_assoc, List.length_cons,
      Nat.cast_succ, sub_sub, add_comm (1 : Int)]

theorem InRange.tail {d : Int} {digits : List Int} (h : InRange (d :: digits)) : InRange digits :=
  fun e he => h e (List.mem_cons_of_mem d he)

theorem weighed_nonneg {digits : List Int} (h : InRange digits) (weight : Int) :
    0 ≤ weighed weight digits := by
  induction digits generalizing weight with
  | nil => exact le_refl 0
  | cons d digits ih =>
    have hd : (0 : ℚ) ≤ d := by exact_mod_cast (h d List.mem_cons_self).1
    rw [weighed_cons]
    have hrest := ih h.tail (weight - 1)
    positivity

/-- All digits together weigh less than one more digit in front. -/
theorem weighed_lt {digits : List Int} (h : InRange digits) (weight : Int) :
    weighed weight digits < 10000 ^ (weight + 1) := by
  induction digits generalizing weight with
  | nil =>
    rw [weighed_nil]
    positivity
  | cons d digits ih =>
    have hd : (d : ℚ) ≤ 9999 := by exact_mod_cast (h d List.mem_cons_self).2
    have hrest := ih h.tail (weight - 1)
    have hpos : (0 : ℚ) < 10000 ^ weight := by positivity
    rw [sub_add_cancel] at hrest
    rw [weighed_cons, zpow_add_one₀ (by norm_num)]
    have hfirst : (d : ℚ) * 10000 ^ weight ≤ 9999 * 10000 ^ weight :=
      mul_le_mul_of_nonneg_right hd hpos.le
    linarith

/-! ### The image of a decimal -/

theorem groups_cons (a b c d : Char) (rest : List Char) :
    groups (a :: b :: c :: d :: rest) = (ofDigits [a, b, c, d] : Int) :: groups rest :=
  rfl

/-- Whole groups of four characters, one at a time. -/
theorem wholeGroups {motive : (row : List Char) → row.length % 4 = 0 → Prop} (nil : motive [] rfl)
    (cons : ∀ a b c d rest (h : rest.length % 4 = 0)
      (h' : (a :: b :: c :: d :: rest).length % 4 = 0),
      motive rest h → motive (a :: b :: c :: d :: rest) h')
    (row : List Char) (h : row.length % 4 = 0) : motive row h := by
  match row, h with
  | [], _ => exact nil
  | [_], h | [_, _], h | [_, _, _], h => simp at h
  | a :: b :: c :: d :: rest, h =>
    have hrest : rest.length % 4 = 0 := by
      simp only [List.length_cons] at h
      omega
    exact cons a b c d rest hrest h (wholeGroups nil cons rest hrest)

theorem length_groups {row : List Char} (h : row.length % 4 = 0) :
    4 * (groups row).length = row.length := by
  induction row, h using wholeGroups with
  | nil => rfl
  | cons a b c d rest _ _ ih =>
    rw [groups_cons]
    simp only [List.length_cons]
    omega

theorem inRange_groups {row : List Char} (hrow : IsRow row) (h : row.length % 4 = 0) :
    InRange (groups row) := by
  induction row, h using wholeGroups with
  | nil =>
    intro d hd
    cases hd
  | cons a b c d rest _ _ ih =>
    have hfour : IsRow [a, b, c, d] := hrow.take 4
    have hlt : ofDigits [a, b, c, d] < 10 ^ 4 := ofDigits_lt hfour
    intro e he
    rw [groups_cons] at he
    rcases List.mem_cons.mp he with rfl | he
    · omega
    · exact ih (hrow.drop 4) e he

theorem weighed_groups {row : List Char} (h : row.length % 4 = 0) (weight : Int) :
    weighed weight (groups row) = ofDigits row * 10000 ^ (weight + 1 - (groups row).length) := by
  induction row, h using wholeGroups generalizing weight with
  | nil => simp [groups, weighed_nil, ofDigits]
  | cons a b c d rest hrest _ ih =>
    have hfour : ofDigits (a :: b :: c :: d :: rest) =
        ofDigits [a, b, c, d] * 10000 ^ (groups rest).length + ofDigits rest := by
      have := ofDigits_append [a, b, c, d] rest
      rwa [← length_groups hrest, Nat.pow_mul] at this
    have hfirst : (10000 : ℚ) ^ weight =
        10000 ^ (groups rest).length * 10000 ^ (weight - (groups rest).length) := by
      rw [← zpow_natCast, ← zpow_add₀ (by norm_num), add_sub_cancel]
    rw [groups_cons, weighed_cons, ih, hfour, List.length_cons, sub_add_cancel, Nat.cast_succ,
      add_sub_add_right_eq_sub, hfirst]
    push_cast
    ring

theorem isRow_filling (row : List Char) : IsRow (filling row) :=
  isRow_replicate_zero _

theorem length_fillLeft (row : List Char) : (fillLeft row).length % 4 = 0 := by
  simp only [fillLeft, filling, List.length_append, List.length_replicate]
  omega

theorem ofDigits_fillLeft (row : List Char) : ofDigits (fillLeft row) = ofDigits row := by
  rw [fillLeft, ofDigits_append, filling, ofDigits_replicate_zero, Nat.zero_mul, Nat.zero_add]

theorem length_fillRight (row : List Char) : (fillRight row).length % 4 = 0 := by
  simp only [fillRight, filling, List.length_append, List.length_replicate]
  omega

theorem ofDigits_fillRight (row : List Char) :
    ofDigits (fillRight row) = ofDigits row * 10 ^ (filling row).length := by
  rw [fillRight, ofDigits_append, filling, ofDigits_replicate_zero, Nat.add_zero]

theorem weighed_dropLeading (weight : Int) (digits : List Int) :
    weighed (dropLeading weight digits).1 (dropLeading weight digits).2 =
      weighed weight digits := by
  induction digits generalizing weight with
  | nil => rfl
  | cons d digits ih =>
    rw [dropLeading]
    split
    · next hd =>
      rw [ih, weighed_cons, hd, Int.cast_zero, zero_mul, zero_add]
    · rfl

theorem dropTrailing_append_singleton (digits : List Int) (d : Int) :
    dropTrailing (digits ++ [d]) = if d = 0 then dropTrailing digits else digits ++ [d] := by
  rw [dropTrailing, List.reverse_append, List.reverse_singleton, List.singleton_append,
    List.dropWhile_cons]
  by_cases hd : d = 0
  · simp [hd, dropTrailing]
  · simp [hd]

theorem weighed_dropTrailing (weight : Int) (digits : List Int) :
    weighed weight (dropTrailing digits) = weighed weight digits := by
  induction digits using List.reverseRecOn with
  | nil => rfl
  | append_singleton digits d ih =>
    rw [dropTrailing_append_singleton]
    split
    · next hd =>
      rw [ih, weighed_append, weighed_cons, weighed_nil, hd, Int.cast_zero, zero_mul, add_zero,
        add_zero]
    · rfl

theorem dropLeading_suffix (weight : Int) (digits : List Int) :
    (dropLeading weight digits).2 <:+ digits := by
  induction digits generalizing weight with
  | nil => exact List.suffix_refl []
  | cons d digits ih =>
    rw [dropLeading]
    split
    · exact (ih (weight - 1)).trans (List.suffix_cons d digits)
    · exact List.suffix_refl _

/-- Every zero that is dropped takes one off the weight. -/
theorem dropLeading_weight (weight : Int) (digits : List Int) :
    (dropLeading weight digits).1 =
      weight - (digits.length - (dropLeading weight digits).2.length : Nat) := by
  induction digits generalizing weight with
  | nil => simp [dropLeading]
  | cons d digits ih =>
    have hlength := (dropLeading_suffix (weight - 1) digits).length_le
    rw [dropLeading]
    split
    · rw [ih, List.length_cons]
      omega
    · simp

theorem head?_dropLeading (weight : Int) (digits : List Int) :
    (dropLeading weight digits).2.head? ≠ some 0 := by
  induction digits generalizing weight with
  | nil => simp [dropLeading]
  | cons d digits ih =>
    rw [dropLeading]
    split
    · exact ih (weight - 1)
    · next hd => simpa using hd

theorem dropTrailing_initial (digits : List Int) : dropTrailing digits <+: digits := by
  rw [dropTrailing, ← List.reverse_suffix, List.reverse_reverse]
  exact List.dropWhile_suffix _

theorem getLast?_dropTrailing (digits : List Int) : (dropTrailing digits).getLast? ≠ some 0 := by
  induction digits using List.reverseRecOn with
  | nil => simp [dropTrailing]
  | append_singleton digits d ih =>
    rw [dropTrailing_append_singleton]
    split
    · exact ih
    · next hd => simpa using hd

theorem head?_of_initial {a b : List Int} {i : Int} (h : a <+: b) (ha : a.head? = some i) :
    b.head? = some i := by
  obtain ⟨c, rfl⟩ := h
  cases a with
  | nil => cases ha
  | cons d a => exact ha

theorem isRow_wholeRow (d : Decimal) : IsRow (wholeRow d) :=
  (isRow_filling _).append ((isRow_paddedDigits _ _).take _)

theorem isRow_fractionRow (d : Decimal) : IsRow (fractionRow d) :=
  ((isRow_paddedDigits _ _).drop _).append (isRow_filling _)

theorem length_wholeRow (d : Decimal) : (wholeRow d).length % 4 = 0 :=
  length_fillLeft _

theorem length_fractionRow (d : Decimal) : (fractionRow d).length % 4 = 0 :=
  length_fillRight _

/-- The two rows around the point spell the decimal. -/
theorem ofDigits_rows (d : Decimal) :
    (ofDigits (wholeRow d) : ℚ) + ofDigits (fractionRow d) / 10 ^ (fractionRow d).length =
      d.mantissa / 10 ^ d.scale := by
  have hrow : (paddedDigits (d.scale + 1) d.mantissa).length ≥ d.scale + 1 := by
    rw [paddedDigits, length_padLeft]
    exact Nat.le_max_left _ _
  rw [wholeRow, fractionRow]
  generalize hwhole : (paddedDigits (d.scale + 1) d.mantissa).take
    ((paddedDigits (d.scale + 1) d.mantissa).length - d.scale) = whole
  generalize hfraction : (paddedDigits (d.scale + 1) d.mantissa).drop
    ((paddedDigits (d.scale + 1) d.mantissa).length - d.scale) = fraction
  have hlength : fraction.length = d.scale := by
    rw [← hfraction, List.length_drop]
    omega
  have hmantissa : d.mantissa = ofDigits whole * 10 ^ d.scale + ofDigits fraction := by
    rw [← hlength, ← ofDigits_append, ← hwhole, ← hfraction, List.take_append_drop,
      ofDigits_paddedDigits]
  have hpos : (10 : ℚ) ^ d.scale ≠ 0 := by positivity
  have hfilled : (fillRight fraction).length = d.scale + (filling fraction).length := by
    rw [fillRight, List.length_append, hlength]
  rw [ofDigits_fillLeft, ofDigits_fillRight, hfilled, hmantissa, pow_add]
  push_cast
  field_simp

theorem weighed_significant (d : Decimal) :
    weighed (significant d).1 (significant d).2 = d.mantissa / 10 ^ d.scale := by
  have hwhole := length_groups (length_wholeRow d)
  have hfraction := length_groups (length_fractionRow d)
  have hcount : (wholeRow d).length / 4 = (groups (wholeRow d)).length := by omega
  have hpower : (10 : ℚ) ^ (fractionRow d).length = 10000 ^ (groups (fractionRow d)).length := by
    rw [← hfraction, pow_mul]
    norm_num
  rw [significant]
  simp only
  rw [weighed_dropTrailing, weighed_dropLeading, weighed_append, weighed_groups (length_wholeRow d),
    weighed_groups (length_fractionRow d), hcount, ← ofDigits_rows, hpower]
  rw [sub_add_cancel, sub_self, zpow_zero, mul_one, sub_sub_cancel_left, neg_add_cancel, zero_sub,
    zpow_neg, zpow_natCast, div_eq_mul_inv]

/-- The image of a decimal stands for it. -/
theorem value_ofDecimal (d : Decimal) : (ofDecimal d).value = d.value := by
  have hweighed := weighed_significant d
  rw [d.value_eq_size, Decimal.size, ← hweighed, ofDecimal]
  generalize significant d = parts
  obtain ⟨weight, digits⟩ := parts
  simp only
  cases digits with
  | nil => simp [value, magnitude, weighed_nil]
  | cons i digits =>
    simp only [List.isEmpty_cons, Bool.false_eq_true, if_false, value, magnitude]
    cases d.negative with
    | true => rfl
    | false => rfl

/-- Digits in range, no zero digit at either end, and no sign without digits. -/
structure Canonical (n : Numeric) : Prop where
  digits : InRange n.digits
  first : n.digits.head? ≠ some 0
  last : n.digits.getLast? ≠ some 0
  sign : n.sign = positive ∨ n.sign = negative
  zero : n.digits = [] → n.sign = positive

/-- Every part of an image has room in its word. -/
structure Fits (n : Numeric) : Prop where
  count : n.digits.length < 2 ^ 15
  weight : -(2 ^ 15) ≤ n.weight ∧ n.weight < 2 ^ 15
  sign : n.sign < 2 ^ 16
  places : n.places < 2 ^ 16
  digits : ∀ d ∈ n.digits, -(2 ^ 15) ≤ d ∧ d < 2 ^ 15

theorem inRange_significant (d : Decimal) : InRange (significant d).2 := by
  have hall : InRange (groups (wholeRow d) ++ groups (fractionRow d)) := by
    intro i hi
    rcases List.mem_append.mp hi with h | h
    · exact inRange_groups (isRow_wholeRow d) (length_wholeRow d) i h
    · exact inRange_groups (isRow_fractionRow d) (length_fractionRow d) i h
  intro i hi
  exact hall i ((dropLeading_suffix _ _).subset ((dropTrailing_initial _).subset hi))

theorem head?_significant (d : Decimal) : (significant d).2.head? ≠ some 0 := by
  intro h
  exact head?_dropLeading _ _ (head?_of_initial (dropTrailing_initial _) h)

theorem getLast?_significant (d : Decimal) : (significant d).2.getLast? ≠ some 0 :=
  getLast?_dropTrailing _

theorem canonical_ofDecimal (d : Decimal) : (ofDecimal d).Canonical := by
  have hrange := inRange_significant d
  have hfirst := head?_significant d
  have hlast := getLast?_significant d
  rw [ofDecimal]
  generalize significant d = parts at hrange hfirst hlast
  obtain ⟨weight, digits⟩ := parts
  simp only at hrange hfirst hlast ⊢
  cases digits with
  | nil => exact ⟨hrange, hfirst, hlast, .inl rfl, fun _ => rfl⟩
  | cons i digits =>
    refine ⟨hrange, hfirst, hlast, ?_, fun h => nomatch h⟩
    cases d.negative with
    | true => exact .inr rfl
    | false => exact .inl rfl

theorem length_row_le (d : Decimal) : (paddedDigits (d.scale + 1) d.mantissa).length ≤ 29 := by
  have hscale := d.scale_le
  have hmantissa : d.mantissa < 10 ^ 29 := Nat.lt_trans d.mantissa_lt (by decide)
  have hdigits : (Text.digits d.mantissa).length ≤ 29 :=
    (length_digits_le_iff (by decide)).mpr hmantissa
  rw [paddedDigits, length_padLeft]
  omega

/-- Eight digits before the point and seven after it are enough. -/
theorem length_groups_rows (d : Decimal) :
    (groups (wholeRow d)).length ≤ 8 ∧ (groups (fractionRow d)).length ≤ 7 := by
  have hrow := length_row_le d
  have hscale := d.scale_le
  have hwhole := length_groups (length_wholeRow d)
  have hfraction := length_groups (length_fractionRow d)
  simp only [wholeRow, fillLeft, fractionRow, fillRight, filling, List.length_append,
    List.length_replicate, List.length_take, List.length_drop] at hwhole hfraction ⊢
  omega

theorem length_significant_le (d : Decimal) : (significant d).2.length ≤ 15 := by
  have hrows := length_groups_rows d
  have hleading := (dropLeading_suffix (((wholeRow d).length / 4 : Nat) - 1)
    (groups (wholeRow d) ++ groups (fractionRow d))).length_le
  have htrailing := (dropTrailing_initial (dropLeading (((wholeRow d).length / 4 : Nat) - 1)
    (groups (wholeRow d) ++ groups (fractionRow d))).2).length_le
  rw [List.length_append] at hleading
  rw [significant]
  simp only
  omega

theorem weight_significant (d : Decimal) :
    -16 ≤ (significant d).1 ∧ (significant d).1 ≤ 7 := by
  have hrows := length_groups_rows d
  have hwhole := length_groups (length_wholeRow d)
  have hweight := dropLeading_weight (((wholeRow d).length / 4 : Nat) - 1)
    (groups (wholeRow d) ++ groups (fractionRow d))
  rw [List.length_append] at hweight
  rw [significant]
  simp only
  omega

theorem fits_ofDecimal (d : Decimal) : (ofDecimal d).Fits := by
  have hscale := d.scale_le
  have hlength := length_significant_le d
  have hweight := weight_significant d
  have hrange := inRange_significant d
  rw [ofDecimal]
  generalize significant d = parts at hlength hweight hrange
  obtain ⟨weight, digits⟩ := parts
  simp only at hlength hweight hrange ⊢
  have hwords : ∀ i ∈ digits, -(2 ^ 15) ≤ i ∧ i < 2 ^ 15 := by
    intro i hi
    have := hrange i hi
    omega
  have hplaces : d.scale < 2 ^ 16 := by omega
  split
  · refine ⟨?_, ?_, ?_, hplaces, fun i hi => nomatch hi⟩
    · show 0 < 2 ^ 15
      decide
    · show -(2 ^ 15) ≤ (0 : Int) ∧ (0 : Int) < 2 ^ 15
      decide
    · show positive < 2 ^ 16
      decide
  · refine ⟨?_, ?_, ?_, hplaces, hwords⟩
    · show digits.length < 2 ^ 15
      omega
    · show -(2 ^ 15) ≤ weight ∧ weight < 2 ^ 15
      omega
    · show (if d.negative then negative else positive) < 2 ^ 16
      split <;> decide

theorem places_ofDecimal (d : Decimal) : (ofDecimal d).places = d.scale := by
  rw [ofDecimal]
  simp only
  split <;> rfl

/-! ### The text of an image -/

/-- The image of what stands after the first digit. -/
def tail (n : Numeric) : Numeric :=
  { n with digits := n.digits.tail, weight := n.weight - 1 }

theorem digitAt_weight (n : Numeric) : n.digitAt n.weight = n.digits.headD 0 := by
  rw [digitAt, sub_self, if_pos (le_refl 0)]
  cases n.digits <;> rfl

theorem digitAt_of_gt {n : Numeric} {power : Int} (h : n.weight < power) : n.digitAt power = 0 := by
  rw [digitAt, if_neg (by omega)]

theorem digitAt_tail {n : Numeric} {power : Int} (h : power < n.weight) :
    n.tail.digitAt power = n.digitAt power := by
  have hweight : n.tail.weight = n.weight - 1 := rfl
  have hposition : (n.weight - power).toNat = (n.weight - 1 - power).toNat + 1 := by omega
  rw [digitAt, digitAt, hweight, if_pos (by omega), if_pos (by omega), hposition]
  cases hdigits : n.digits with
  | nil => simp [tail, hdigits]
  | cons d digits => simp [tail, hdigits]

theorem digitTexts_tail {n : Numeric} (count : Nat) {power : Int} (h : power < n.weight) :
    n.tail.digitTexts count power = n.digitTexts count power := by
  induction count generalizing power with
  | zero => rfl
  | succ count ih => rw [digitTexts, digitTexts, digitAt_tail h, ih (by omega)]

theorem magnitude_eq_tail (n : Numeric) :
    n.magnitude = n.digits.headD 0 * 10000 ^ n.weight + n.tail.magnitude := by
  rw [magnitude, magnitude, tail]
  cases hdigits : n.digits with
  | nil => simp [weighed_nil]
  | cons d digits => exact weighed_cons _ _ _

theorem InRange.headD {digits : List Int} (h : InRange digits) :
    0 ≤ digits.headD 0 ∧ digits.headD 0 ≤ 9999 := by
  cases digits with
  | nil => decide
  | cons d digits => exact h d List.mem_cons_self

theorem InRange.digitAt {n : Numeric} (h : InRange n.digits) (power : Int) :
    0 ≤ n.digitAt power ∧ n.digitAt power ≤ 9999 := by
  rw [Numeric.digitAt]
  split
  · rw [List.getD_eq_getElem?_getD]
    cases hget : n.digits[(n.weight - power).toNat]? with
    | none => decide
    | some d => exact h d (List.mem_of_getElem? hget)
  · decide

theorem digitText_of_nonneg {d : Int} (h : 0 ≤ d) : digitText d = paddedDigits 4 d.toNat := by
  rw [digitText, if_neg (by omega)]
  congr 1
  omega

theorem isRow_digitText {d : Int} (h : 0 ≤ d) : IsRow (digitText d) := by
  rw [digitText_of_nonneg h]
  exact isRow_paddedDigits _ _

theorem length_digitText {d : Int} (h : 0 ≤ d ∧ d ≤ 9999) : (digitText d).length = 4 := by
  rw [digitText_of_nonneg h.1]
  exact length_paddedDigits (by decide) (by omega)

theorem ofDigits_digitText {d : Int} (h : 0 ≤ d) : ofDigits (digitText d) = d.toNat := by
  rw [digitText_of_nonneg h]
  exact ofDigits_paddedDigits _ _

theorem isRow_digitTexts {n : Numeric} (h : InRange n.digits) (count : Nat) (power : Int) :
    IsRow (n.digitTexts count power) := by
  induction count generalizing power with
  | zero =>
    intro c hc
    cases hc
  | succ count ih => exact (isRow_digitText (h.digitAt power).1).append (ih (power - 1))

theorem length_digitTexts {n : Numeric} (h : InRange n.digits) (count : Nat) (power : Int) :
    (n.digitTexts count power).length = 4 * count := by
  induction count generalizing power with
  | zero => rfl
  | succ count ih =>
    rw [digitTexts, List.length_append, length_digitText (h.digitAt power), ih]
    omega

theorem digitTexts_append (n : Numeric) (a b : Nat) (power : Int) :
    n.digitTexts (a + b) power = n.digitTexts a power ++ n.digitTexts b (power - a) := by
  induction a generalizing power with
  | zero => simp [digitTexts]
  | succ a ih =>
    have hpower : power - 1 - (a : Int) = power - (a + 1 : Nat) := by
      push_cast
      ring
    rw [Nat.succ_add, digitTexts, ih, digitTexts, List.append_assoc, hpower]

theorem ofDigits_digitTexts_succ {n : Numeric} (h : InRange n.digits) (count : Nat) (power : Int) :
    ofDigits (n.digitTexts (count + 1) power) =
      (n.digitAt power).toNat * 10000 ^ count + ofDigits (n.digitTexts count (power - 1)) := by
  rw [digitTexts, ofDigits_append, ofDigits_digitText (h.digitAt power).1, length_digitTexts h,
    Nat.pow_mul]

/-- Digits written from no lower power than that of the first digit spell the sum, cut after the
last digit written. -/
theorem ofDigits_digitTexts {n : Numeric} (h : InRange n.digits) (count : Nat) {power : Int}
    (hpower : n.weight ≤ power) :
    ofDigits (n.digitTexts count power) = ⌊n.magnitude * 10000 ^ (count - 1 - power)⌋₊ := by
  induction count generalizing n power with
  | zero =>
    -- nothing is written, and the sum is below one in the place above
    have hlt : n.magnitude < 10000 ^ (power + 1) :=
      lt_of_lt_of_le (weighed_lt h n.weight)
        (zpow_le_zpow_right₀ (by norm_num) (by omega))
    have hcut : n.magnitude * 10000 ^ (((0 : Nat) : Int) - 1 - power) < 1 := by
      have hneg : ((0 : Nat) : Int) - 1 - power = -(power + 1) := by
        push_cast
        ring
      rw [hneg, zpow_neg, ← div_eq_mul_inv, div_lt_one (by positivity)]
      exact hlt
    rw [Nat.floor_eq_zero.mpr hcut]
    rfl
  | succ count ih =>
    have hexponent : ((count + 1 : Nat) : Int) - 1 - power = count - 1 - (power - 1) := by
      push_cast
      ring
    rw [ofDigits_digitTexts_succ h, hexponent]
    rcases lt_or_eq_of_le hpower with hlt | heq
    · rw [digitAt_of_gt hlt, ih h (by omega), Int.toNat_zero, Nat.zero_mul, Nat.zero_add]
    · -- the first digit: it is split off the sum, and the rest is the image without it
      subst heq
      have htail : InRange n.tail.digits := fun d hd => h d (List.mem_of_mem_tail hd)
      have hrest : ofDigits (n.tail.digitTexts count (n.weight - 1)) =
          ⌊n.tail.magnitude * 10000 ^ ((count : Int) - 1 - (n.weight - 1))⌋₊ :=
        ih htail (le_refl n.tail.weight)
      have hhead := h.headD
      have hcast : ((n.digits.headD 0 : Int) : ℚ) = ((n.digits.headD 0).toNat : ℚ) := by
        have : (((n.digits.headD 0).toNat : Int) : ℚ) = ((n.digits.headD 0 : Int) : ℚ) := by
          rw [Int.toNat_of_nonneg hhead.1]
        rw [← this]
        rfl
      have hscale : (10000 : ℚ) ^ n.weight * 10000 ^ ((count : Int) - 1 - (n.weight - 1)) =
          ((10000 ^ count : Nat) : ℚ) := by
        rw [← zpow_add₀ (by norm_num), show n.weight + ((count : Int) - 1 - (n.weight - 1)) = count
          by ring, zpow_natCast]
        push_cast
        rfl
      have hnonneg : 0 ≤ n.tail.magnitude * 10000 ^ ((count : Int) - 1 - (n.weight - 1)) :=
        mul_nonneg (weighed_nonneg htail _) (by positivity)
      have hsplit : n.magnitude * 10000 ^ ((count : Int) - 1 - (n.weight - 1)) =
          n.tail.magnitude * 10000 ^ ((count : Int) - 1 - (n.weight - 1)) +
            (((n.digits.headD 0).toNat * 10000 ^ count : Nat) : ℚ) := by
        rw [magnitude_eq_tail, add_mul, mul_assoc, hscale, hcast, add_comm, Nat.cast_mul]
      rw [hsplit, Nat.floor_add_natCast hnonneg, digitAt_weight,
        ← digitTexts_tail count (by omega : n.weight - 1 < n.weight), hrest, Nat.add_comm]

theorem isRow_wholeText {n : Numeric} (h : InRange n.digits) : IsRow n.wholeText := by
  rw [wholeText]
  split
  · exact isRow_replicate_zero 1
  · refine IsRow.append ?_ (isRow_digitTexts h _ _)
    rw [integer, if_neg (by have := (h.digitAt n.weight).1; omega)]
    exact isRow_digits _

theorem wholeText_ne_nil (n : Numeric) : n.wholeText ≠ [] := by
  rw [wholeText]
  split
  · exact List.cons_ne_nil _ _
  · rw [integer]
    split
    · exact List.cons_ne_nil _ _
    · exact List.append_ne_nil_of_left_ne_nil Nat.toDigits_ne_nil _

theorem isRow_fractionText {n : Numeric} (h : InRange n.digits) : IsRow n.fractionText :=
  (isRow_digitTexts h _ _).take _

theorem length_fractionText {n : Numeric} (h : InRange n.digits) :
    n.fractionText.length = n.places := by
  rw [fractionText, List.length_take, length_digitTexts h]
  omega

/-- The first digit is written without zeros before it, which does not change the number. -/
theorem ofDigits_wholeText_append {n : Numeric} (h : InRange n.digits) (count : Nat) :
    ofDigits (n.wholeText ++ n.digitTexts count (-1)) = ⌊n.magnitude * 10000 ^ count⌋₊ := by
  rcases lt_or_ge n.weight 0 with hneg | hnonneg
  · have hpower : n.weight ≤ -1 := by omega
    rw [wholeText, if_pos hneg, ofDigits_append, ofDigits_digitTexts h count hpower]
    have hexponent : (count : Int) - 1 - -1 = count := by ring
    rw [hexponent, zpow_natCast, show ofDigits ['0'] = 0 from rfl, Nat.zero_mul, Nat.zero_add]
  · have hdigit := h.digitAt n.weight
    have hfirst : ofDigits (integer (n.digitAt n.weight)) =
        ofDigits (digitText (n.digitAt n.weight)) := by
      rw [ofDigits_digitText hdigit.1, integer, if_neg (by omega), ofDigits_digits]
      omega
    have hsplit : n.digitTexts (n.weight.toNat + count + 1) n.weight =
        digitText (n.digitAt n.weight) ++
          (n.digitTexts n.weight.toNat (n.weight - 1) ++ n.digitTexts count (-1)) := by
      have hpower : n.weight - 1 - n.weight.toNat = -1 := by omega
      rw [digitTexts, digitTexts_append, hpower]
    have hexponent : ((n.weight.toNat + count + 1 : Nat) : Int) - 1 - n.weight = count := by
      push_cast
      omega
    have hspelled := ofDigits_digitTexts h (n.weight.toNat + count + 1) (le_refl n.weight)
    rw [hexponent, zpow_natCast, hsplit, ofDigits_append] at hspelled
    rw [wholeText, if_neg (by omega), List.append_assoc, ofDigits_append, hfirst, hspelled]

/-- The text of an image spells its sum, cut after the last place. -/
theorem ofDigits_text {n : Numeric} (h : InRange n.digits) :
    ofDigits (n.wholeText ++ n.fractionText) = ⌊n.magnitude * 10 ^ n.places⌋₊ := by
  have hlength := length_digitTexts h ((n.places + 3) / 4) (-1)
  have hrow : IsRow (n.wholeText ++ n.digitTexts ((n.places + 3) / 4) (-1)) :=
    (isRow_wholeText h).append (isRow_digitTexts h _ _)
  have htake : n.wholeText ++ n.fractionText =
      (n.wholeText ++ n.digitTexts ((n.places + 3) / 4) (-1)).take
        (n.wholeText.length + n.places) := by
    rw [List.take_length_add_append, fractionText]
  have hcut : (n.wholeText ++ n.digitTexts ((n.places + 3) / 4) (-1)).length -
      (n.wholeText.length + n.places) = 4 * ((n.places + 3) / 4) - n.places := by
    rw [List.length_append, hlength]
    omega
  have hpower : (10000 : ℚ) ^ ((n.places + 3) / 4) =
      10 ^ n.places * ((10 ^ (4 * ((n.places + 3) / 4) - n.places) : Nat) : ℚ) := by
    rw [Nat.cast_pow, Nat.cast_ofNat, ← pow_add, Nat.add_sub_cancel' (by omega), pow_mul]
    norm_num
  have hne : ((10 ^ (4 * ((n.places + 3) / 4) - n.places) : Nat) : ℚ) ≠ 0 := by positivity
  rw [htake, ofDigits_take hrow, hcut, ofDigits_wholeText_append h, ← Nat.floor_div_natCast, hpower,
    ← mul_assoc, mul_div_assoc, div_self hne, mul_one]

theorem text_eq_plainText {n : Numeric} (h : InRange n.digits) :
    n.text = Decimal.plainText (n.sign = negative) n.wholeText n.fractionText := by
  have hlength := length_fractionText h
  rw [text, Decimal.plainText]
  simp only [decide_eq_true_eq]
  congr 1
  by_cases hplaces : n.places = 0
  · rw [if_pos hplaces, if_pos]
    rw [List.isEmpty_iff, ← List.length_eq_zero_iff, hlength, hplaces]
  · rw [if_neg hplaces, if_neg]
    rw [List.isEmpty_iff, ← List.length_eq_zero_iff, hlength]
    exact hplaces

/-- An image within the range of decimals is read as its sum, cut after the last place. -/
theorem toValue_eq {n : Numeric} (h : InRange n.digits) (hplaces : n.places ≤ 28)
    (hfit : ⌊n.magnitude * 10 ^ n.places⌋₊ < 2 ^ 96) :
    n.toValue = .ok (.decimal ⟨decide (n.sign = negative) && ⌊n.magnitude * 10 ^ n.places⌋₊ != 0,
      ⌊n.magnitude * 10 ^ n.places⌋₊, n.places, hfit, hplaces⟩) := by
  have hlength := length_fractionText h
  have hspelled := ofDigits_text h
  have hread := Decimal.read_plainText (n.sign = negative) (isRow_wholeText h) (wholeText_ne_nil n)
    (isRow_fractionText h) (by omega) (by rw [hspelled]; exact hfit)
  rw [toValue, text_eq_plainText h, hread]
  simp only [hspelled, hlength]

/-! ### Images on the wire -/

theorem length_bytes (n : Numeric) : n.bytes.length = 8 + 2 * n.digits.length := by
  have hwords : (n.digits.flatMap (word 2)).length = 2 * n.digits.length := by
    induction n.digits with
    | nil => rfl
    | cons d digits ih =>
      rw [List.flatMap_cons, List.length_append, length_word, ih, List.length_cons]
      omega
  simp only [bytes, List.length_append, length_word, hwords]

theorem Fits.readCount {n : Numeric} (h : n.Fits) (rest : Bytes) :
    readSigned 2 (word 2 n.digits.length ++ rest) = .ok ((n.digits.length : Int), rest) := by
  have hcount := h.count
  exact readSigned_word (by decide) (by omega) (by omega) rest

/-- The first word counts the digits that follow the header. -/
theorem readCount_bytes {n : Numeric} (h : n.Fits) :
    ∃ rest, readSigned 2 n.bytes = .ok ((n.digits.length : Int), rest) ∧
      rest.length = 6 + 2 * n.digits.length := by
  have hlength := length_bytes n
  simp only [bytes, List.append_assoc] at hlength ⊢
  refine ⟨_, h.readCount _, ?_⟩
  rw [List.length_append, length_word] at hlength
  omega

theorem decodeNumeric_bytes {n : Numeric} (h : n.Fits)
    (hsign : n.sign = positive ∨ n.sign = negative) : decodeNumeric n.bytes = n.toValue := by
  have hweight (rest : Bytes) : readSigned 2 (word 2 n.weight ++ rest) = .ok (n.weight, rest) :=
    readSigned_word (by decide) h.weight.1 h.weight.2 rest
  have hsignWord (rest : Bytes) : readWord 2 (word 2 n.sign ++ rest) = .ok (n.sign, rest) :=
    readWord_word h.sign rest
  have hplaces (rest : Bytes) : readWord 2 (word 2 n.places ++ rest) = .ok (n.places, rest) :=
    readWord_word h.places rest
  have hdigits : readMany (readSigned 2) n.digits.length (n.digits.flatMap (word 2)) =
      .ok (n.digits, []) := by
    have hread : ∀ d ∈ n.digits, ∀ rest, readSigned 2 (word 2 d ++ rest) = .ok (d, rest) := by
      intro d hd rest
      exact readSigned_word (by decide) (h.digits d hd).1 (h.digits d hd).2 rest
    rw [← readMany_flatMap hread [], List.append_nil]
  have hnumber : n.sign ≠ notANumber ∧ n.sign ≠ positiveInfinity ∧ n.sign ≠ negativeInfinity := by
    rcases hsign with h | h <;> rw [h] <;> decide
  have hcountNonneg : ¬ (n.digits.length : Int) < 0 := by omega
  rw [decodeNumeric, bytes]
  simp only [List.append_assoc]
  rw [h.readCount]
  simp only [bind, Except.bind, hweight, hsignWord, hplaces, if_neg hnumber.1, if_neg hnumber.2.1,
    if_neg hnumber.2.2, if_pos hsign, if_neg hcountNonneg, Int.toNat_natCast, hdigits]

/-- Digits that start with one that is not zero do not sum to zero. -/
theorem weighed_pos {digits : List Int} (h : InRange digits) (hne : digits ≠ [])
    (hfirst : digits.head? ≠ some 0) (weight : Int) : 0 < weighed weight digits := by
  obtain ⟨d, rest, rfl⟩ := List.exists_cons_of_ne_nil hne
  have hrange := (h d List.mem_cons_self).1
  have hd : 0 < d := by
    have : d ≠ 0 := by simpa using hfirst
    omega
  have hcast : (0 : ℚ) < d := by exact_mod_cast hd
  have hrest := weighed_nonneg h.tail (weight - 1)
  rw [weighed_cons]
  positivity

theorem digits_ofDecimal_of_zero {d : Decimal} (h : d.mantissa = 0) : (ofDecimal d).digits = [] := by
  have hweighed := weighed_significant d
  rw [h, Nat.cast_zero, zero_div] at hweighed
  have hempty : (significant d).2 = [] := by
    by_contra hne
    have := weighed_pos (inRange_significant d) hne (head?_significant d) (significant d).1
    rw [hweighed] at this
    exact lt_irrefl 0 this
  rw [ofDecimal]
  simp [hempty]

theorem magnitude_ofDecimal (d : Decimal) : (ofDecimal d).magnitude = d.mantissa / 10 ^ d.scale := by
  have hweighed := weighed_significant d
  rw [← hweighed, ofDecimal]
  generalize significant d = parts
  obtain ⟨weight, digits⟩ := parts
  simp only
  cases digits with
  | nil => rfl
  | cons i digits => rfl

theorem sign_ofDecimal {d : Decimal} (h : d.mantissa ≠ 0) :
    (ofDecimal d).sign = if d.negative then negative else positive := by
  have hweighed := weighed_significant d
  have hne : (significant d).2 ≠ [] := by
    intro hempty
    rw [hempty, weighed_nil, eq_comm, div_eq_zero_iff] at hweighed
    rcases hweighed with hzero | hzero
    · exact h (by exact_mod_cast hzero)
    · exact absurd hzero (by positivity)
  rw [ofDecimal]
  simp [hne]

/-- The image of a decimal is read as the decimal. -/
theorem toValue_ofDecimal (d : Decimal) :
    (ofDecimal d).toValue = .ok (.decimal d.unsignedZero) := by
  have hfloor : ⌊(ofDecimal d).magnitude * 10 ^ (ofDecimal d).places⌋₊ = d.mantissa := by
    rw [magnitude_ofDecimal, places_ofDecimal, div_mul_cancel₀ _ (by positivity), Nat.floor_natCast]
  have hplaces : (ofDecimal d).places ≤ 28 := by
    rw [places_ofDecimal]
    exact d.scale_le
  have hsign : (decide ((ofDecimal d).sign = negative) && d.mantissa != 0) =
      (d.negative && d.mantissa != 0) := by
    by_cases hzero : d.mantissa = 0
    · simp [hzero]
    · rw [sign_ofDecimal hzero]
      cases d.negative with
      | true => rfl
      | false => rfl
  rw [toValue_eq (canonical_ofDecimal d).digits hplaces (by rw [hfloor]; exact d.mantissa_lt)]
  congr 2
  rw [Decimal.unsignedZero, Decimal.mk.injEq]
  refine ⟨?_, hfloor, places_ofDecimal d⟩
  rw [hfloor]
  exact hsign

theorem decodeNumeric_encodeDecimal (d : Decimal) :
    decodeNumeric (encodeDecimal d) = .ok (.decimal d.unsignedZero) := by
  rw [encodeDecimal, decodeNumeric_bytes (fits_ofDecimal d) (canonical_ofDecimal d).sign]
  exact toValue_ofDecimal d

end Postgres.Numeric

namespace Postgres

open Number (Decimal)

/-- A decimal is sent as a canonical image that stands for it exactly, and comes back as the same
number with the same places. -/
theorem numeric_exact_and_canonical (d : Decimal) :
    ∃ n : Numeric,
      encodeDecimal d = n.bytes ∧ n.Fits ∧ n.Canonical ∧
      (∃ rest, readSigned 2 (encodeDecimal d) = .ok ((n.digits.length : Int), rest) ∧
        rest.length = 6 + 2 * n.digits.length) ∧
      n.places = d.scale ∧ (d.mantissa = 0 → n.sign = Numeric.positive) ∧ n.value = d.value ∧
      ∃ back : Decimal,
        decodeNumeric (encodeDecimal d) = .ok (.decimal back) ∧
        back.value = d.value ∧ back.scale = d.scale := by
  refine ⟨.ofDecimal d, rfl, Numeric.fits_ofDecimal d, Numeric.canonical_ofDecimal d,
    Numeric.readCount_bytes (Numeric.fits_ofDecimal d), Numeric.places_ofDecimal d, ?_,
    Numeric.value_ofDecimal d, ?_⟩
  · intro hzero
    exact (Numeric.canonical_ofDecimal d).zero (Numeric.digits_ofDecimal_of_zero hzero)
  · exact ⟨d.unsignedZero, Numeric.decodeNumeric_encodeDecimal d, d.value_unsignedZero, rfl⟩

end Postgres

end Polystore
