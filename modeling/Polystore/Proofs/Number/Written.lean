import Mathlib.Data.List.TakeDrop
import Polystore.Number.Shortest
import Polystore.Proofs.Text.Reading

/-!
The text that words are written as: digits around a point, and a power of ten after its mark. Main
statement: the text of a value can always be read as a number.
-/

namespace Polystore.Text

theorem digits_ne_nil (n : Nat) : digits n ≠ [] := by
  intro h
  have hlength : (digits n).length ≤ 0 := by simp [h]
  have hpos : 0 < (digits n).length := Nat.length_toDigits_pos
  omega

/-- Digits as a number is written with them: there is at least one, and a zero only comes first alone. -/
structure IsWhole (row : List Char) : Prop where
  isRow : IsRow row
  ne_nil : row ≠ []
  lead : row.head? = some '0' → row.length = 1

theorem isWhole_digits (n : Nat) : IsWhole (digits n) where
  isRow := isRow_digits n
  ne_nil := digits_ne_nil n
  lead := by
    intro h
    obtain ⟨c, row, hrow⟩ := List.exists_cons_of_ne_nil (digits_ne_nil n)
    obtain rfl : c = '0' := by simpa [hrow] using h
    by_contra hlong
    have hpos : 0 < row.length := by
      rw [hrow, List.length_cons] at hlong
      omega
    -- without its first digit, the row would be as good
    have hvalue : n = ofDigits row := by
      have := ofDigits_digits n
      rw [hrow, ofDigits_cons] at this
      simpa [digitValue] using this.symm
    have hsmall : n < 10 ^ row.length := by
      rw [hvalue]
      exact ofDigits_lt (IsRow.tail (hrow ▸ isRow_digits n))
    have hlength := (length_digits_le_iff hpos).mpr hsmall
    rw [hrow, List.length_cons] at hlength
    omega

theorem pow_length_digits_le {n : Nat} (h : n ≠ 0) : 10 ^ ((digits n).length - 1) ≤ n := by
  by_cases hone : (digits n).length - 1 = 0
  · rw [hone, Nat.pow_zero]
    exact Nat.pos_of_ne_zero h
  · by_contra hless
    have := (length_digits_le_iff (Nat.pos_of_ne_zero hone)).mpr (Nat.not_le.mp hless)
    omega

theorem IsWhole.of_length_one {row : List Char} (hrow : IsRow row) (h : row.length = 1) :
    IsWhole row where
  isRow := hrow
  ne_nil := List.ne_nil_of_length_pos (by omega)
  lead _ := h

theorem IsWhole.take {row : List Char} (h : IsWhole row) {n : Nat} (hn : 0 < n) :
    IsWhole (row.take n) where
  isRow := h.isRow.take n
  ne_nil := by
    obtain ⟨c, rest, rfl⟩ := List.exists_cons_of_ne_nil h.ne_nil
    obtain ⟨m, rfl⟩ := Nat.exists_eq_succ_of_ne_zero hn.ne'
    simp
  lead := by
    intro hzero
    have hlead := h.lead (by rwa [List.head?_take, if_neg hn.ne'] at hzero)
    rw [List.length_take, hlead]
    omega

theorem isWhole_digits_zeros {n : Nat} (h : n ≠ 0) (k : Nat) :
    IsWhole (digits n ++ List.replicate k '0') where
  isRow := (isRow_digits n).append (isRow_replicate_zero k)
  ne_nil := by simp [digits_ne_nil]
  lead := by
    intro hzero
    obtain ⟨c, row, hrow⟩ := List.exists_cons_of_ne_nil (digits_ne_nil n)
    obtain rfl : c = '0' := by simpa [hrow] using hzero
    have hlead := (isWhole_digits n).lead (by simp [hrow])
    have hvalue := ofDigits_digits n
    rw [hrow, List.length_cons] at hlead
    obtain rfl := List.length_eq_zero_iff.mp (Nat.succ.inj hlead)
    rw [hrow] at hvalue
    exact absurd hvalue.symm h

theorem readNat?_digits (n : Nat) : readNat? (digits n) = some n := by
  have hall : (digits n).all isDigit = true := List.all_eq_true.mpr (isRow_digits n)
  rw [readNat?, List.isEmpty_eq_false_iff.mpr (digits_ne_nil n), hall, ofDigits_digits]
  rfl

theorem readInt?_digits (n : Nat) : readInt? (digits n) = some (n : Int) := by
  obtain ⟨c, row, hrow⟩ := List.exists_cons_of_ne_nil (digits_ne_nil n)
  have hc : isDigit c = true := isRow_digits n c (by simp [hrow])
  unfold readInt?
  split
  · next h =>
    obtain ⟨rfl, -⟩ := List.cons.inj (hrow.symm.trans h)
    exact absurd hc (by decide)
  · next h =>
    obtain ⟨rfl, -⟩ := List.cons.inj (hrow.symm.trans h)
    exact absurd hc (by decide)
  · rw [readNat?_digits]
    rfl

/-- An integer with its sign, which may be written if it is a plus too. -/
def signed (plus : Bool) (i : Int) : List Char :=
  (if i < 0 then ['-'] else if plus then ['+'] else []) ++ digits i.natAbs

theorem readInt?_signed (plus : Bool) (i : Int) : readInt? (signed plus i) = some i := by
  unfold signed
  split
  · have hi : -(i.natAbs : Int) = i := by omega
    rw [List.singleton_append, readInt?, readNat?_digits]
    exact congrArg some hi
  · have hi : (i.natAbs : Int) = i := by omega
    cases plus with
    | true =>
      show (readNat? (digits i.natAbs)).map Int.ofNat = some i
      rw [readNat?_digits]
      exact congrArg some hi
    | false =>
      show readInt? (digits i.natAbs) = some i
      rw [readInt?_digits, hi]

theorem readInt?_integer (i : Int) : readInt? (integer i) = some i := by
  have h : integer i = signed false i := by
    unfold integer signed
    split
    · rfl
    · rfl
  rw [h, readInt?_signed]

end Polystore.Text

namespace Polystore.Number

open Polystore.Text

namespace Scientific

/-- A bound on the number that is written. -/
def AtMost (s : Scientific) (bound : Nat) : Prop :=
  s.coefficient * 10 ^ s.exponent.toNat ≤ bound * 10 ^ (-s.exponent).toNat

theorem strip_ne_zero {s : Scientific} (h : s.coefficient ≠ 0) (fuel : Nat) :
    (s.strip fuel).coefficient ≠ 0 := by
  induction fuel generalizing s with
  | zero => exact h
  | succ fuel ih =>
    rw [strip]
    split
    · next hzero => exact ih (show s.coefficient / 10 ≠ 0 by omega)
    · exact h

theorem strip_atMost {s : Scientific} {bound : Nat} (h : s.AtMost bound) (fuel : Nat) :
    (s.strip fuel).AtMost bound := by
  induction fuel generalizing s with
  | zero => exact h
  | succ fuel ih =>
    rw [strip]
    split
    · next hzero =>
      refine ih ?_
      show s.coefficient / 10 * 10 ^ (s.exponent + 1).toNat ≤ bound * 10 ^ (-(s.exponent + 1)).toNat
      have hten : s.coefficient / 10 * 10 = s.coefficient := by omega
      unfold AtMost at h
      by_cases hexponent : 0 ≤ s.exponent
      · have hup : (s.exponent + 1).toNat = s.exponent.toNat + 1 := by omega
        have hdown : (-(s.exponent + 1)).toNat = 0 := by omega
        have hdown' : (-s.exponent).toNat = 0 := by omega
        rw [hdown'] at h
        rwa [hup, hdown, Nat.pow_succ, Nat.mul_comm (10 ^ _), ← Nat.mul_assoc, hten]
      · have hup : (s.exponent + 1).toNat = 0 := by omega
        have hup' : s.exponent.toNat = 0 := by omega
        have hdown : (-s.exponent).toNat = (-(s.exponent + 1)).toNat + 1 := by omega
        rw [hup', hdown, Nat.pow_succ, ← Nat.mul_assoc, Nat.pow_zero, Nat.mul_one, ← hten] at h
        rw [hup, Nat.pow_zero, Nat.mul_one]
        exact Nat.le_of_mul_le_mul_right h (by decide)
    · exact h

end Scientific

namespace Binary64

/-- Digits, a point and digits if there are any behind it, and what comes after. -/
def spelled (whole fraction tail : List Char) : List Char :=
  whole ++ ((if fraction.isEmpty then [] else '.' :: fraction) ++ tail)

theorem exponential_eq (style : Style) (s : Scientific) :
    exponential style s = spelled ((digits s.coefficient).take 1) ((digits s.coefficient).drop 1)
      ('e' :: signed style.exponentPlus (s.exponent + ((digits s.coefficient).drop 1).length)) := by
  simp only [exponential, spelled, signed, List.append_assoc, List.cons_append]

theorem positional_eq {s : Scientific} (hs : s.coefficient ≠ 0 ∨ s.exponent = 0) (places : Nat) :
    ∃ whole fraction, positional s places = spelled whole fraction [] ∧
      IsWhole whole ∧ IsRow fraction ∧
      whole.length ≤ max 1 (s.exponent + (digits s.coefficient).length).toNat ∧
      (s.exponent < 0 ∨ 0 < places → fraction ≠ []) := by
  rw [positional]
  by_cases hexponent : 0 ≤ s.exponent
  · refine ⟨digits s.coefficient ++ List.replicate s.exponent.toNat '0', List.replicate places '0',
      ?_, ?_, isRow_replicate_zero _, ?_, ?_⟩
    · simp only [if_pos hexponent, spelled, List.isEmpty_replicate]
      by_cases hplaces : places = 0
      · simp [hplaces]
      · simp [hplaces]
    · rcases hs with hs | hs
      · exact isWhole_digits_zeros hs _
      · rw [hs]
        simpa using isWhole_digits s.coefficient
    · simp only [List.length_append, List.length_replicate]
      omega
    · rintro (h | h)
      · omega
      · simp [h.ne']
  · obtain ⟨behind, hbehind, hpos⟩ : ∃ behind, (-s.exponent).toNat = behind ∧ 0 < behind :=
      ⟨_, rfl, by omega⟩
    have hlength : (padLeft (behind + 1) '0' (digits s.coefficient)).length =
        max (behind + 1) (digits s.coefficient).length := length_padLeft _ _ _
    have hrow : IsRow (padLeft (behind + 1) '0' (digits s.coefficient)) :=
      (isRow_replicate_zero _).append (isRow_digits _)
    have hfraction : (padLeft (behind + 1) '0' (digits s.coefficient)).drop
        ((padLeft (behind + 1) '0' (digits s.coefficient)).length - behind) ≠ [] := by
      apply List.ne_nil_of_length_pos
      rw [List.length_drop]
      omega
    refine ⟨(padLeft (behind + 1) '0' (digits s.coefficient)).take
      ((padLeft (behind + 1) '0' (digits s.coefficient)).length - behind), _, ?_, ?_, hrow.drop _, ?_,
      fun _ => hfraction⟩
    · simp only [if_neg hexponent, hbehind, spelled, List.isEmpty_eq_false_iff.mpr hfraction,
        Bool.false_eq_true, if_false, List.append_nil]
    · by_cases hlong : behind + 1 ≤ (digits s.coefficient).length
      · have hsame : padLeft (behind + 1) '0' (digits s.coefficient) = digits s.coefficient := by
          rw [padLeft, Nat.sub_eq_zero_of_le hlong, List.replicate_zero, List.nil_append]
        rw [hsame]
        exact (isWhole_digits _).take (by omega)
      · refine .of_length_one (hrow.take _) ?_
        rw [List.length_take]
        omega
    · rw [List.length_take]
      omega

theorem readMantissa_spelled {whole fraction tail : List Char} (hwhole : IsWhole whole)
    (hfraction : IsRow fraction) (htail : EndsRow tail) (hpoint : tail.head? ≠ some '.') :
    readMantissa (spelled whole fraction tail) =
      some (⟨ofDigits (whole ++ fraction), -(fraction.length : Int)⟩, tail) := by
  have hne : whole.isEmpty = false := List.isEmpty_eq_false_iff.mpr hwhole.ne_nil
  unfold readMantissa spelled
  by_cases hempty : fraction = []
  · subst hempty
    have hspan : spanDigits (whole ++ tail) = (whole, tail) := spanDigits_append hwhole.isRow htail
    simp only [List.isEmpty_nil, if_true, List.nil_append, hspan, hne, Bool.false_and,
      Bool.false_eq_true, if_false]
    split
    · exact absurd rfl hpoint
    · rfl
  · have hspan : spanDigits (whole ++ '.' :: (fraction ++ tail)) =
        (whole, '.' :: (fraction ++ tail)) :=
      spanDigits_append hwhole.isRow (endsRow_cons (by decide) _)
    have hbehind : spanDigits (fraction ++ tail) = (fraction, tail) :=
      spanDigits_append hfraction htail
    simp only [List.isEmpty_eq_false_iff.mpr hempty, Bool.false_eq_true, if_false, List.cons_append,
      hspan, hbehind, hne, Bool.false_and]

/-- What may come after the digits of a word: nothing, or a power of ten. -/
def IsPower (tail : List Char) : Prop :=
  tail = [] ∨ ∃ plus exponent, tail = 'e' :: signed plus exponent

theorem IsPower.endsRow {tail : List Char} (h : IsPower tail) : EndsRow tail := by
  rcases h with rfl | ⟨plus, exponent, rfl⟩
  · exact endsRow_nil
  · exact endsRow_cons (by decide) _

theorem IsPower.head_ne {tail : List Char} (h : IsPower tail) : tail.head? ≠ some '.' := by
  rcases h with rfl | ⟨plus, exponent, rfl⟩
  · decide
  · simp

theorem readUnsigned?_spelled {whole fraction tail : List Char} (hwhole : IsWhole whole)
    (hfraction : IsRow fraction) (htail : IsPower tail) :
    ∃ s, readUnsigned? (spelled whole fraction tail) = some s := by
  rw [readUnsigned?, readMantissa_spelled hwhole hfraction htail.endsRow htail.head_ne]
  rcases htail with rfl | ⟨plus, exponent, rfl⟩
  · exact ⟨_, rfl⟩
  · refine ⟨⟨ofDigits (whole ++ fraction), -(fraction.length : Int) + exponent⟩, ?_⟩
    simp [readInt?_signed]

/-! ### The shortest digits -/

theorem unpack_ne_zero {x : Binary64} (h : x.isZero = false) : x.unpack.1 ≠ 0 := by
  have hne : x.magnitude ≠ 0 := by simpa [isZero] using h
  rw [unpack, BinaryFormat.unpack]
  split
  · next hfield =>
    have := Nat.div_add_mod x.magnitude (2 ^ BinaryFormat.double.fractionBits)
    rw [hfield, Nat.mul_zero, Nat.zero_add] at this
    omega
  · have := Nat.two_pow_pos BinaryFormat.double.fractionBits
    show 2 ^ BinaryFormat.double.fractionBits + _ ≠ 0
    omega

theorem interval_low_pos {x : Binary64} (h : x.isZero = false) : 0 < x.interval.low := by
  have hne := unpack_ne_zero h
  simp only [interval]
  refine Nat.mul_pos ?_ (Nat.two_pow_pos _)
  split <;> omega

theorem interval_den_pos (x : Binary64) : 0 < x.interval.den := by
  simp only [interval]
  exact Nat.two_pow_pos _

theorem Interval.bounds_of_holds {i : Interval} {num den : Nat} (h : i.holds num den = true) :
    i.low * den ≤ num * i.den ∧ num * i.den ≤ i.high * den := by
  rw [Interval.holds] at h
  split at h
  · simpa using h
  · have : i.low * den < num * i.den ∧ num * i.den < i.high * den := by simpa using h
    omega

/-- What is found on a grid lies in the interval. -/
theorem Interval.holds_of_onGrid {i : Interval} {ties : Ties} {place : Int} {c : Nat}
    (h : i.onGrid ties place = some c) :
    i.holds (c * 10 ^ place.toNat) (10 ^ (-place).toNat) = true := by
  simp only [onGrid] at h
  split at h
  · next hbelow habove =>
    split at h
    · cases h
      exact hbelow
    · cases h
      exact habove
  · next hbelow habove =>
    cases h
    exact hbelow
  · next hbelow habove =>
    cases h
    exact habove
  · cases h

theorem coefficient_ne_zero_of_holds {i : Interval} {num den : Nat} (hlow : 0 < i.low)
    (hden : 0 < den) (h : i.holds num den = true) : num ≠ 0 := by
  rintro rfl
  have hbounds := (Interval.bounds_of_holds h).1
  rw [Nat.zero_mul] at hbounds
  exact absurd hbounds (Nat.not_le.mpr (Nat.mul_pos hlow hden))

/-- The shortest digits are found on a grid and stripped of zeros, or they are the significand's. -/
theorem shortest_cases (x : Binary64) (ties : Ties) :
    (∃ place c, x.interval.onGrid ties place = some c ∧
      x.shortest ties = Scientific.strip 17 ⟨c, place⟩) ∨
    x.shortest ties = ⟨x.unpack.1, 0⟩ := by
  simp only [shortest]
  split
  · next s hfound =>
    obtain ⟨k, -, hgrid⟩ := List.exists_of_findSome?_eq_some hfound
    obtain ⟨c, hc, rfl⟩ := Option.map_eq_some_iff.mp hgrid
    exact .inl ⟨_, c, hc, rfl⟩
  · exact .inr rfl

theorem shortest_congr {x y : Binary64} (h : x.magnitude = y.magnitude) (ties : Ties) :
    x.shortest ties = y.shortest ties := by
  have hunpack : x.unpack = y.unpack := by rw [unpack, unpack, h]
  have hinterval : x.interval = y.interval := by rw [interval, interval, hunpack]
  rw [shortest, shortest, hinterval, hunpack]

theorem shortest_ne_zero {x : Binary64} (h : x.isZero = false) (ties : Ties) :
    (x.shortest ties).coefficient ≠ 0 := by
  rcases x.shortest_cases ties with ⟨place, c, hgrid, heq⟩ | heq
  · rw [heq]
    apply Scientific.strip_ne_zero
    have hnum := coefficient_ne_zero_of_holds (interval_low_pos h) (Nat.pow_pos (by decide))
      (Interval.holds_of_onGrid hgrid)
    exact fun hc => hnum (by rw [show c = 0 from hc, Nat.zero_mul])
  · rw [heq]
    exact unpack_ne_zero h

/-- Whatever bounds the numbers that round to a word bounds its shortest digits. -/
theorem shortest_atMost {x : Binary64} {bound : Nat} (hunpack : x.unpack.1 ≤ bound)
    (hhigh : x.interval.high ≤ bound * x.interval.den) (ties : Ties) :
    (x.shortest ties).AtMost bound := by
  rcases x.shortest_cases ties with ⟨place, c, hgrid, heq⟩ | heq
  · rw [heq]
    apply Scientific.strip_atMost
    have hbound := (Interval.bounds_of_holds (Interval.holds_of_onGrid hgrid)).2
    have hmul := Nat.mul_le_mul_right (10 ^ (-place).toNat) hhigh
    refine Nat.le_of_mul_le_mul_right ?_ x.interval_den_pos
    show c * 10 ^ place.toNat * x.interval.den ≤ bound * 10 ^ (-place).toNat * x.interval.den
    rw [Nat.mul_right_comm bound]
    exact Nat.le_trans hbound hmul
  · rw [heq]
    show x.unpack.1 * 10 ^ 0 ≤ bound * 10 ^ 0
    rwa [Nat.pow_zero, Nat.mul_one, Nat.mul_one]

/-! ### Words -/

section

variable {x : Binary64} (style : Style)

theorem write_zero (hnan : x.isNaN = false) (hinfinite : x.isInfinite = false)
    (hzero : x.isZero = true) :
    (x.write style).toList =
      (if x.isNegative then ['-'] else []) ++ positional ⟨0, 0⟩ style.places := by
  simp [write, hnan, hinfinite, hzero]

/-- The point is put in its place if the leading digit is in a range, or else the exponent is written. -/
def laidOut (s : Scientific) : List Char :=
  let power := s.exponent + (digits s.coefficient).length - 1
  if style.positionalFrom ≤ power && power < style.positionalBelow then positional s style.places
  else exponential style s

theorem write_finite (hnan : x.isNaN = false) (hinfinite : x.isInfinite = false)
    (hzero : x.isZero = false) :
    (x.write style).toList =
      (if x.isNegative then ['-'] else []) ++ laidOut style (x.shortest style.ties) := by
  simp only [write, hnan, hinfinite, hzero, Bool.false_eq_true, if_false, String.toList_ofList]
  rfl

/-- The digits of a word that is finite are spelled out, or they are followed by a power of ten. -/
theorem exists_spelled (hnan : x.isNaN = false) (hinfinite : x.isInfinite = false) :
    ∃ whole fraction tail, (x.write style).toList =
        (if x.isNegative then ['-'] else []) ++ spelled whole fraction tail ∧
      IsWhole whole ∧ IsRow fraction ∧ IsPower tail := by
  cases hzero : x.isZero with
  | true =>
    obtain ⟨whole, fraction, heq, hwhole, hfraction, -⟩ :=
      positional_eq (s := (⟨0, 0⟩ : Scientific)) (.inr rfl) style.places
    rw [write_zero style hnan hinfinite hzero, heq]
    exact ⟨whole, fraction, [], rfl, hwhole, hfraction, .inl rfl⟩
  | false =>
    rw [write_finite style hnan hinfinite hzero]
    simp only [laidOut]
    generalize hs : x.shortest style.ties = s
    have hne : s.coefficient ≠ 0 := hs ▸ shortest_ne_zero hzero style.ties
    obtain ⟨whole, fraction, heq, hwhole, hfraction, -⟩ := positional_eq (.inl hne) style.places
    cases (decide (style.positionalFrom ≤ s.exponent + (digits s.coefficient).length - 1) &&
      decide (s.exponent + (digits s.coefficient).length - 1 < style.positionalBelow)) with
    | true =>
      rw [if_pos rfl, heq]
      exact ⟨whole, fraction, [], rfl, hwhole, hfraction, .inl rfl⟩
    | false =>
      rw [if_neg Bool.false_ne_true, exponential_eq]
      exact ⟨_, _, _, rfl, (isWhole_digits s.coefficient).take Nat.one_pos, (isRow_digits _).drop 1,
        .inr ⟨_, _, rfl⟩⟩

end

theorem exists_digit {row : List Char} (h : IsWhole row) :
    ∃ c rest, row = c :: rest ∧ isDigit c = true := by
  obtain ⟨c, rest, rfl⟩ := List.exists_cons_of_ne_nil h.ne_nil
  exact ⟨c, rest, rfl, h.isRow c List.mem_cons_self⟩

/-- What is read after the sign. -/
def readBody (negative : Bool) (body : List Char) : Option Binary64 :=
  let lower := String.ofList (body.map Char.toLower)
  if lower == "nan" then some (ofMagnitude negative nan.magnitude)
  else if lower == "inf" || lower == "infinity" then
    some (ofMagnitude negative BinaryFormat.double.infinity)
  else (readUnsigned? body).map (ofScientific negative)

theorem read?_minus (body : List Char) : read? ('-' :: body) = readBody true body :=
  rfl

theorem read?_digit {c : Char} (h : isDigit c = true) (rest : List Char) :
    read? (c :: rest) = readBody false (c :: rest) := by
  unfold read?
  split
  next negative body heq =>
    split at heq
    · next hminus =>
      obtain ⟨rfl, -⟩ := List.cons.inj hminus
      cases h
    · next hplus =>
      obtain ⟨rfl, -⟩ := List.cons.inj hplus
      cases h
    · cases heq
      rfl

theorem exists_readBody {body : List Char} {s : Scientific} (h : readUnsigned? body = some s)
    (negative : Bool) : ∃ y, readBody negative body = some y := by
  simp only [readBody, h]
  split
  · exact ⟨_, rfl⟩
  · split
    · exact ⟨_, rfl⟩
    · exact ⟨_, rfl⟩

/-- The text of a value is read as a number. -/
theorem read?_valueText (x : Binary64) : ∃ y, read? x.valueText.toList = some y := by
  cases hnan : x.isNaN with
  | true =>
    have htext : x.valueText = "NaN" := by
      rw [valueText, write, hnan]
      rfl
    rw [htext]
    exact ⟨ofMagnitude false nan.magnitude, by decide⟩
  | false =>
    cases hinfinite : x.isInfinite with
    | true =>
      have htext : x.valueText = if x.isNegative then "-Infinity" else "Infinity" := by
        rw [valueText, write, hnan, hinfinite]
        cases x.isNegative with
        | true => rfl
        | false => rfl
      rw [htext]
      cases x.isNegative with
      | true => exact ⟨negInfinity, by decide⟩
      | false => exact ⟨infinity, by decide⟩
    | false =>
      obtain ⟨whole, fraction, tail, htext, hwhole, hfraction, htail⟩ :=
        exists_spelled valueStyle hnan hinfinite
      obtain ⟨s, hs⟩ := readUnsigned?_spelled hwhole hfraction htail
      obtain ⟨c, rest, rfl, hc⟩ := exists_digit hwhole
      rw [valueText, htext]
      cases x.isNegative with
      | true =>
        rw [if_pos rfl, List.singleton_append, read?_minus]
        exact exists_readBody hs true
      | false =>
        rw [if_neg Bool.false_ne_true, List.nil_append, spelled, List.cons_append, read?_digit hc]
        exact exists_readBody hs false

end Binary64

end Polystore.Number
