import Mathlib.Data.List.TakeDrop
import Mathlib.Data.List.TakeWhile
import Polystore.Number.DecimalText
import Polystore.Proofs.Text.Digits

/-!
Decimal text that is read exactly: a sign, digits, and a point with no more places after it than a
decimal has. The places that were written are the places of what is read.
-/

namespace Polystore.Number.Decimal

open Polystore.Text

theorem readDigits_digit (negative : Bool) {p : Progress} {c : Char} (rest : List Char)
    (hc : isDigit c = true) (hroom : p.seenPoint = true → p.scale < 28)
    (hfit : 10 * p.mantissa + digitValue c < 2 ^ 96) :
    readDigits negative p (c :: rest) =
      readDigits negative ⟨10 * p.mantissa + digitValue c,
        if p.seenPoint then p.scale + 1 else 0, true, p.seenPoint⟩ rest := by
  have hround : (p.seenPoint && p.scale == maxScale) = false := by
    rw [Bool.and_eq_false_imp]
    intro hpoint
    have := hroom hpoint
    simp only [maxScale, beq_eq_false_iff_ne, ne_eq]
    omega
  rw [readDigits]
  simp only [hround, hc, Bool.false_eq_true, if_false, if_true, if_neg (Nat.not_le.mpr hfit)]

/-- Reading the first digit of a row and then the others comes to reading the row. -/
theorem ofDigits_shifted (n : Nat) (c : Char) (row : List Char) :
    (10 * n + digitValue c) * 10 ^ row.length + ofDigits row =
      n * 10 ^ (c :: row).length + ofDigits (c :: row) := by
  rw [ofDigits_cons, List.length_cons, Nat.pow_succ, Nat.add_mul]
  rw [Nat.mul_comm 10 n, Nat.mul_assoc, Nat.mul_comm 10, Nat.add_assoc]

/-- A row of digits that fits is added to what has been read, on either side of the point. -/
theorem readDigits_row (negative : Bool) {row : List Char} (hrow : IsRow row) (rest : List Char)
    (p : Progress) (hwhole : p.seenPoint = false → p.scale = 0)
    (hroom : p.seenPoint = true → p.scale + row.length ≤ 28)
    (hfit : p.mantissa * 10 ^ row.length + ofDigits row < 2 ^ 96) :
    readDigits negative p (row ++ rest) =
      readDigits negative ⟨p.mantissa * 10 ^ row.length + ofDigits row,
        if p.seenPoint then p.scale + row.length else 0,
        p.seenDigit || !row.isEmpty, p.seenPoint⟩ rest := by
  induction row generalizing p with
  | nil =>
    obtain ⟨mantissa, scale, seenDigit, seenPoint⟩ := p
    cases seenPoint with
    | false =>
      obtain rfl : scale = 0 := hwhole rfl
      simp [ofDigits]
    | true => simp [ofDigits]
  | cons c row ih =>
    have hc : isDigit c = true := hrow c List.mem_cons_self
    have hmantissa := ofDigits_shifted p.mantissa c row
    have hstep : 10 * p.mantissa + digitValue c < 2 ^ 96 := by
      refine Nat.lt_of_le_of_lt ?_ hfit
      rw [← hmantissa]
      exact Nat.le_trans (Nat.le_mul_of_pos_right _ (Nat.pow_pos (by decide)))
        (Nat.le_add_right _ _)
    rw [List.cons_append, readDigits_digit negative _ hc _ hstep, ih hrow.tail]
    · simp only [hmantissa, List.length_cons, List.isEmpty_cons, Bool.true_or, Bool.not_false,
        Bool.or_true]
      cases p.seenPoint with
      | false => rfl
      | true => simp only [if_true, Nat.add_assoc, Nat.add_comm 1]
    · intro hpoint
      simp only at hpoint
      simp [hpoint]
    · intro hpoint
      have := hroom hpoint
      simp only [List.length_cons] at this
      simp only at hpoint
      simp only [hpoint, if_true]
      omega
    · rw [hmantissa]
      exact hfit
    · intro hpoint
      have := hroom hpoint
      simp only [List.length_cons] at this
      omega

theorem not_isExponentMark_of_isDigit {c : Char} (h : isDigit c = true) :
    isExponentMark c = false := by
  have hne : ∀ d : Char, isDigit d = false → c ≠ d := by
    rintro d hd rfl
    rw [h] at hd
    cases hd
  simp only [isExponentMark, Bool.or_eq_false_iff, beq_eq_false_iff_ne]
  exact ⟨hne 'e' (by decide), hne 'E' (by decide)⟩

/-- A text without an exponent is read as it stands. -/
theorem read_eq_readPlain {text : List Char} (h : ∀ c ∈ text, isExponentMark c = false) :
    read text = readPlain text := by
  have hspan : text.span (!isExponentMark ·) = (text, []) := by
    rw [List.span_eq_takeWhile_dropWhile]
    have hall : ∀ c ∈ text, (!isExponentMark c) = true := by
      intro c hc
      rw [h c hc]
      rfl
    rw [List.takeWhile_eq_self_iff.mpr hall, List.dropWhile_eq_nil_iff.mpr hall]
  rw [read, hspan]

/-- The text of digits around a point; there is no point before no digits. -/
def plainText (negative : Bool) (whole fraction : List Char) : List Char :=
  (if negative then ['-'] else []) ++ whole ++ if fraction.isEmpty then [] else '.' :: fraction

theorem readPlain_signed (negative : Bool) {text : List Char}
    (hhead : ∃ c rest, text = c :: rest ∧ isDigit c = true) :
    readPlain ((if negative then ['-'] else []) ++ text) = readDigits negative .start text := by
  cases negative with
  | true => rfl
  | false =>
    obtain ⟨c, rest, rfl, hc⟩ := hhead
    simp only [Bool.false_eq_true, if_false, List.nil_append]
    unfold readPlain
    split
    · next h => cases h
    · next h =>
      cases h
      exact absurd hc (by decide)
    · next h =>
      cases h
      exact absurd hc (by decide)
    · rfl

theorem readDigits_point (negative : Bool) (p : Progress) (rest : List Char)
    (hp : p.seenPoint = false) :
    readDigits negative p ('.' :: rest) = readDigits negative { p with seenPoint := true } rest := by
  rw [readDigits]
  simp [hp, show isDigit '.' = false from by decide]

theorem finish_eq_ok (negative : Bool) {p : Progress} (hseen : p.seenDigit = true)
    (hmantissa : p.mantissa < 2 ^ 96) (hscale : p.scale ≤ 28) :
    finish negative p =
      .ok ⟨negative && p.mantissa != 0, p.mantissa, p.scale, hmantissa, hscale⟩ := by
  have hparts : p.mantissa < 2 ^ 96 ∧ p.scale ≤ 28 := ⟨hmantissa, hscale⟩
  rw [finish, if_pos hseen, ofParts?, dif_pos hparts]

/-- Digits around a point are read from left to right, with the sign before them. -/
theorem read_plainText_eq (negative : Bool) {whole fraction : List Char} (hwhole : IsRow whole)
    (hne : whole ≠ []) (hfraction : IsRow fraction) :
    read (plainText negative whole fraction) =
      readDigits negative .start (whole ++ if fraction.isEmpty then [] else '.' :: fraction) := by
  have hmark : ∀ c ∈ plainText negative whole fraction, isExponentMark c = false := by
    intro c hc
    simp only [plainText, List.mem_append] at hc
    rcases hc with (hc | hc) | hc
    · cases negative with
      | true =>
        rw [List.mem_singleton.mp hc]
        rfl
      | false => cases hc
    · exact not_isExponentMark_of_isDigit (hwhole c hc)
    · split at hc
      · cases hc
      · rcases List.mem_cons.mp hc with rfl | hc
        · rfl
        · exact not_isExponentMark_of_isDigit (hfraction c hc)
  have hhead : ∃ c rest, (whole ++ if fraction.isEmpty then [] else '.' :: fraction) = c :: rest ∧
      isDigit c = true := by
    obtain ⟨c, row, rfl⟩ := List.exists_cons_of_ne_nil hne
    exact ⟨c, _, rfl, hwhole c List.mem_cons_self⟩
  rw [read_eq_readPlain hmark, plainText, List.append_assoc, readPlain_signed negative hhead]

/-- The digits before the point, if they fit. -/
theorem readDigits_whole (negative : Bool) {whole : List Char} (hwhole : IsRow whole)
    (hne : whole ≠ []) (hfit : ofDigits whole < 2 ^ 96) (rest : List Char) :
    readDigits negative .start (whole ++ rest) =
      readDigits negative ⟨ofDigits whole, 0, true, false⟩ rest := by
  rw [readDigits_row negative hwhole rest .start (fun _ => rfl) (fun h => nomatch h)
    (by simpa [Progress.start] using hfit)]
  simp [Progress.start, List.isEmpty_eq_false_iff.mpr hne]

theorem ofDigits_le_append (whole fraction : List Char) :
    ofDigits whole ≤ ofDigits (whole ++ fraction) := by
  rw [ofDigits_append]
  exact Nat.le_trans (Nat.le_mul_of_pos_right _ (Nat.pow_pos (by decide))) (Nat.le_add_right _ _)

/-- Digits around a point that fit are read exactly, with the places that were written. Only a zero
loses its sign. -/
theorem read_plainText (negative : Bool) {whole fraction : List Char} (hwhole : IsRow whole)
    (hne : whole ≠ []) (hfraction : IsRow fraction) (hplaces : fraction.length ≤ 28)
    (hfit : ofDigits (whole ++ fraction) < 2 ^ 96) :
    read (plainText negative whole fraction) =
      .ok ⟨negative && ofDigits (whole ++ fraction) != 0, ofDigits (whole ++ fraction),
        fraction.length, hfit, hplaces⟩ := by
  have happ := ofDigits_append whole fraction
  have hwholefit : ofDigits whole < 2 ^ 96 :=
    Nat.lt_of_le_of_lt (ofDigits_le_append whole fraction) hfit
  rw [read_plainText_eq negative hwhole hne hfraction,
    readDigits_whole negative hwhole hne hwholefit]
  cases fraction with
  | nil =>
    simp only [List.isEmpty_nil, if_true, readDigits, List.append_nil, List.length_nil]
    exact finish_eq_ok negative rfl hwholefit (Nat.zero_le 28)
  | cons c row =>
    have hlast := readDigits_row negative hfraction [] ⟨ofDigits whole, 0, true, true⟩
      (fun h => nomatch h) (fun _ => by simpa using hplaces) (by rwa [← happ])
    rw [List.append_nil] at hlast
    simp only [List.isEmpty_cons, Bool.false_eq_true, if_false]
    rw [readDigits_point negative _ _ rfl, hlast, readDigits]
    simp only [← happ, if_true, Nat.zero_add, Bool.true_or]
    exact finish_eq_ok negative rfl hfit hplaces

end Polystore.Number.Decimal
