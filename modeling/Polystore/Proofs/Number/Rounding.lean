import Mathlib.Tactic.FieldSimp
import Mathlib.Tactic.Linarith
import Mathlib.Tactic.Positivity
import Polystore.Proofs.Number.Reading
import Polystore.Proofs.Number.Value

/-!
Decimal text with more digits than a decimal has room for. Digits after the point are kept as long
as there is room, and the first one that is not kept decides the rounding. Main statement: a text is
refused only if its number is too large, and otherwise read as a nearest decimal with as many places;
it is read exactly if its number is that of any decimal.
-/

namespace Polystore.Number.Decimal

open Polystore.Text

/-- Digits have been read on both sides of the point, and they fit. -/
structure Progress.BehindPoint (p : Progress) : Prop where
  point : p.seenPoint = true
  digit : p.seenDigit = true
  places : p.scale ≤ 28
  fits : p.mantissa < 2 ^ 96

/-- The number of what has been read with more digits after it. -/
def Progress.numberWith (p : Progress) (row : List Char) : ℚ :=
  (p.mantissa * 10 ^ row.length + ofDigits row : Nat) / 10 ^ (p.scale + row.length)

/-- There is no room for one digit more. -/
def Progress.Full (p : Progress) (row : List Char) : Prop :=
  ∀ c rest, row = c :: rest → p.scale = 28 ∨ 2 ^ 96 ≤ 10 * p.mantissa + digitValue c

theorem Progress.numberWith_eq (p : Progress) (row : List Char) :
    p.numberWith row = (p.mantissa + ofDigits row / 10 ^ row.length) / 10 ^ p.scale := by
  rw [numberWith, pow_add]
  push_cast
  field_simp

theorem readDigits_until_full (negative : Bool) {row : List Char} (hrow : IsRow row) {p : Progress}
    (hp : p.BehindPoint) :
    ∃ q rest, q.BehindPoint ∧ IsRow rest ∧ q.Full rest ∧
      readDigits negative p row = readDigits negative q rest ∧
      q.numberWith rest = p.numberWith row ∧
      q.scale + rest.length = p.scale + row.length := by
  -- the number is kept while a digit goes over from what is left to what has been read
  induction row generalizing p with
  | nil => exact ⟨p, [], hp, hrow, (fun _ _ h => nomatch h), rfl, rfl, rfl⟩
  | cons c row ih =>
    by_cases hfull : p.scale = 28 ∨ 2 ^ 96 ≤ 10 * p.mantissa + digitValue c
    · refine ⟨p, c :: row, hp, hrow, ?_, rfl, rfl, rfl⟩
      intro d rest h
      cases h
      exact hfull
    · rw [not_or, not_le] at hfull
      have hscale := hp.places
      let next : Progress := ⟨10 * p.mantissa + digitValue c, p.scale + 1, true, true⟩
      have hnext : next.BehindPoint :=
        ⟨rfl, rfl, Nat.succ_le_of_lt (lt_of_le_of_ne hscale hfull.1), hfull.2⟩
      have hstep : readDigits negative p (c :: row) = readDigits negative next row := by
        rw [readDigits_digit negative row (hrow c List.mem_cons_self)
          (fun _ => lt_of_le_of_ne hscale hfull.1) hfull.2]
        simp only [hp.point, if_true, next]
      have hnumber : next.numberWith row = p.numberWith (c :: row) := by
        rw [Progress.numberWith, Progress.numberWith, ofDigits_shifted, List.length_cons,
          Nat.add_right_comm, Nat.add_assoc p.scale]
      obtain ⟨q, rest, hq, hrest, hqfull, hread, hvalue, hlength⟩ := ih hrow.tail hnext
      refine ⟨q, rest, hq, hrest, hqfull, hstep.trans hread, hvalue.trans hnumber, ?_⟩
      rw [hlength, List.length_cons, Nat.add_right_comm, Nat.add_assoc p.scale]

/-- A decimal that is equal to a full number has no more places than were read: with one more it
would be too large. -/
theorem Progress.Full.scale_le {q : Progress} {c : Char} {later : List Char}
    (hfull : q.Full (c :: later)) {e : Decimal}
    (he : e.mantissa * 10 ^ (q.scale + (c :: later).length) =
      (q.mantissa * 10 ^ (c :: later).length + ofDigits (c :: later)) * 10 ^ e.scale) :
    e.scale ≤ q.scale := by
  by_contra hmore
  have hroom : 2 ^ 96 ≤ 10 * q.mantissa + digitValue c := by
    rcases hfull c later rfl with h | h
    · have := e.scale_le
      omega
    · exact h
  have hspelled : (10 * q.mantissa + digitValue c) * 10 ^ later.length ≤
      q.mantissa * 10 ^ (c :: later).length + ofDigits (c :: later) := by
    rw [← ofDigits_shifted]
    exact Nat.le_add_right _ _
  have hlarge : 2 ^ 96 * 10 ^ (q.scale + (c :: later).length) ≤
      e.mantissa * 10 ^ (q.scale + (c :: later).length) := by
    rw [he]
    calc
      2 ^ 96 * 10 ^ (q.scale + (c :: later).length)
        = 2 ^ 96 * 10 ^ later.length * 10 ^ (q.scale + 1) := by
          rw [List.length_cons, Nat.mul_assoc, ← Nat.pow_add]
          congr 2
          omega
      _ ≤ (q.mantissa * 10 ^ (c :: later).length + ofDigits (c :: later)) * 10 ^ e.scale := by
          refine Nat.mul_le_mul ?_ (Nat.pow_le_pow_right (by decide) (Nat.not_le.mp hmore))
          exact Nat.le_trans (Nat.mul_le_mul_right _ hroom) hspelled
  exact absurd (Nat.le_of_mul_le_mul_right hlarge (Nat.pow_pos (by decide)))
    (Nat.not_le.mpr e.mantissa_lt)

theorem Progress.Full.rest_eq_zero {q : Progress} {rest : List Char} (hfull : q.Full rest)
    (hrest : IsRow rest) {e : Decimal} (he : e.size = q.numberWith rest) : ofDigits rest = 0 := by
  cases rest with
  | nil => rfl
  | cons c later =>
    have hequal : e.mantissa * 10 ^ (q.scale + (c :: later).length) =
        (q.mantissa * 10 ^ (c :: later).length + ofDigits (c :: later)) * 10 ^ e.scale := by
      rw [size, numberWith, div_eq_div_iff (by positivity) (by positivity)] at he
      exact_mod_cast he
    have hscale := hfull.scale_le hequal
    -- what is left is divisible by a power of ten that it is less than
    have hdivides : 10 ^ (c :: later).length ∣
        q.mantissa * 10 ^ (c :: later).length + ofDigits (c :: later) := by
      refine ⟨e.mantissa * 10 ^ (q.scale - e.scale), ?_⟩
      apply Nat.eq_of_mul_eq_mul_right (Nat.pow_pos (by decide) : 0 < 10 ^ e.scale)
      rw [← hequal, Nat.mul_assoc, Nat.mul_assoc, ← Nat.pow_add, Nat.sub_add_cancel hscale,
        Nat.pow_add]
      ring
    exact Nat.eq_zero_of_dvd_of_lt ((Nat.dvd_add_right (Nat.dvd_mul_left _ _)).mp hdivides)
      (ofDigits_lt hrest)

/-- A decimal as near to a number as its places allow, and equal to it if any decimal is. -/
structure Rounds (negative : Bool) (places : Nat) (x : ℚ) (d : Decimal) : Prop where
  sign : d.negative = (negative && d.mantissa != 0)
  places : d.scale ≤ places
  near : |d.size - x| ≤ 1 / 2 / 10 ^ d.scale
  exact : (∃ e : Decimal, e.size = x) → d.size = x

/-- What comes of reading a number: it is rounded, or refused if it is too large for that. -/
def Outcome (negative : Bool) (places : Nat) (x : ℚ) : Except ReadError Decimal → Prop
  | .ok d => x < 2 ^ 96 - 1 / 2 ∧ Rounds negative places x d
  | .error _ => 2 ^ 96 - 1 / 2 ≤ x

theorem abs_div_sub_div_le {k y b : ℚ} (h : |k - y| ≤ b) (s : Nat) :
    |k / 10 ^ s - y / 10 ^ s| ≤ b / 10 ^ s := by
  rw [← sub_div, abs_div, abs_of_pos (by positivity : (0 : ℚ) < 10 ^ s)]
  exact div_le_div_of_nonneg_right h (by positivity)

theorem div_ten_pow_le {y : ℚ} (h : 0 ≤ y) (s : Nat) : y / 10 ^ s ≤ y :=
  div_le_self h (one_le_pow₀ (by norm_num))

section
variable {q : Progress} {rest : List Char}

theorem rest_lt_half (h : 2 * ofDigits rest < 10 ^ rest.length) :
    (ofDigits rest : ℚ) / 10 ^ rest.length < 1 / 2 := by
  rw [div_lt_div_iff₀ (by positivity) (by norm_num)]
  have : (2 * ofDigits rest : ℚ) < 10 ^ rest.length := by exact_mod_cast h
  linarith

theorem finish_outcome (negative : Bool) (hq : q.BehindPoint) (hrest : IsRow rest)
    (hfull : q.Full rest) (hlow : 2 * ofDigits rest < 10 ^ rest.length) :
    Outcome negative (q.scale + rest.length) (q.numberWith rest) (finish negative q) := by
  have hhalf := rest_lt_half hlow
  have hnonneg : (0 : ℚ) ≤ ofDigits rest / 10 ^ rest.length := by positivity
  have hmantissa : (q.mantissa : ℚ) ≤ 2 ^ 96 - 1 := by
    have : (q.mantissa + 1 : ℚ) ≤ 2 ^ 96 := by exact_mod_cast hq.fits
    linarith
  rw [finish_eq_ok negative hq.digit hq.fits hq.places]
  refine ⟨?_, rfl, Nat.le_add_right _ _, ?_, ?_⟩
  · rw [Progress.numberWith_eq]
    refine lt_of_le_of_lt (div_ten_pow_le (by positivity) _) ?_
    linarith
  · rw [size, Progress.numberWith_eq]
    refine abs_div_sub_div_le ?_ q.scale
    rw [abs_le]
    constructor <;> linarith
  · rintro ⟨e, he⟩
    rw [size, Progress.numberWith_eq, hfull.rest_eq_zero hrest he, Nat.cast_zero, zero_div, add_zero]

theorem not_exact (hrest : IsRow rest) (hfull : q.Full rest)
    (hhigh : 10 ^ rest.length ≤ 2 * ofDigits rest) :
    ¬ ∃ e : Decimal, e.size = q.numberWith rest := by
  rintro ⟨e, he⟩
  rw [hfull.rest_eq_zero hrest he] at hhigh
  exact absurd hhigh (Nat.not_le.mpr (Nat.pow_pos (by decide)))

/-- A carry out of the greatest mantissa ends with a zero, which is given up with its place. -/
theorem carry_outcome (negative : Bool) (hq : q.BehindPoint) (hlast : q.mantissa = 2 ^ 96 - 1)
    (hscale : q.scale ≠ 0) (hinexact : ¬ ∃ e : Decimal, e.size = q.numberWith rest)
    (hlow : (0 : ℚ) ≤ ofDigits rest / 10 ^ rest.length)
    (hone : (ofDigits rest : ℚ) / 10 ^ rest.length < 1) :
    Outcome negative (q.scale + rest.length) (q.numberWith rest)
      (finish negative { q with mantissa := (q.mantissa + 5) / 10, scale := q.scale - 1 }) := by
  have hcarry : (((q.mantissa + 5) / 10 : Nat) : ℚ) * 10 = q.mantissa + 5 := by
    rw [hlast]
    norm_num
  have hfits : (q.mantissa + 5) / 10 < 2 ^ 96 := by
    have := hq.fits
    omega
  have hplaces : q.scale - 1 ≤ 28 := Nat.le_trans (Nat.sub_le _ _) hq.places
  obtain ⟨s, hs⟩ := Nat.exists_eq_succ_of_ne_zero hscale
  have hsize : (((q.mantissa + 5) / 10 : Nat) : ℚ) / 10 ^ s = (q.mantissa + 5) / 10 ^ (s + 1) := by
    rw [← hcarry, pow_succ, mul_div_mul_right _ _ (by norm_num)]
  rw [finish_eq_ok negative
    (p := { q with mantissa := (q.mantissa + 5) / 10, scale := q.scale - 1 }) hq.digit hfits hplaces]
  refine ⟨?_, rfl, Nat.le_trans (Nat.sub_le _ _) (Nat.le_add_right _ _), ?_,
    fun h => absurd h hinexact⟩
  · rw [Progress.numberWith_eq, hs, pow_succ, ← div_div, div_lt_iff₀ (by norm_num), hlast]
    refine lt_of_le_of_lt (div_ten_pow_le (by positivity) _) ?_
    push_cast
    linarith
  · change |(((q.mantissa + 5) / 10 : Nat) : ℚ) / 10 ^ (q.scale - 1) - q.numberWith rest| ≤
      1 / 2 / 10 ^ (q.scale - 1)
    have hfive : (5 : ℚ) / 10 ^ (s + 1) = 1 / 2 / 10 ^ s := by
      rw [pow_succ]
      field_simp
      norm_num
    rw [Progress.numberWith_eq, hs, Nat.succ_sub_one, hsize, ← hfive]
    refine abs_div_sub_div_le ?_ (s + 1)
    rw [abs_le]
    constructor <;> linarith

theorem roundUp_outcome (negative : Bool) (hq : q.BehindPoint) (hrest : IsRow rest)
    (hfull : q.Full rest) (hhigh : 10 ^ rest.length ≤ 2 * ofDigits rest) :
    Outcome negative (q.scale + rest.length) (q.numberWith rest) (roundUp negative q) := by
  have hinexact := not_exact hrest hfull hhigh
  have hhalf : (1 / 2 : ℚ) ≤ ofDigits rest / 10 ^ rest.length := by
    rw [div_le_div_iff₀ (by norm_num) (by positivity)]
    have : (10 ^ rest.length : ℚ) ≤ 2 * ofDigits rest := by exact_mod_cast hhigh
    linarith
  have hone : (ofDigits rest : ℚ) / 10 ^ rest.length < 1 := by
    rw [div_lt_one (by positivity)]
    exact_mod_cast ofDigits_lt hrest
  rw [roundUp]
  split
  · next hroom =>
    have hmantissa : (q.mantissa : ℚ) + 1 ≤ 2 ^ 96 - 1 := by
      have : (q.mantissa + 1 + 1 : ℚ) ≤ 2 ^ 96 := by exact_mod_cast hroom
      linarith
    rw [finish_eq_ok negative (p := { q with mantissa := q.mantissa + 1 }) hq.digit hroom hq.places]
    refine ⟨?_, rfl, Nat.le_add_right _ _, ?_, fun h => absurd h hinexact⟩
    · rw [Progress.numberWith_eq]
      refine lt_of_le_of_lt (div_ten_pow_le (by positivity) _) ?_
      linarith
    · rw [size, Progress.numberWith_eq]
      refine abs_div_sub_div_le ?_ q.scale
      rw [abs_le]
      push_cast
      constructor <;> linarith
  · next hroom =>
    have hlast : q.mantissa = 2 ^ 96 - 1 := by
      have := hq.fits
      omega
    split
    · next hscale =>
      change (2 : ℚ) ^ 96 - 1 / 2 ≤ q.numberWith rest
      rw [Progress.numberWith_eq, hscale, pow_zero, div_one, hlast]
      push_cast
      linarith
    · next hscale =>
      exact carry_outcome negative hq hlast hscale hinexact (le_trans (by norm_num) hhalf) hone

theorem five_le_iff {c : Char} {later : List Char} (h : IsRow (c :: later)) :
    5 ≤ digitValue c ↔ 10 ^ (c :: later).length ≤ 2 * ofDigits (c :: later) := by
  have hlater := ofDigits_lt h.tail
  rw [ofDigits_cons, List.length_cons, Nat.pow_succ]
  constructor
  · intro hfive
    have := Nat.mul_le_mul_right (10 ^ later.length) hfive
    omega
  · intro hhalf
    by_contra hfour
    have := Nat.mul_le_mul_right (10 ^ later.length) (Nat.le_of_not_lt (by omega : ¬ 4 < digitValue c))
    omega

theorem round_row (negative : Bool) (p : Progress) {c : Char} {later : List Char}
    (h : IsRow (c :: later)) :
    round negative p (c :: later) =
      if 5 ≤ digitValue c then roundUp negative p else finish negative p := by
  have hplace : (c :: later).find? (fun d => !isDigit d && d != '_') = none := by
    rw [List.find?_eq_none]
    intro d hd
    simp [h d hd]
  have hfirst : (c :: later).find? isDigit = some c := by
    rw [List.find?_cons, h c List.mem_cons_self]
  rw [round, hplace, hfirst]
  simp

theorem readDigits_full (negative : Bool) (hq : q.BehindPoint) {c : Char} {later : List Char}
    (hrest : IsRow (c :: later)) (hfull : q.Full (c :: later)) :
    readDigits negative q (c :: later) = round negative q (c :: later) := by
  rw [readDigits]
  by_cases hlast : q.scale = 28
  · simp [hq.point, hlast, maxScale]
  · have hroom : 2 ^ 96 ≤ 10 * q.mantissa + digitValue c := (hfull c later rfl).resolve_left hlast
    simp [hq.point, hlast, maxScale, hrest c List.mem_cons_self, hroom]

theorem readDigits_outcome (negative : Bool) (hq : q.BehindPoint) (hrest : IsRow rest) :
    Outcome negative (q.scale + rest.length) (q.numberWith rest) (readDigits negative q rest) := by
  obtain ⟨p, row, hp, hrow, hfull, hread, hnumber, hlength⟩ :=
    readDigits_until_full negative hrest hq
  rw [hread, ← hnumber, ← hlength]
  cases row with
  | nil =>
    rw [readDigits]
    exact finish_outcome negative hp hrow hfull (by decide)
  | cons c later =>
    rw [readDigits_full negative hp hrow hfull, round_row negative p hrow]
    split
    · next hfive => exact roundUp_outcome negative hp hrow hfull ((five_le_iff hrow).mp hfive)
    · next hfour =>
      rw [five_le_iff hrow, Nat.not_le] at hfour
      exact finish_outcome negative hp hrow hfull hfour

end

theorem readDigits_tooMany (negative : Bool) {row : List Char} (hrow : IsRow row)
    (rest : List Char) {p : Progress} (hpoint : p.seenPoint = false)
    (hover : 2 ^ 96 ≤ p.mantissa * 10 ^ row.length + ofDigits row) (hfit : p.mantissa < 2 ^ 96) :
    readDigits negative p (row ++ rest) = .error .tooManyDigits := by
  induction row generalizing p with
  | nil =>
    rw [List.length_nil, Nat.pow_zero, Nat.mul_one] at hover
    exact absurd hfit (Nat.not_lt.mpr hover)
  | cons c row ih =>
    have hc : isDigit c = true := hrow c List.mem_cons_self
    by_cases hroom : 10 * p.mantissa + digitValue c < 2 ^ 96
    · rw [List.cons_append, readDigits_digit negative _ hc (fun h => by simp [hpoint] at h) hroom]
      refine ih hrow.tail hpoint ?_ hroom
      rw [ofDigits_shifted]
      exact hover
    · rw [List.cons_append, readDigits]
      simp [hpoint, hc, Nat.le_of_not_lt hroom]

/-- Digits around a point are read as a nearest decimal, or refused if they spell a number that is
too large for that. -/
theorem read_plainText_outcome (negative : Bool) {whole fraction : List Char} (hwhole : IsRow whole)
    (hne : whole ≠ []) (hfraction : IsRow fraction) :
    Outcome negative fraction.length (ofDigits (whole ++ fraction) / 10 ^ fraction.length)
      (read (plainText negative whole fraction)) := by
  rw [read_plainText_eq negative hwhole hne hfraction]
  rcases Nat.lt_or_ge (ofDigits whole) (2 ^ 96) with hfit | hover
  · have hpoint : Progress.BehindPoint ⟨ofDigits whole, 0, true, true⟩ :=
      ⟨rfl, rfl, Nat.zero_le 28, hfit⟩
    have hread : readDigits negative .start (whole ++ if fraction.isEmpty then [] else '.' :: fraction) =
        readDigits negative ⟨ofDigits whole, 0, true, true⟩ fraction := by
      rw [readDigits_whole negative hwhole hne hfit]
      cases fraction with
      | nil => rfl
      | cons c row => exact readDigits_point negative _ _ rfl
    have houtcome := readDigits_outcome negative hpoint hfraction
    rw [Progress.numberWith, ← ofDigits_append, Nat.zero_add] at houtcome
    rw [hread]
    exact houtcome
  · rw [readDigits_tooMany negative hwhole _ rfl (by simpa [Progress.start] using hover) (by decide)]
    have hlarge : 2 ^ 96 * 10 ^ fraction.length ≤ ofDigits (whole ++ fraction) := by
      rw [ofDigits_append]
      exact Nat.le_trans (Nat.mul_le_mul_right _ hover) (Nat.le_add_right _ _)
    have hcast : (2 ^ 96 : ℚ) * 10 ^ fraction.length ≤ ofDigits (whole ++ fraction) := by
      exact_mod_cast hlarge
    change (2 : ℚ) ^ 96 - 1 / 2 ≤ _
    rw [le_div_iff₀ (by positivity)]
    refine le_trans (mul_le_mul_of_nonneg_right ?_ (by positivity)) hcast
    norm_num

end Polystore.Number.Decimal
