import Polystore.Number.Power
import Polystore.Text.Digits

/-!
Rows of decimal digits and the numbers they denote: appending and cutting rows, and the row that a
number is written as.
-/

namespace Polystore.Text

/-- A row that holds decimal digits only. -/
def IsRow (row : List Char) : Prop :=
  ∀ c ∈ row, isDigit c = true

theorem IsRow.append {a b : List Char} (ha : IsRow a) (hb : IsRow b) : IsRow (a ++ b) := by
  intro c hc
  rcases List.mem_append.mp hc with h | h
  · exact ha c h
  · exact hb c h

theorem IsRow.tail {c : Char} {row : List Char} (h : IsRow (c :: row)) : IsRow row :=
  fun d hd => h d (List.mem_cons_of_mem c hd)

theorem IsRow.take {row : List Char} (h : IsRow row) (n : Nat) : IsRow (row.take n) :=
  fun c hc => h c (List.mem_of_mem_take hc)

theorem IsRow.drop {row : List Char} (h : IsRow row) (n : Nat) : IsRow (row.drop n) :=
  fun c hc => h c (List.mem_of_mem_drop hc)

theorem isRow_replicate_zero (n : Nat) : IsRow (List.replicate n '0') := by
  intro c hc
  rw [List.eq_of_mem_replicate hc]
  rfl

theorem digitValue_lt {c : Char} (h : isDigit c = true) : digitValue c < 10 := by
  have hle : c ≤ '9' := by
    simp only [isDigit, Bool.and_eq_true, decide_eq_true_eq] at h
    exact h.2
  have hval : c.toNat ≤ 57 := hle
  have hzero : '0'.toNat = 48 := rfl
  rw [digitValue]
  omega

theorem ofDigits_eq_ofDigitChars (row : List Char) : ofDigits row = Nat.ofDigitChars 10 row 0 :=
  Nat.ofDigitChars_eq_foldl.symm

theorem ofDigits_append (a b : List Char) :
    ofDigits (a ++ b) = ofDigits a * 10 ^ b.length + ofDigits b := by
  simp only [ofDigits_eq_ofDigitChars, Nat.ofDigitChars_append]
  rw [Nat.ofDigitChars_eq_ofDigitChars_zero, Nat.mul_comm]

theorem ofDigits_cons (c : Char) (row : List Char) :
    ofDigits (c :: row) = digitValue c * 10 ^ row.length + ofDigits row := by
  have happ := ofDigits_append [c] row
  rw [List.singleton_append] at happ
  rw [happ]
  simp [ofDigits]

theorem ofDigits_replicate_zero (n : Nat) : ofDigits (List.replicate n '0') = 0 := by
  rw [ofDigits_eq_ofDigitChars, Nat.ofDigitChars_replicate_zero, Nat.mul_zero]

theorem ofDigits_lt {row : List Char} (h : IsRow row) : ofDigits row < 10 ^ row.length := by
  induction row with
  | nil => decide
  | cons c row ih =>
    have hrest := ih h.tail
    have hc : digitValue c < 10 := digitValue_lt (h c List.mem_cons_self)
    rw [ofDigits_cons, List.length_cons, Nat.pow_succ]
    have hmul : digitValue c * 10 ^ row.length ≤ 9 * 10 ^ row.length :=
      Nat.mul_le_mul_right _ (by omega)
    omega

/-- Cutting a row divides its number. -/
theorem ofDigits_take {row : List Char} (h : IsRow row) (n : Nat) :
    ofDigits (row.take n) = ofDigits row / 10 ^ (row.length - n) := by
  have hlt : ofDigits (row.drop n) < 10 ^ (row.length - n) := by
    have := ofDigits_lt (h.drop n)
    rwa [List.length_drop] at this
  have happ := ofDigits_append (row.take n) (row.drop n)
  rw [List.take_append_drop, List.length_drop] at happ
  rw [happ, Nat.mul_comm, Nat.mul_add_div (Nat.pow_pos (by decide)), Nat.div_eq_of_lt hlt,
    Nat.add_zero]

theorem isRow_digits (n : Nat) : IsRow (digits n) := by
  intro c hc
  have h : c.isDigit = true := Nat.isDigit_of_mem_toDigits (by decide) (by decide) hc
  simp only [Char.isDigit, Bool.and_eq_true, decide_eq_true_eq] at h
  simp only [isDigit, Bool.and_eq_true, decide_eq_true_eq]
  exact h

theorem ofDigits_digits (n : Nat) : ofDigits (digits n) = n := by
  rw [ofDigits_eq_ofDigitChars]
  exact Nat.ofDigitChars_ten_toDigits

theorem length_digits_le_iff {n k : Nat} (hk : 0 < k) : (digits n).length ≤ k ↔ n < 10 ^ k :=
  Nat.length_toDigits_le_iff (by decide) hk

theorem isRow_paddedDigits (width n : Nat) : IsRow (paddedDigits width n) :=
  (isRow_replicate_zero _).append (isRow_digits n)

theorem ofDigits_paddedDigits (width n : Nat) : ofDigits (paddedDigits width n) = n := by
  rw [paddedDigits, padLeft, ofDigits_append, ofDigits_replicate_zero, Nat.zero_mul, Nat.zero_add,
    ofDigits_digits]

theorem length_paddedDigits {width n : Nat} (hw : 0 < width) (hn : n < 10 ^ width) :
    (paddedDigits width n).length = width := by
  rw [paddedDigits, length_padLeft]
  exact Nat.max_eq_left ((length_digits_le_iff hw).mpr hn)

end Polystore.Text
