import Mathlib.Data.List.TakeDrop
import Mathlib.Data.List.TakeWhile
import Polystore.Proofs.Text.Digits
import Polystore.Text.Blank

/-!
Numbers at the front of a text: a row of digits is read up to where it ends.
-/

namespace Polystore.Text

/-- A text that a row of digits before it does not go on into. -/
def EndsRow (rest : List Char) : Prop :=
  ∀ c, rest.head? = some c → isDigit c = false

theorem endsRow_nil : EndsRow [] :=
  fun _ h => nomatch h

theorem endsRow_cons {c : Char} (h : isDigit c = false) (rest : List Char) : EndsRow (c :: rest) := by
  rintro d ⟨⟩
  exact h

theorem takeWhile_isDigit_append {row rest : List Char} (hrow : IsRow row) (hrest : EndsRow rest) :
    (row ++ rest).takeWhile isDigit = row := by
  rw [List.takeWhile_append_of_pos hrow]
  cases rest with
  | nil => rw [List.takeWhile_nil, List.append_nil]
  | cons c rest =>
    rw [List.takeWhile_cons_of_neg (by simp [hrest c rfl]), List.append_nil]

theorem spanDigits_append {row rest : List Char} (hrow : IsRow row) (hrest : EndsRow rest) :
    spanDigits (row ++ rest) = (row, rest) := by
  have htake := takeWhile_isDigit_append hrow hrest
  have hdrop := List.takeWhile_append_dropWhile (p := isDigit) (l := row ++ rest)
  rw [htake] at hdrop
  rw [spanDigits, List.span_eq_takeWhile_dropWhile, htake, List.append_cancel_left hdrop]

theorem isDigit_iff_toNat (c : Char) : isDigit c = true ↔ 48 ≤ c.toNat ∧ c.toNat ≤ 57 := by
  simp only [isDigit, Bool.and_eq_true, decide_eq_true_eq]
  exact Iff.rfl

theorem isBlank_of_isDigit {c : Char} (h : isDigit c = true) : isBlank c = false := by
  rw [isDigit_iff_toNat] at h
  simp only [isBlank, Bool.or_eq_false_iff, Bool.and_eq_false_iff, beq_eq_false_iff_ne,
    decide_eq_false_iff_not]
  omega

end Polystore.Text
