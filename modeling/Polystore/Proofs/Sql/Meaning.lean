import Polystore.Proofs.Predicate.Fold
import Polystore.Proofs.Sql.Truth
import Polystore.Sql.Condition

/-!
What a condition says about a row, apart from any text. A test on columns that are null is unknown,
but a comparison with the literal null asks whether the other side is null. Main statement: merging
nested joins changes nothing about it.
-/

namespace Polystore.Sql

/-- A row, in which a column may be null, and a reading of everything that tests depend on. Literals
other than null are data of the same kind as columns; pattern tests and tests on arrays are taken as
they come. -/
structure Valuation (D : Type) where
  column : Key → Option D
  datum : Value → D
  same : D → D → Bool
  less : D → D → Bool
  like : Operand → Operand → Truth
  element : Operand → Operand → Truth

namespace Valuation

variable {D : Type}

def operand (v : Valuation D) : Operand → Option D
  | .key k => v.column k
  | .literal .null => none
  | .literal l => some (v.datum l)

/-- A comparison of two data. Greater or equal is what is not less. -/
def holds (v : Valuation D) : Comparison → D → D → Bool
  | .eq, a, b => v.same a b
  | .ne, a, b => !v.same a b
  | .lt, a, b => v.less a b
  | .gt, a, b => v.less b a
  | .le, a, b => !v.less b a
  | .ge, a, b => !v.less a b

/-- A comparison of two sides, of which nothing is known if one is null. -/
def compare (v : Valuation D) (left : Operand) (op : Comparison) (right : Operand) : Truth :=
  match v.operand left, v.operand right with
  | some a, some b => .ofBool (v.holds op a b)
  | _, _ => .unknown

/-- Is the operand null? This is never unknown. -/
def nullTest (v : Valuation D) (subject : Operand) : Truth :=
  .ofBool (v.operand subject).isNone

/-- A comparison in a condition. With the literal null on a side, equality asks whether the other
side is null. -/
def comparison (v : Valuation D) (left : Operand) (op : Comparison) (right : Operand) : Truth :=
  match op, right.isNull, left.isNull with
  | .eq, true, _ => v.nullTest left
  | .ne, true, _ => (v.nullTest left).not
  | .eq, false, true => v.nullTest right
  | .ne, false, true => (v.nullTest right).not
  | op, _, _ => v.compare left op right

/-- Equality with one of several operands. A null among them is compared like a null in a column. -/
def among (v : Valuation D) (subject : Operand) (values : List Operand) : Truth :=
  .any (values.map (v.compare subject .eq))

def membership (v : Valuation D) (left right : Operand) : Truth :=
  match right with
  | .literal (.array values) => v.among left (values.map .literal)
  | _ => v.element left right

/-- The range from a lower end to an upper one, which may be left out. -/
def range (v : Valuation D) (subject low high : Operand) (exclusive : Bool) : Truth :=
  (v.compare low .le subject).and (v.compare subject (if exclusive then .lt else .le) high)

def joined : Connective → List Truth → Truth
  | .and => .all
  | .or => .any

mutual

/-- What a condition comes to. -/
def meaning (v : Valuation D) : Condition → Truth
  | .compare left op right => v.comparison left op right
  | .member left right negated => .negatedIf negated (v.membership left right)
  | .between subject low high exclusive negated =>
    .negatedIf negated (v.range subject low high exclusive)
  | .pattern subject test negated => .negatedIf negated (v.like subject test)
  | .not p => (v.meaning p).not
  | .join c items => joined c (v.meanings items)
termination_by structural p => p

def meanings (v : Valuation D) : List Condition → List Truth
  | [] => []
  | p :: rest => v.meaning p :: v.meanings rest
termination_by structural items => items

end

theorem joined_append (c : Connective) (s t : List Truth) :
    joined c (s ++ t) = joined c [joined c s, joined c t] := by
  cases c with
  | and => simp [joined, Truth.all_append, Truth.all]
  | or => simp [joined, Truth.any_append, Truth.any]

@[simp] theorem joined_singleton (c : Connective) (t : Truth) : joined c [t] = t := by
  cases c <;> simp [joined, Truth.all, Truth.any]

/-- What a condition comes to, test by test. -/
def meaningFold (v : Valuation D) : Predicate.Fold Operand Truth where
  compare := v.comparison
  member left right negated := .negatedIf negated (v.membership left right)
  between subject low high exclusive negated :=
    .negatedIf negated (v.range subject low high exclusive)
  pattern subject test negated := .negatedIf negated (v.like subject test)
  not := Truth.not
  join := joined

theorem meaningFold_merges (v : Valuation D) : v.meaningFold.Merges where
  singleton := joined_singleton
  append := joined_append

mutual

theorem fold_eq_meaning (v : Valuation D) : ∀ p : Condition, p.fold v.meaningFold = v.meaning p
  | .compare _ _ _ => rfl
  | .member _ _ _ => rfl
  | .between _ _ _ _ _ => rfl
  | .pattern _ _ _ => rfl
  | .not p => congrArg Truth.not (fold_eq_meaning v p)
  | .join c items => congrArg (joined c) (foldAll_eq_meanings v items)

theorem foldAll_eq_meanings (v : Valuation D) : ∀ items : List Condition,
    Predicate.foldAll v.meaningFold items = v.meanings items
  | [] => rfl
  | p :: rest => by
    rw [Predicate.foldAll, meanings, fold_eq_meaning v p, foldAll_eq_meanings v rest]

end

theorem meaning_flat (v : Valuation D) (p : Condition) : v.meaning p.flat = v.meaning p := by
  rw [← fold_eq_meaning, ← fold_eq_meaning, Predicate.fold_flat v.meaningFold_merges]

end Valuation

end Polystore.Sql
