/-!
Truth on rows that have nulls. A test on a null is neither true nor false, and connectives make of
it what they can: one false item settles a conjunction, one true item a disjunction.
-/

namespace Polystore.Sql

/-- What a condition comes to on a row. -/
inductive Truth where
  | fails
  | unknown
  | holds
deriving DecidableEq, Repr

namespace Truth

def ofBool (b : Bool) : Truth :=
  if b then .holds else .fails

protected def not : Truth → Truth
  | .fails => .holds
  | .unknown => .unknown
  | .holds => .fails

protected def and : Truth → Truth → Truth
  | .fails, _ => .fails
  | _, .fails => .fails
  | .holds, t => t
  | .unknown, _ => .unknown

protected def or : Truth → Truth → Truth
  | .holds, _ => .holds
  | _, .holds => .holds
  | .fails, t => t
  | .unknown, _ => .unknown

/-- The opposite, if it is asked for. -/
def negatedIf (negated : Bool) (t : Truth) : Truth :=
  if negated then t.not else t

def all : List Truth → Truth
  | [] => .holds
  | t :: rest => t.and (all rest)

def any : List Truth → Truth
  | [] => .fails
  | t :: rest => t.or (any rest)

@[simp] theorem negatedIf_true (t : Truth) : negatedIf true t = t.not := rfl

@[simp] theorem negatedIf_false (t : Truth) : negatedIf false t = t := rfl

theorem not_not (t : Truth) : t.not.not = t := by
  cases t <;> rfl

theorem not_and (s t : Truth) : (s.and t).not = s.not.or t.not := by
  cases s <;> cases t <;> rfl

@[simp] theorem holds_and (t : Truth) : Truth.holds.and t = t := by
  cases t <;> rfl

@[simp] theorem fails_or (t : Truth) : Truth.fails.or t = t := by
  cases t <;> rfl

@[simp] theorem and_holds (t : Truth) : t.and .holds = t := by
  cases t <;> rfl

@[simp] theorem or_fails (t : Truth) : t.or .fails = t := by
  cases t <;> rfl

theorem and_assoc (r s t : Truth) : (r.and s).and t = r.and (s.and t) := by
  cases r <;> cases s <;> cases t <;> rfl

theorem or_assoc (r s t : Truth) : (r.or s).or t = r.or (s.or t) := by
  cases r <;> cases s <;> cases t <;> rfl

theorem all_append (s t : List Truth) : all (s ++ t) = (all s).and (all t) := by
  induction s with
  | nil => simp [all]
  | cons a s ih => simp only [List.cons_append, all, ih, and_assoc]

theorem any_append (s t : List Truth) : any (s ++ t) = (any s).or (any t) := by
  induction s with
  | nil => simp [any]
  | cons a s ih => simp only [List.cons_append, any, ih, or_assoc]

end Truth

end Polystore.Sql
