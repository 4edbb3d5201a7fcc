import Polystore.Value.Basic

/-!
Rows of a result, and what is known of a statement once its rows are through.
-/

namespace Polystore

structure Row where
  columns : List String
  values : List Value

namespace Row

def get (r : Row) (name : String) : Option Value :=
  (r.columns.idxOf? name).bind fun index => r.values[index]?

def read {α : Type} (r : Row) (name : String) (as : Value → Except Error α) : Except Error α :=
  match r.get name with
  | some v => as v
  | none => .error (.invalidExpression (.noColumn name))

end Row

/-- The columns that were seen, the number of rows, and the number that the server gives. -/
structure Summary where
  columns : List String := []
  rowCount : Nat := 0
  affectedRows : Option UInt64 := none

end Polystore
