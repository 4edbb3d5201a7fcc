import Polystore.Error
import Polystore.Text.Lowercase

/-!
The three families of SQL databases and what their dialects spell differently.
-/

namespace Polystore.Sql

inductive Dialect where
  | postgres
  | mysql
  | sqlite
deriving DecidableEq, Repr

/-- How a bind is marked in a statement. -/
inductive Placeholder where
  /-- A dollar sign and the number of the bind, which may come again. -/
  | dollar
  /-- A question mark and the number of the bind, which may come again. -/
  | numbered
  /-- A question mark, which takes the next bind. -/
  | single
deriving DecidableEq, Repr

namespace Placeholder

def isReusable : Placeholder → Bool
  | .single => false
  | _ => true

def mark (p : Placeholder) (number : Nat) : List Char :=
  match p with
  | .dollar => '$' :: Text.digits number
  | .numbered => '?' :: Text.digits number
  | .single => ['?']

end Placeholder

/-- A change of a column that starts from its value. -/
inductive UpdateOperator where
  | increment
  | decrement
  | multiply
  | divide
  | min
  | max
  | arrayAppend
  | arrayRemove
deriving DecidableEq, Repr

namespace UpdateOperator

def name : UpdateOperator → String
  | .increment => "increment"
  | .decrement => "decrement"
  | .multiply => "multiply"
  | .divide => "divide"
  | .min => "min"
  | .max => "max"
  | .arrayAppend => "array append"
  | .arrayRemove => "array remove"

def all : List UpdateOperator :=
  [.increment, .decrement, .multiply, .divide, .min, .max, .arrayAppend, .arrayRemove]

end UpdateOperator

/-- How a change is written: an operator between column and operand, or a function of both. -/
inductive UpdateForm where
  | between (symbol : String)
  | call (function : String)
deriving DecidableEq, Repr

inductive LockStrength where
  | update
  | share
deriving DecidableEq, Repr

/-- What a statement does about rows that are locked already. -/
inductive LockWait where
  | wait
  | noWait
  | skipLocked
deriving DecidableEq, Repr

structure RowLock where
  strength : LockStrength
  wait : LockWait := .wait
deriving DecidableEq, Repr

def LockStrength.ofWord? : String → Option LockStrength
  | "update" => some .update
  | "share" => some .share
  | _ => none

def LockWait.ofWord? : String → Option LockWait
  | "nowait" => some .noWait
  | "skip_locked" => some .skipLocked
  | _ => none

/-- A lock in words: its strength, then what it does about rows that are locked already. Of several
such words the last one counts. -/
def RowLock.ofWords? : List String → Option RowLock
  | [] => none
  | strength :: waits => do
    let strength ← LockStrength.ofWord? strength
    let onLocked ← waits.getLast?.elim (some .wait) LockWait.ofWord?
    some ⟨strength, onLocked⟩

/-- What can be asked for when a view is made. -/
structure ViewOptions where
  replace : Bool := false
  temporary : Bool := false
  recursive : Bool := false
  ifNotExists : Bool := false
deriving DecidableEq, Repr

def ViewOptions.ofWords (words : List String) : ViewOptions where
  replace := words.contains "replace"
  temporary := words.contains "temporary"
  recursive := words.contains "recursive"
  ifNotExists := words.contains "if_not_exists"

namespace Dialect

def name : Dialect → String
  | .postgres => "postgres"
  | .mysql => "mysql"
  | .sqlite => "sqlite"

def quoteMark : Dialect → Char
  | .mysql => '`'
  | _ => '"'

/-- Names are lower-cased before they are compared. -/
def foldsCase : Dialect → Bool
  | .postgres => true
  | _ => false

def placeholder : Dialect → Placeholder
  | .postgres => .dollar
  | .mysql => .single
  | .sqlite => .numbered

/-- The column that identifies a row, where there is one. -/
def rowIdentity : Dialect → Option String
  | .postgres => some "ctid"
  | .mysql => none
  | .sqlite => some "rowid"

def hasRowLocks : Dialect → Bool
  | .sqlite => false
  | _ => true

def hasReturning : Dialect → Bool
  | .mysql => false
  | _ => true

def hasArrays : Dialect → Bool
  | .postgres => true
  | _ => false

def views : Dialect → ViewOptions
  | .postgres => { replace := true, temporary := true, recursive := true }
  | .mysql => { replace := true }
  | .sqlite => { temporary := true, ifNotExists := true }

def boolText : Dialect → Bool → String
  | .mysql, true => "1"
  | .mysql, false => "0"
  | _, true => "TRUE"
  | _, false => "FALSE"

/-- The operator of an equality, or inequality, that holds or fails on nulls too; and whether the
whole has to be negated to say so. -/
def nullSafe : Dialect → Bool → String × Bool
  | .postgres, false => ("IS NOT DISTINCT FROM", false)
  | .postgres, true => ("IS DISTINCT FROM", false)
  | .mysql, negated => ("<=>", negated)
  | .sqlite, false => ("IS", false)
  | .sqlite, true => ("IS NOT", false)

def unsupported {α : Type} (d : Dialect) (operation : String) : Except Error α :=
  .error (.unsupportedOperation d.name operation)

def least : Dialect → String
  | .sqlite => "MIN"
  | _ => "LEAST"

def greatest : Dialect → String
  | .sqlite => "MAX"
  | _ => "GREATEST"

def updateForm (d : Dialect) : UpdateOperator → Except Error UpdateForm
  | .increment => .ok (.between "+")
  | .decrement => .ok (.between "-")
  | .multiply => .ok (.between "*")
  | .divide => .ok (.between "/")
  | .min => .ok (.call d.least)
  | .max => .ok (.call d.greatest)
  | .arrayAppend => if d.hasArrays then .ok (.call "array_append") else d.unsupported "array append"
  | .arrayRemove => if d.hasArrays then .ok (.call "array_remove") else d.unsupported "array remove"

def lockClause (d : Dialect) (lock : RowLock) : Except Error String :=
  if d.hasRowLocks then
    let strength := match lock.strength with
      | .update => "FOR UPDATE"
      | .share => "FOR SHARE"
    let wait := match lock.wait with
      | .wait => ""
      | .noWait => " NOWAIT"
      | .skipLocked => " SKIP LOCKED"
    .ok (strength ++ wait)
  else d.unsupported "row locking"

/-- A character inside quotes: a quote mark twice, a letter in the case that names have. -/
def quoteChar (d : Dialect) (c : Char) : List Char :=
  (if c = d.quoteMark then [c] else []) ++ if d.foldsCase then Text.Lowercase.lower c else [c]

/-- A name or a dotted path of names, each part in quotes. -/
def quoteName (d : Dialect) (name : List Char) : List Char :=
  d.quoteMark ::
    name.flatMap (fun c => if c = '.' then [d.quoteMark, '.', d.quoteMark] else d.quoteChar c) ++
    [d.quoteMark]

end Dialect

end Polystore.Sql
