import Polystore.Sql.Condition

/-!
Conditions on a primary key of known columns. A key of several columns is compared as a tuple.
-/

namespace Polystore.Sql

/-- The columns of a primary key. -/
structure PrimaryKey where
  first : String
  rest : List String := []
deriving DecidableEq, Repr

namespace PrimaryKey

def ofColumns : List String → Except Error PrimaryKey
  | [] => .error (.invalidConfiguration .keyWithoutColumns)
  | first :: rest => .ok ⟨first, rest⟩

def columns (k : PrimaryKey) : List String :=
  k.first :: k.rest

def isComposite (k : PrimaryKey) : Bool :=
  !k.rest.isEmpty

def pick (entries : List (String × Value)) : List String → Except Error (List Value)
  | [] => .ok []
  | column :: rest => do
    match entries.lookup column with
    | none => invalid (.compositeColumn column)
    | some v =>
      let values ← pick entries rest
      pure (v :: values)

/-- What the columns are compared with: values by position or by name, or null for all. -/
def components (k : PrimaryKey) : Value → Except Error (List Value)
  | .array items =>
    if items.length = k.columns.length then .ok items
    else invalid (.compositeCount k.columns.length items.length)
  | .map entries => pick entries k.columns
  | .null => .ok (k.columns.map fun _ => .null)
  | v => invalid (.compositeKind v.kind.name)

/-- A tuple is equal where all columns are, and unequal where one is. -/
def expand (k : PrimaryKey) (op : Comparison) (v : Value) : Except Error Condition := do
  if op.isEquality then
    let values ← k.components v
    let terms := k.columns.zipWith
      (fun column value => .compare (.key (.named column)) op (.literal value)) values
    pure (.join (if op = .eq then .and else .or) terms)
  else invalid .compositeOperator

/-- An operand with the key's column in place of the key. -/
def rename (k : PrimaryKey) : Operand → Except Error Operand
  | .key .primary =>
    if k.isComposite then invalid .compositeOperator else .ok (.key (.named k.first))
  | o => .ok o

def comparison (k : PrimaryKey) (left : Operand) (op : Comparison) (right : Operand) :
    Except Error Condition := do
  if k.isComposite then
    match left, right with
    | .key .primary, .literal v => k.expand op v
    | .literal v, .key .primary => k.expand op v
    | .key .primary, _ => invalid .compositeOperand
    | _, .key .primary => invalid .compositeOperand
    | l, r => pure (.compare l op r)
  else
    let l ← k.rename left
    let r ← k.rename right
    pure (.compare l op r)

mutual

/-- A condition with the key's columns in place of the key. -/
def resolve (k : PrimaryKey) : Condition → Except Error Condition
  | .compare left op right => k.comparison left op right
  | .member left right negated => do
    let l ← k.rename left
    let r ← k.rename right
    pure (.member l r negated)
  | .between subject low high exclusive negated => do
    let s ← k.rename subject
    let l ← k.rename low
    let h ← k.rename high
    pure (.between s l h exclusive negated)
  | .pattern subject test negated => do
    let s ← k.rename subject
    let t ← k.rename test
    pure (.pattern s t negated)
  | .not p => do
    let q ← resolve k p
    pure (.not q)
  | .join c items => do
    let resolved ← resolveAll k items
    pure (.join c resolved)
termination_by structural p => p

def resolveAll (k : PrimaryKey) : List Condition → Except Error (List Condition)
  | [] => .ok []
  | p :: rest => do
    let q ← resolve k p
    let qs ← resolveAll k rest
    pure (q :: qs)
termination_by structural items => items

end

end PrimaryKey

/-- A condition on rows whose primary key has the given columns. -/
def compileWithKey (d : Dialect) (k : PrimaryKey) (p : Condition) : Except Error Fragment := do
  compile d (← k.resolve p)

end Polystore.Sql
