import Polystore.Document.Pattern
import Polystore.Value.Bson

/-!
Conditions as expressions that the document store evaluates. A key is a path, written as text after
a dollar sign; literals that could be taken for paths or operators are marked as literals.
-/

namespace Polystore.Document

def invalid {α : Type} (cause : ExpressionError) : Except Error α :=
  .error (.invalidExpression cause)

def operatorName : Comparison → String
  | .eq => "$eq"
  | .ne => "$ne"
  | .lt => "$lt"
  | .gt => "$gt"
  | .le => "$lte"
  | .ge => "$gte"

/-- The field of a key; documents have one for the primary key. -/
def fieldName : Key → String
  | .named n => n
  | .primary => "_id"

def isPrimary : Operand → Bool
  | .key .primary => true
  | _ => false

def single (name : String) (value : Bson) : Bson :=
  .document [(name, value)]

/-- A literal, as an object identifier if it is compared with the primary key and looks like one. -/
def literal (v : Value) (withPrimary : Bool) : Except Error Bson :=
  if withPrimary then Bson.ofKeyLiteral v else Bson.ofValue v

/-- Marks a literal that is not to be evaluated. -/
def quote (b : Bson) : Bson :=
  match b with
  | .string s => if s.toList.head? = some '$' then single "$literal" b else b
  | .array _ | .document _ => single "$literal" b
  | b => b

def path (k : Key) : Bson :=
  .string ("$" ++ fieldName k)

def operand (withPrimary : Bool) : Operand → Except Error Bson
  | .key k => .ok (path k)
  | .literal v => (literal v withPrimary).map quote

/-- The values of a list, of which there has to be one. -/
def listed (values : List Value) (withPrimary : Bool) : Except Error (List Bson) :=
  if values.isEmpty then invalid .emptyMembership
  else values.mapM fun v => literal v withPrimary

def comparisonExpression (left : Operand) (op : Comparison) (right : Operand) :
    Except Error Bson := do
  if !left.isKey && !right.isKey then invalid .twoLiterals
  else
    let withPrimary := isPrimary left || isPrimary right
    let l ← operand withPrimary left
    let r ← operand withPrimary right
    pure (single (operatorName op) (.array [l, r]))

def negatedIf (negated : Bool) (e : Bson) : Bson :=
  if negated then single "$not" (.array [e]) else e

/-- What an element is looked for in. -/
def haystack (left : Operand) : Operand → Except Error Bson
  | .literal (.array values) => do
    let items ← listed values (isPrimary left)
    pure (.array (items.map quote))
  | .literal _ => invalid .membershipNeedsList
  | .key k => .ok (path k)

def membershipExpression (left right : Operand) (negated : Bool) : Except Error Bson := do
  let container ← haystack left right
  let element ← operand false left
  pure (negatedIf negated (single "$in" (.array [element, container])))

def rangeExpression (subject low high : Operand) (exclusive negated : Bool) :
    Except Error Bson := do
  let s ← operand false subject
  let l ← operand false low
  let h ← operand false high
  let above := single "$gte" (.array [s, l])
  let below := single (if exclusive then "$lt" else "$lte") (.array [s, h])
  pure (negatedIf negated (single "$and" (.array [above, below])))

def patternExpression (subject : Operand) (test : Pattern) (negated : Bool) :
    Except Error Bson := do
  let input ← operand false subject
  let options := (test.optionField "options").map fun (name, text) => (name, Bson.string text)
  let fields := [("input", input), ("regex", .string test.source)] ++ options
  pure (negatedIf negated (single "$regexMatch" (.document fields)))

def connectiveName : Connective → String
  | .and => "$and"
  | .or => "$or"

def emptyJoin {α : Type} (c : Connective) : Except Error α :=
  invalid (match c with | .and => .emptyAnd | .or => .emptyOr)

mutual

/-- The expression of a condition whose joins are merged. -/
def expressionOf : Condition → Except Error Bson
  | .compare left op right => comparisonExpression left op right
  | .member left right negated => membershipExpression left right negated
  | .between subject low high exclusive negated =>
    rangeExpression subject low high exclusive negated
  | .pattern subject test negated => patternExpression subject test negated
  | .not p => (expressionOf p).map (negatedIf true)
  | .join c items => do
    match ← expressionsOf items with
    | [] => emptyJoin c
    | [term] => pure term
    | terms => pure (single (connectiveName c) (.array terms))
termination_by structural p => p

def expressionsOf : List Condition → Except Error (List Bson)
  | [] => .ok []
  | p :: rest => do
    let term ← expressionOf p
    let terms ← expressionsOf rest
    pure (term :: terms)
termination_by structural items => items

end

def expression (p : Condition) : Except Error Bson :=
  expressionOf p.flat

end Polystore.Document
