import Polystore.Document.Expression

/-!
Conditions as filters of the document store: documents that say of fields which tests they pass. A
test of one key against another has no such form and is an expression inside the filter.
-/

namespace Polystore.Document

/-- The fields of a filter, in order. -/
abbrev Filter := List (String × Bson)

def fieldTest (field operator : String) (value : Bson) : Filter :=
  [(field, single operator value)]

def comparisonFilter : Operand → Comparison → Operand → Except Error Filter
  | .key l, op, .key r => do
    let e ← comparisonExpression (.key l) op (.key r)
    pure [("$expr", e)]
  | .key k, op, .literal v => do
    let b ← literal v (k = .primary)
    pure (fieldTest (fieldName k) (operatorName op) b)
  | .literal v, op, .key k => do
    let b ← literal v (k = .primary)
    pure (fieldTest (fieldName k) (operatorName op.flipped) b)
  | .literal _, _, .literal _ => invalid .twoLiterals

/-- A literal in the array of a field is tested under an operator, so that a document is never taken
for one. -/
def membershipFilter (left right : Operand) (negated : Bool) : Except Error Filter := do
  match left, right with
  | .key k, .literal (.array values) =>
    let items ← listed values (k = .primary)
    pure (fieldTest (fieldName k) (if negated then "$nin" else "$in") (.array items))
  | .literal v, .key k =>
    let b ← Bson.ofValue v
    pure (fieldTest (fieldName k) (if negated then "$ne" else "$eq") b)
  | .key element, .key array =>
    if negated then invalid .documentMembershipOperands
    else pure [("$expr", single "$in" (.array [path element, path array]))]
  | _, _ => invalid .documentMembershipOperands

def bound (withPrimary : Bool) : Operand → Except Error Bson
  | .literal .null => invalid .betweenNull
  | .literal v => literal v withPrimary
  | .key _ => invalid .betweenNotLiteral

def rangeFilter (subject low high : Operand) (exclusive negated : Bool) : Except Error Filter := do
  match subject with
  | .literal _ => invalid .betweenWithoutKey
  | .key k =>
    let l ← bound (k = .primary) low
    let h ← bound (k = .primary) high
    let field := fieldName k
    let lowTest := fieldTest field (if negated then "$lt" else "$gte") l
    let highOperator := match exclusive, negated with
      | false, false => "$lte"
      | false, true => "$gt"
      | true, false => "$lt"
      | true, true => "$gte"
    let highTest := fieldTest field highOperator h
    pure [(if negated then "$or" else "$and", .array [.document lowTest, .document highTest])]

def patternFilter (subject : Operand) (test : Pattern) (negated : Bool) : Except Error Filter :=
  match subject with
  | .literal _ => invalid .patternWithoutKey
  | .key k =>
    let options := (test.optionField "$options").map fun (name, text) => (name, Bson.string text)
    let operators := Bson.document (("$regex", .string test.source) :: options)
    .ok [(fieldName k, if negated then single "$not" operators else operators)]

def isOperator (name : String) : Bool :=
  name.toList.head? = some '$'

/-- Are these tests of one field that can be negated where they stand? -/
def negatesInPlace (tests : List (String × Bson)) : Bool :=
  !tests.isEmpty && tests.all fun (name, _) => isOperator name && name != "$not"

/-- The negation of a filter: inside the field if a single field is tested, around it otherwise. -/
def negation (filter : Filter) : Filter :=
  match filter with
  | [(field, .document tests)] =>
    if !isOperator field && negatesInPlace tests then [(field, single "$not" (.document tests))]
    else [("$nor", .array [.document filter])]
  | filter => [("$nor", .array [.document filter])]

mutual

/-- The filter of a condition whose joins are merged. -/
def filterOf : Condition → Except Error Filter
  | .compare left op right => comparisonFilter left op right
  | .member left right negated => membershipFilter left right negated
  | .between subject low high exclusive negated => rangeFilter subject low high exclusive negated
  | .pattern subject test negated => patternFilter subject test negated
  | .not p => (filterOf p).map negation
  | .join c items => do
    match ← filtersOf items with
    | [] => emptyJoin c
    | [clause] => pure clause
    | clauses => pure [(connectiveName c, .array (clauses.map .document))]
termination_by structural p => p

def filtersOf : List Condition → Except Error (List Filter)
  | [] => .ok []
  | p :: rest => do
    let clause ← filterOf p
    let clauses ← filtersOf rest
    pure (clause :: clauses)
termination_by structural items => items

end

def filter (p : Condition) : Except Error Filter :=
  filterOf p.flat

end Polystore.Document
