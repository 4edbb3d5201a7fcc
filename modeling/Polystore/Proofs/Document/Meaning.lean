import Polystore.Document.Filter
import Polystore.Proofs.Predicate.Fold

/-!
What the document store makes of filters and of expressions, and what a condition says of a document.
Either takes only the connectives apart: what a test of a field or an operator of an expression gives
is left open.
-/

namespace Polystore.Document

/-- An interpretation of the tests, for one document. -/
structure Reading where
  field : String → String → Bson → Bool
  /-- A regular expression and its options, found in a field or not. -/
  regex : String → Bson → Option Bson → Bool
  expression : String → Bson → Bool

/-- Fields that are operators, of which there has to be one. -/
def areOperators (tests : List (String × Bson)) : Bool :=
  !tests.isEmpty && tests.all fun (name, _) => isOperator name

def joined (c : Connective) (truths : List Bool) : Bool :=
  match c with
  | .and => truths.all id
  | .or => truths.any id

namespace Reading

mutual

/-- The truth of an expression: a document whose one field is an operator with its arguments. -/
def expressionTruth (r : Reading) : Bson → Option Bool
  | .document fields => r.operationTruth fields
  | _ => none
termination_by structural e => e

def operationTruth (r : Reading) : List (String × Bson) → Option Bool
  | [(name, arguments)] => r.applicationTruth name arguments
  | _ => none
termination_by structural fields => fields

def applicationTruth (r : Reading) (name : String) : Bson → Option Bool
  | .array items =>
    if name = "$and" then (r.expressionsTruth items).map (joined .and)
    else if name = "$or" then (r.expressionsTruth items).map (joined .or)
    else if name = "$not" then
      match r.expressionsTruth items with
      | some [truth] => some (!truth)
      | _ => none
    else some (r.expression name (.array items))
  | arguments =>
    if name = "$and" ∨ name = "$or" ∨ name = "$not" then none else some (r.expression name arguments)
termination_by structural arguments => arguments

def expressionsTruth (r : Reading) : List Bson → Option (List Bool)
  | [] => some []
  | e :: rest => do
    let truth ← r.expressionTruth e
    let truths ← r.expressionsTruth rest
    pure (truth :: truths)
termination_by structural items => items

end

def operatorTruth (r : Reading) (field : String) (options : Option Bson) (name : String)
    (value : Bson) : Bool :=
  if name = "$ne" then !r.field field "$eq" value
  else if name = "$nin" then !r.field field "$in" value
  else if name = "$regex" then r.regex field value options
  else if name = "$options" then true
  else r.field field name value

mutual

def testTruth (r : Reading) (field : String) (options : Option Bson) (name : String) :
    Bson → Option Bool
  | .document tests =>
    if name = "$not" then
      if areOperators tests then (r.testsTruth field (tests.lookup "$options") tests).map (!·)
      else none
    else some (r.operatorTruth field options name (.document tests))
  | value => if name = "$not" then none else some (r.operatorTruth field options name value)
termination_by structural value => value

def testsTruth (r : Reading) (field : String) (options : Option Bson) :
    List (String × Bson) → Option Bool
  | [] => some true
  | (name, value) :: rest => do
    let truth ← r.testTruth field options name value
    let others ← r.testsTruth field options rest
    pure (truth && others)
termination_by structural tests => tests

end

mutual

/-- One field of a filter: a connective over filters, an expression, or a field with its tests. A
field with another value is compared with that value. -/
def clauseTruth (r : Reading) (name : String) : Bson → Option Bool
  | .array items =>
    if name = "$and" then (r.filtersTruth items).map (joined .and)
    else if name = "$or" then (r.filtersTruth items).map (joined .or)
    else if name = "$nor" then (r.filtersTruth items).map fun truths => !joined .or truths
    else if isOperator name then none
    else some (r.field name "$eq" (.array items))
  | .document fields =>
    if name = "$expr" then r.expressionTruth (.document fields)
    else if isOperator name then none
    else if areOperators fields then r.testsTruth name (fields.lookup "$options") fields
    else some (r.field name "$eq" (.document fields))
  | value => if isOperator name then none else some (r.field name "$eq" value)
termination_by structural value => value

def filterTruth (r : Reading) : Filter → Option Bool
  | [] => some true
  | (name, value) :: rest => do
    let truth ← r.clauseTruth name value
    let others ← r.filterTruth rest
    pure (truth && others)
termination_by structural filter => filter

def documentTruth (r : Reading) : Bson → Option Bool
  | .document fields => r.filterTruth fields
  | _ => none
termination_by structural b => b

def filtersTruth (r : Reading) : List Bson → Option (List Bool)
  | [] => some []
  | b :: rest => do
    let truth ← r.documentTruth b
    let truths ← r.filtersTruth rest
    pure (truth :: truths)
termination_by structural items => items

end

end Reading

/-- What a literal is sent as. Only literals that can be sent occur in what is compiled. -/
def sent (v : Value) (withPrimary : Bool) : Bson :=
  (literal v withPrimary).toOption.getD .null

def sentList (values : List Value) (withPrimary : Bool) : Bson :=
  .array (values.map fun v => sent v withPrimary)

def sentOperand (withPrimary : Bool) : Operand → Bson
  | .key k => path k
  | .literal v => quote (sent v withPrimary)

def sentContainer (withPrimary : Bool) : Operand → Bson
  | .literal (.array values) => .array (values.map fun v => quote (sent v withPrimary))
  | right => sentOperand false right

def Pattern.sentOptions (test : Pattern) (name : String) : List (String × Bson) :=
  (test.optionField name).map fun (name, text) => (name, .string text)

namespace Reading

/-- A field compared with a value; unequal is what is not equal. -/
def compares (r : Reading) (k : Key) (op : Comparison) (v : Value) : Bool :=
  match op with
  | .ne => !r.field (fieldName k) "$eq" (sent v (k = .primary))
  | op => r.field (fieldName k) (operatorName op) (sent v (k = .primary))

def fieldComparison (r : Reading) : Operand → Comparison → Operand → Bool
  | .key left, op, .key right => r.expression (operatorName op) (.array [path left, path right])
  | .key k, op, .literal v => r.compares k op v
  | .literal v, op, .key k => r.compares k op.flipped v
  | .literal _, _, .literal _ => false

def fieldMembership (r : Reading) : Operand → Operand → Bool
  | .key k, .literal (.array values) =>
    r.field (fieldName k) "$in" (sentList values (k = .primary))
  | .literal v, .key k => r.field (fieldName k) "$eq" (sent v false)
  | .key element, .key array => r.expression "$in" (.array [path element, path array])
  | _, _ => false

/-- A field in a range is at least the lower end and below the upper one; outside it, it is below the
lower end or past the upper one. -/
def fieldRange (r : Reading) (subject low high : Operand) (exclusive negated : Bool) : Bool :=
  match subject, low, high with
  | .key k, .literal low, .literal high =>
    if negated then
      r.compares k .lt low || r.compares k (if exclusive then .ge else .gt) high
    else r.compares k .ge low && r.compares k (if exclusive then .lt else .le) high
  | _, _, _ => false

def fieldPattern (r : Reading) (subject : Operand) (test : Pattern) : Bool :=
  match subject with
  | .key k =>
    r.regex (fieldName k) (.string test.source) ((test.sentOptions "$options").head?.map (·.2))
  | .literal _ => false

/-- A condition as a filter reads it. -/
def filterFold (r : Reading) : Predicate.Fold Pattern Bool where
  compare := r.fieldComparison
  member left right negated := negated.xor (r.fieldMembership left right)
  between := r.fieldRange
  pattern subject test negated := negated.xor (r.fieldPattern subject test)
  not truth := !truth
  join := joined

def filterMeaning (r : Reading) (p : Condition) : Bool :=
  p.fold r.filterFold

def comparison (r : Reading) (left : Operand) (op : Comparison) (right : Operand)
    (withPrimary : Bool) : Bool :=
  r.expression (operatorName op)
    (.array [sentOperand withPrimary left, sentOperand withPrimary right])

def membership (r : Reading) (left right : Operand) : Bool :=
  r.expression "$in" (.array [sentOperand false left, sentContainer (isPrimary left) right])

def range (r : Reading) (subject low high : Operand) (exclusive : Bool) : Bool :=
  r.comparison subject .ge low false &&
    r.comparison subject (if exclusive then .lt else .le) high false

def matchesPattern (r : Reading) (subject : Operand) (test : Pattern) : Bool :=
  r.expression "$regexMatch" (.document
    ([("input", sentOperand false subject), ("regex", .string test.source)] ++
      test.sentOptions "options"))

/-- A condition as an expression reads it. -/
def expressionFold (r : Reading) : Predicate.Fold Pattern Bool where
  compare left op right := r.comparison left op right (isPrimary left || isPrimary right)
  member left right negated := negated.xor (r.membership left right)
  between subject low high exclusive negated := negated.xor (r.range subject low high exclusive)
  pattern subject test negated := negated.xor (r.matchesPattern subject test)
  not truth := !truth
  join := joined

def expressionMeaning (r : Reading) (p : Condition) : Bool :=
  p.fold r.expressionFold

end Reading

theorem joined_singleton (c : Connective) (truth : Bool) : joined c [truth] = truth := by
  cases c <;> simp [joined]

theorem joined_append (c : Connective) (s t : List Bool) :
    joined c (s ++ t) = joined c [joined c s, joined c t] := by
  cases c <;> simp [joined]

namespace Reading

theorem filterFold_merges (r : Reading) : r.filterFold.Merges where
  singleton := joined_singleton
  append := joined_append

theorem expressionFold_merges (r : Reading) : r.expressionFold.Merges where
  singleton := joined_singleton
  append := joined_append

theorem filterMeaning_flat (r : Reading) (p : Condition) :
    r.filterMeaning p.flat = r.filterMeaning p :=
  Predicate.fold_flat r.filterFold_merges p

theorem expressionMeaning_flat (r : Reading) (p : Condition) :
    r.expressionMeaning p.flat = r.expressionMeaning p :=
  Predicate.fold_flat r.expressionFold_merges p

end Reading

end Polystore.Document
