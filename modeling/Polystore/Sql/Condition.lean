import Polystore.Predicate.Basic
import Polystore.Sql.Fragment

/-!
Conditions as SQL. Every literal becomes a bind; the one literal that is written is the null on the
right of a null-safe comparison. Parentheses stand where a disjunction is an item of a
conjunction, around what a negation applies to unless that is a comparison, and around ranges that
are written as two comparisons.
-/

namespace Polystore.Sql

/-- A condition whose pattern tests compare with a pattern. -/
abbrev Condition := Predicate Operand

def invalid {α : Type} (cause : ExpressionError) : Except Error α :=
  .error (.invalidExpression cause)

def operand (d : Dialect) : Operand → Except Error (List Piece)
  | .key (.named n) => .ok [.name n]
  | .key .primary =>
    match d.rowIdentity with
    | some column => .ok [.text column]
    | none => d.unsupported "row identity"
  | .literal v => .ok [.bind v]

def grouped (pieces : List Piece) : List Piece :=
  .text "(" :: pieces ++ [.glue ")"]

/-- Two operands with a word between them. -/
def between (d : Dialect) (left : Operand) (word : String) (right : Operand) :
    Except Error (List Piece) := do
  let l ← operand d left
  let r ← operand d right
  pure (l ++ .text word :: r)

def nullTest (d : Dialect) (subject : Operand) (op : Comparison) : Except Error (List Piece) := do
  if op.isEquality then
    let (word, wrap) := d.nullSafe (op = .ne)
    let s ← operand d subject
    let body := s ++ [.text word, .text "NULL"]
    pure (if wrap then .text "NOT (" :: body ++ [.glue ")"] else body)
  else invalid (.orderAgainstNull op.symbol)

def comparison (d : Dialect) (left : Operand) (op : Comparison) (right : Operand) :
    Except Error (List Piece) :=
  if !left.isKey && !right.isKey then invalid .twoLiterals
  else if right.isNull then nullTest d left op
  else if left.isNull then nullTest d right op
  else between d left op.symbol right

def bindList : List Value → List Piece
  | [] => []
  | [v] => [.bind v]
  | v :: rest => .bind v :: .glue "," :: bindList rest

def membership (d : Dialect) (left right : Operand) (negated : Bool) :
    Except Error (List Piece) := do
  match left, right with
  | .key k, .literal (.array values) =>
    if values.isEmpty then invalid .emptyMembership
    else
      let subject ← operand d (.key k)
      pure (subject ++ .text (if negated then "NOT IN" else "IN") :: grouped (bindList values))
  | element, .key k =>
    if d.hasArrays then
      let e ← operand d element
      let a ← operand d (.key k)
      pure (e ++ .text (if negated then "<> ALL(" else "= ANY(") :: a ++ [.glue ")"])
    else d.unsupported "array membership"
  | _, _ => invalid .membershipOperands

def range (d : Dialect) (subject low high : Operand) (exclusive negated : Bool) :
    Except Error (List Piece) := do
  if !subject.isKey && !low.isKey && !high.isKey then invalid .betweenWithoutKey
  else if subject.isNull || low.isNull || high.isNull then invalid .betweenNull
  else if exclusive then
    let first ← between d subject (if negated then "<" else ">=") low
    let second ← between d subject (if negated then ">=" else "<") high
    pure (grouped (first ++ .text (if negated then "OR" else "AND") :: second))
  else
    let first ← between d subject (if negated then "NOT BETWEEN" else "BETWEEN") low
    let last ← operand d high
    pure (first ++ .text "AND" :: last)

def like (d : Dialect) (subject test : Operand) (negated : Bool) : Except Error (List Piece) :=
  if !subject.isKey && !test.isKey then invalid .likeWithoutKey
  else between d subject (if negated then "NOT LIKE" else "LIKE") test

def isComparison : Condition → Bool
  | .compare _ _ _ => true
  | _ => false

/-- Is the condition a disjunction of at least two terms? -/
def isAlternative : Condition → Bool
  | .join .or items => 1 < items.length
  | _ => false

def connectiveWord : Connective → String
  | .and => "AND"
  | .or => "OR"

mutual

/-- The pieces of a condition whose joins are merged. -/
def pieces (d : Dialect) : Condition → Except Error (List Piece)
  | .compare left op right => comparison d left op right
  | .member left right negated => membership d left right negated
  | .between subject low high exclusive negated => range d subject low high exclusive negated
  | .pattern subject test negated => like d subject test negated
  | .not p => do
    let inner ← pieces d p
    pure (.text "NOT" :: if isComparison p then inner else grouped inner)
  | .join c items => do
    match ← termPieces d c items with
    | [] => invalid (match c with | .and => .emptyAnd | .or => .emptyOr)
    | terms => pure ([Piece.text (connectiveWord c)].intercalate terms)
termination_by structural p => p

def termPieces (d : Dialect) (c : Connective) : List Condition → Except Error (List (List Piece))
  | [] => .ok []
  | p :: rest => do
    let term ← pieces d p
    let terms ← termPieces d c rest
    pure ((if c = .and && isAlternative p then grouped term else term) :: terms)
termination_by structural items => items

end

def compile (d : Dialect) (p : Condition) : Except Error Fragment := do
  pure ⟨← pieces d p.flat⟩

end Polystore.Sql
