import Polystore.Value.Basic

/-!
Conditions on rows and documents: tests on keys and literals, joined by connectives. The pattern
test is a parameter, because each family of stores has its own.
-/

namespace Polystore

/-- A column or field by name, or whatever identifies the row. -/
inductive Key where
  | named (name : String)
  | primary
deriving DecidableEq, Repr

/-- One side of a test. -/
inductive Operand where
  | key (k : Key)
  | literal (v : Value)

namespace Operand

def isKey : Operand → Bool
  | .key _ => true
  | .literal _ => false

def isNull : Operand → Bool
  | .literal .null => true
  | _ => false

end Operand

inductive Comparison where
  | eq
  | ne
  | lt
  | gt
  | le
  | ge
deriving DecidableEq, Repr

namespace Comparison

def symbol : Comparison → String
  | .eq => "="
  | .ne => "<>"
  | .lt => "<"
  | .gt => ">"
  | .le => "<="
  | .ge => ">="

/-- The operator that says the same with the sides exchanged. -/
def flipped : Comparison → Comparison
  | .lt => .gt
  | .gt => .lt
  | .le => .ge
  | .ge => .le
  | op => op

def isEquality : Comparison → Bool
  | .eq | .ne => true
  | _ => false

end Comparison

inductive Connective where
  | and
  | or
deriving DecidableEq, Repr

/-- A condition over pattern tests of one kind. -/
inductive Predicate (Test : Type) where
  | compare (left : Operand) (op : Comparison) (right : Operand)
  /-- A key among listed values, a literal in the array under a key, or a key in such an array. -/
  | member (left right : Operand) (negated : Bool)
  /-- A range, whose upper end may be left out. -/
  | between (subject low high : Operand) (exclusive negated : Bool)
  | pattern (subject : Operand) (test : Test) (negated : Bool)
  | not (p : Predicate Test)
  | join (c : Connective) (items : List (Predicate Test))

namespace Predicate

variable {Test : Type}

mutual

/-- No connective without items and no empty list of values, at any depth. -/
def validate : Predicate Test → Except Error Unit
  | .join _ items =>
    if items.isEmpty then .error (.invalidExpression .emptyConnective) else validateAll items
  | .not p => p.validate
  | .member _ (.literal (.array [])) _ => .error (.invalidExpression .emptyMembership)
  | _ => .ok ()
termination_by structural p => p

def validateAll : List (Predicate Test) → Except Error Unit
  | [] => .ok ()
  | p :: rest => do
    p.validate
    validateAll rest
termination_by structural items => items

end

mutual

/-- The same condition with joins merged into an enclosing join of the same connective. -/
def flat : Predicate Test → Predicate Test
  | .join c items => .join c (terms c items)
  | .not p => .not p.flat
  | p => p
termination_by structural p => p

def term (c : Connective) : Predicate Test → List (Predicate Test)
  | .join d items => if c = d then terms c items else [.join d (terms d items)]
  | .not p => [.not p.flat]
  | p => [p]
termination_by structural p => p

/-- What several conditions contribute to a join, in order. -/
def terms (c : Connective) : List (Predicate Test) → List (Predicate Test)
  | [] => []
  | p :: rest => term c p ++ terms c rest
termination_by structural items => items

end

end Predicate

end Polystore
