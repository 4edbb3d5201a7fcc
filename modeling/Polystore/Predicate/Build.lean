import Polystore.Predicate.Basic

/-!
Building conditions from tests on a key. Joins that are built here hold no join of their own
connective as an item, and at least two items.
-/

namespace Polystore

namespace Key

variable {Test : Type}

def compare (k : Key) (op : Comparison) (other : Operand) : Predicate Test :=
  .compare (.key k) op other

def isNull (k : Key) : Predicate Test :=
  k.compare .eq (.literal .null)

def isNotNull (k : Key) : Predicate Test :=
  k.compare .ne (.literal .null)

/-- The key's value is, or is not, among the values; there has to be one. -/
def among (k : Key) (values : List Value) (negated : Bool) : Except Error (Predicate Test) :=
  if values.isEmpty then .error (.invalidExpression .emptyMembership)
  else .ok (.member (.key k) (.literal (.array values)) negated)

def holdsElement (k : Key) (element : Value) : Predicate Test :=
  .member (.literal element) (.key k) false

/-- The key's value is in the array under another key. -/
def inKey (k other : Key) : Predicate Test :=
  .member (.key k) (.key other) false

def between (k : Key) (low high : Operand) (exclusive negated : Bool) : Predicate Test :=
  .between (.key k) low high exclusive negated

def pattern (k : Key) (test : Test) (negated : Bool) : Predicate Test :=
  .pattern (.key k) test negated

end Key

namespace Predicate

variable {Test : Type}

/-- The items of a join of the connective, or the condition itself. -/
def parts (c : Connective) : Predicate Test → List (Predicate Test)
  | .join d items => if c = d then items else [.join d items]
  | p => [p]

/-- Joins conditions, of which there has to be one. A single part stands for itself. -/
def joinAll (c : Connective) (items : List (Predicate Test)) : Except Error (Predicate Test) :=
  match items.flatMap (parts c) with
  | [] => .error (.invalidExpression (match c with | .and => .noConjuncts | .or => .noDisjuncts))
  | [p] => .ok p
  | flat => .ok (.join c flat)

def joinTwo (c : Connective) (p q : Predicate Test) : Predicate Test :=
  .join c (p.parts c ++ q.parts c)

end Predicate

end Polystore
