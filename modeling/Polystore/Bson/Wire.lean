import Polystore.Bson.Basic

/-!
What the bytes of a document hold, field by field, before a field's name is looked at. Reading stops
where the bytes go wrong, and the place is marked, so that what stands before it can still be used.
-/

namespace Polystore.Bson

/-- What bytes hold. A value whose bytes go wrong is `broken`, and nothing stands after it. -/
inductive Wire where
  | broken
  | leaf (value : Bson)
  | array (items : List Wire)
  | document (fields : List (String × Wire))
  | codeWithScope (source : String) (scope : List (String × Wire))

namespace Wire

/-- A text: a string, or plain bytes that are UTF-8. -/
def text? : Wire → Option String
  | .leaf (.string s) => some s
  | .leaf (.binary 0 bytes) => Bytes.toText? bytes
  | _ => none

/-- A natural number below a bound, of either width. -/
def nat? (bound : Nat) : Wire → Option Nat
  | .leaf (.int32 n) => within n.toInt
  | .leaf (.int64 n) => within n.toInt
  | _ => none
where
  within (n : Int) : Option Nat :=
    if 0 ≤ n ∧ n < bound then some n.toNat else none

/-- Bytes: plain ones, those of a string, or a row of numbers. -/
def bytes? : Wire → Option Bytes
  | .leaf (.binary 0 bytes) => some bytes
  | .leaf (.string s) => some (Bytes.ofText s)
  | .array items => items.mapM fun item => (item.nat? 256).map UInt8.ofNat
  | _ => none

/-- Two parts, under their names in either order and nothing else, or at the head of an array. -/
def pair? (first second : String) : Wire → Option (Wire × Wire)
  | .document [(a, x), (b, y)] =>
    if a = first ∧ b = second then some (x, y)
    else if a = second ∧ b = first then some (y, x)
    else none
  | .array (x :: y :: _) => some (x, y)
  | _ => none

end Wire

end Polystore.Bson
