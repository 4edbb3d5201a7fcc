import Polystore.Sql.Fragment

/-!
Fragments while they are put together. The binds are counted as they come: the count is the index of
the next bind, and the distance by which the reuses of another fragment are moved that is put behind.
-/

namespace Polystore.Sql

/-- A fragment under construction, and how many binds it has so far. -/
structure Draft where
  pieces : List Piece := []
  bindCount : Nat := 0

namespace Draft

def isEmpty (f : Draft) : Bool :=
  f.pieces.isEmpty

/-- One more piece at the end. -/
def push (f : Draft) (piece : Piece) : Draft where
  pieces := f.pieces ++ [piece]
  bindCount := match piece with
    | .bind _ => f.bindCount + 1
    | _ => f.bindCount

/-- One more bind, and the index by which it can be used again. -/
def pushBind (f : Draft) (v : Value) : Draft × Nat :=
  let next := f.push (.bind v)
  (next, next.bindCount - 1)

/-- Another fragment at the end, whose reuses keep to its own binds. -/
def append (f other : Draft) : Draft where
  pieces := f.pieces ++ other.pieces.map fun
    | .reuse index => .reuse (index + f.bindCount)
    | piece => piece
  bindCount := f.bindCount + other.bindCount

/-- Another fragment between parentheses, at the end. -/
def appendGrouped (f other : Draft) : Draft :=
  ((f.push (.text "(")).append other).push (.glue ")")

/-- What has been put together. -/
def fragment (f : Draft) : Fragment :=
  ⟨f.pieces⟩

/-- The draft of a fragment, piece by piece. -/
def ofFragment (f : Fragment) : Draft :=
  f.pieces.foldl push {}

def render (d : Dialect) (f : Draft) : Except Error Rendered :=
  f.fragment.render d

end Draft

end Polystore.Sql
