import Polystore.Sql.Literal
import Polystore.Text.Blank

/-!
Statements in pieces. Pieces are written from left to right, one blank between neighbours, and the
binds are numbered in the order in which they are met.
-/

namespace Polystore.Sql

inductive Piece where
  | text (t : String)
  /-- Punctuation that is written right after the piece before it. -/
  | glue (t : String)
  | name (n : String)
  | bind (v : Value)
  /-- The value of an earlier bind, counted from zero. -/
  | reuse (index : Nat)
  /-- What the dialect has no words for. -/
  | missing (operation : String)

/-- A part of a statement. -/
structure Fragment where
  pieces : List Piece := []

/-- The text of one piece. -/
structure Token where
  glued : Bool
  text : List Char
deriving DecidableEq

def endsOpen (written : List Char) : Bool :=
  match written.getLast? with
  | none => true
  | some c => c = '(' || Text.isBlank c

def addToken (written : List Char) (t : Token) : List Char :=
  if t.glued || endsOpen written then written ++ t.text else written ++ ' ' :: t.text

def layout (tokens : List Token) : List Char :=
  tokens.foldl addToken []

/-- What is known of the binds met so far: the values that are sent, and the number of the
placeholder that each bind was given. -/
structure Slots where
  values : List Value := []
  numbers : List Nat := []

namespace Slots

def send (s : Slots) (v : Value) : Slots :=
  { s with values := s.values ++ [v] }

def bind (s : Slots) (v : Value) : Slots :=
  ⟨s.values ++ [v], s.numbers ++ [s.values.length + 1]⟩

end Slots

namespace Fragment

instance : Append Fragment where
  append a b :=
    let count := a.pieces.countP fun | .bind _ => true | _ => false
    ⟨a.pieces ++ b.pieces.map fun
      | .reuse index => .reuse (index + count)
      | piece => piece⟩

def bindCount (f : Fragment) : Nat :=
  f.pieces.countP fun | .bind _ => true | _ => false

def isEmpty (f : Fragment) : Bool :=
  f.pieces.isEmpty

/-- One more piece at the end; a reuse counts the binds of the whole. -/
def push (f : Fragment) (piece : Piece) : Fragment :=
  ⟨f.pieces ++ [piece]⟩

/-- The fragment between parentheses, at the end of another. -/
def appendGrouped (f inner : Fragment) : Fragment :=
  (f.push (.text "(") ++ inner).push (.glue ")")

/-- One piece after others: its text, and what it adds to the binds. -/
def step (d : Dialect) (s : Slots) : Piece → Except Error (Token × Slots)
  | .text t => .ok (⟨false, t.toList⟩, s)
  | .glue t => .ok (⟨true, t.toList⟩, s)
  | .name n => .ok (⟨false, d.quoteName n.toList⟩, s)
  | .bind v => .ok (⟨false, d.placeholder.mark (s.values.length + 1)⟩, s.bind v)
  | .reuse index =>
    match s.numbers[index]? with
    | none => .error (.invalidExpression (.reuseBeforeBind index))
    | some number =>
      if d.placeholder.isReusable then .ok (⟨false, d.placeholder.mark number⟩, s)
      else
        .ok (⟨false, d.placeholder.mark (s.values.length + 1)⟩,
          s.send (s.values.getD (number - 1) .null))
  | .missing operation => d.unsupported operation

def run (d : Dialect) : Slots → List Piece → Except Error (List Token × Slots)
  | s, [] => .ok ([], s)
  | s, piece :: rest => do
    let (token, s) ← step d s piece
    let (tokens, s) ← run d s rest
    pure (token :: tokens, s)

def inlineToken (d : Dialect) (met : List Value) : Piece → Token
  | .text t => ⟨false, t.toList⟩
  | .glue t => ⟨true, t.toList⟩
  | .name n => ⟨false, d.quoteName n.toList⟩
  | .bind v => ⟨false, (literal d v).toList⟩
  | .reuse index =>
    ⟨false, match met[index]? with
      | some v => (literal d v).toList
      | none => "<missing bind>".toList⟩
  | .missing operation => ⟨false, ("<unsupported " ++ operation ++ ">").toList⟩

def inlineTokens (d : Dialect) : List Value → List Piece → List Token
  | _, [] => []
  | met, piece :: rest =>
    inlineToken d met piece ::
      inlineTokens d (match piece with | .bind v => met ++ [v] | _ => met) rest

/-- The text with the values written out, for people to read. -/
def inline (d : Dialect) (f : Fragment) : String :=
  String.ofList (layout (inlineTokens d [] f.pieces))

end Fragment

/-- A statement as it is sent: its text, the values in the order of their placeholders, and what it
was made from. -/
structure Rendered where
  sql : String
  binds : List Value
  dialect : Dialect
  source : Fragment

namespace Rendered

def inline (r : Rendered) : String :=
  r.source.inline r.dialect

end Rendered

def Fragment.render (d : Dialect) (f : Fragment) : Except Error Rendered := do
  let (tokens, slots) ← run d {} f.pieces
  pure ⟨String.ofList (layout tokens), slots.values, d, f⟩

end Polystore.Sql
