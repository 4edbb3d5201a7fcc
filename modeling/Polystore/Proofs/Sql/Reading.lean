import Polystore.Proofs.Sql.Meaning
import Polystore.Text.Split

/-!
Conditions read back from their pieces. Pieces are cut into words; words are read with the
precedence of SQL, where OR binds weaker than AND, AND weaker than NOT, and NOT weaker than any
test. The AND inside of a BETWEEN belongs to it.
-/

namespace Polystore.Sql

inductive Word where
  | operand (o : Operand)
  | compare (op : Comparison)
  | nullSafe
  | opening
  | closing
  | comma
  | and
  | or
  | not
  | inWord
  | like
  | between
  | is
  | distinct
  | fromWord
  | null
  | any
  | all

namespace Word

/-- The words that stand in texts. -/
def vocabulary : List (String × Word) :=
  [("=", .compare .eq), ("<>", .compare .ne), ("<", .compare .lt), (">", .compare .gt),
    ("<=", .compare .le), (">=", .compare .ge), ("<=>", .nullSafe), ("(", .opening),
    (")", .closing), (",", .comma), ("AND", .and), ("OR", .or), ("NOT", .not), ("IN", .inWord),
    ("LIKE", .like), ("BETWEEN", .between), ("IS", .is), ("DISTINCT", .distinct),
    ("FROM", .fromWord), ("NULL", .null), ("ANY", .any), ("ALL", .all)]

def ofChars? (cs : List Char) : Option Word :=
  (vocabulary.find? fun entry => entry.1.toList == cs).map Prod.snd

/-- A text cut at blanks, with brackets and commas by themselves. -/
def stretches (text : List Char) : List (List Char) :=
  let apart := text.flatMap fun c => if c = '(' ∨ c = ')' ∨ c = ',' then [' ', c, ' '] else [c]
  (Text.split ' ' apart).filter (· ≠ [])

def ofText? (text : String) : Option (List Word) :=
  (stretches text.toList).mapM ofChars?

/-- The words of a piece. The column that identifies a row is written as text. -/
def ofPiece? (d : Dialect) : Piece → Option (List Word)
  | .text t | .glue t => if d.rowIdentity = some t then some [.operand (.key .primary)] else ofText? t
  | .name n => some [.operand (.key (.named n))]
  | .bind v => some [.operand (.literal v)]
  | .reuse _ | .missing _ => none

def ofPieces? (d : Dialect) : List Piece → Option (List Word)
  | [] => some []
  | piece :: rest => do
    let first ← ofPiece? d piece
    let more ← ofPieces? d rest
    some (first ++ more)

end Word

/-- A test between operands, or its opposite. -/
inductive Test where
  | compare (left : Operand) (op : Comparison) (right : Operand)
  | null (subject : Operand) (negated : Bool)
  | among (subject : Operand) (values : List Operand) (negated : Bool)
  | range (subject low high : Operand) (negated : Bool)
  | like (subject pattern : Operand) (negated : Bool)
  | element (left right : Operand) (negated : Bool)

/-- An expression as it stands in a statement. -/
inductive Expression where
  | test (t : Test)
  | not (e : Expression)
  | and (e f : Expression)
  | or (e f : Expression)

namespace Valuation

variable {D : Type}

def test (v : Valuation D) : Test → Truth
  | .compare left op right => v.compare left op right
  | .null subject negated => .negatedIf negated (v.nullTest subject)
  | .among subject values negated => .negatedIf negated (v.among subject values)
  | .range subject low high negated =>
    .negatedIf negated ((v.compare subject .ge low).and (v.compare subject .le high))
  | .like subject pattern negated => .negatedIf negated (v.like subject pattern)
  | .element left right negated => .negatedIf negated (v.element left right)

def truth (v : Valuation D) : Expression → Truth
  | .test t => v.test t
  | .not e => (v.truth e).not
  | .and e f => (v.truth e).and (v.truth f)
  | .or e f => (v.truth e).or (v.truth f)

end Valuation

namespace Expression

/-- Operands with commas between them, up to the closing bracket. -/
def readList : List Word → Option (List Operand × List Word)
  | .operand o :: .closing :: rest => some ([o], rest)
  | .operand o :: .comma :: rest => (readList rest).map fun (os, rest) => (o :: os, rest)
  | _ => none

/-- The tests that have a NOT before their name if they are negated. -/
def readNamed (subject : Operand) (negated : Bool) : List Word → Option (Test × List Word)
  | .like :: .operand pattern :: rest => some (.like subject pattern negated, rest)
  | .between :: .operand low :: .and :: .operand high :: rest =>
    some (.range subject low high negated, rest)
  | .inWord :: .opening :: rest =>
    (readList rest).map fun (values, rest) => (.among subject values negated, rest)
  | _ => none

def readTest : List Word → Option (Test × List Word)
  | .operand l :: .compare .eq :: .any :: .opening :: .operand r :: .closing :: rest =>
    some (.element l r false, rest)
  | .operand l :: .compare .ne :: .all :: .opening :: .operand r :: .closing :: rest =>
    some (.element l r true, rest)
  | .operand l :: .compare op :: .operand r :: rest => some (.compare l op r, rest)
  | .operand s :: .nullSafe :: .null :: rest => some (.null s false, rest)
  | .operand s :: .is :: .null :: rest => some (.null s false, rest)
  | .operand s :: .is :: .not :: .null :: rest => some (.null s true, rest)
  | .operand s :: .is :: .distinct :: .fromWord :: .null :: rest => some (.null s true, rest)
  | .operand s :: .is :: .not :: .distinct :: .fromWord :: .null :: rest =>
    some (.null s false, rest)
  | .operand s :: .not :: rest => readNamed s true rest
  | .operand s :: rest => readNamed s false rest
  | _ => none

mutual

/-- Items with OR between them, as far as they go. The number bounds the depth. -/
def readOr : Nat → List Word → Option (Expression × List Word)
  | 0, _ => none
  | n + 1, words =>
    match readAnd n words with
    | some (e, .or :: rest) => (readOr n rest).map fun (f, rest) => (.or e f, rest)
    | found => found
termination_by structural n => n

def readAnd : Nat → List Word → Option (Expression × List Word)
  | 0, _ => none
  | n + 1, words =>
    match readNot n words with
    | some (e, .and :: rest) => (readAnd n rest).map fun (f, rest) => (.and e f, rest)
    | found => found
termination_by structural n => n

/-- A test, an expression in brackets, or NOT and what it applies to. -/
def readNot : Nat → List Word → Option (Expression × List Word)
  | 0, _ => none
  | n + 1, .not :: rest => (readNot n rest).map fun (e, rest) => (.not e, rest)
  | n + 1, .opening :: rest =>
    match readOr n rest with
    | some (e, .closing :: rest) => some (e, rest)
    | _ => none
  | _ + 1, words => (readTest words).map fun (t, rest) => (.test t, rest)
termination_by structural n => n

end

/-- The expression that the words spell; none may be left over. -/
def ofWords? (words : List Word) : Option Expression :=
  match readOr (3 * words.length + 2) words with
  | some (e, []) => some e
  | _ => none

/-- The expression that pieces of a statement spell. -/
def ofPieces? (d : Dialect) (pieces : List Piece) : Option Expression := do
  ofWords? (← Word.ofPieces? d pieces)

end Expression

end Polystore.Sql
