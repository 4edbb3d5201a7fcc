import Polystore.Sql.Condition

/-!
Statements out of clauses. What goes wrong while clauses are added is kept until the statement is
written, and the first failure counts.
-/

namespace Polystore.Sql

inductive JoinKind where
  | inner
  | left
  | right
  | full
  | cross
deriving DecidableEq, Repr

def JoinKind.word : JoinKind → String
  | .inner => "INNER JOIN"
  | .left => "LEFT JOIN"
  | .right => "RIGHT JOIN"
  | .full => "FULL JOIN"
  | .cross => "CROSS JOIN"

/-- Clauses that go on after a comma when they are repeated. -/
inductive ListClause where
  | set
  | values
  | orderBy
deriving DecidableEq, Repr

def ListClause.word : ListClause → String
  | .set => "SET"
  | .values => "VALUES"
  | .orderBy => "ORDER BY"

/-- A statement under construction. -/
structure Statement where
  dialect : Dialect
  fragment : Fragment := {}
  hasWhere : Bool := false
  openList : Option ListClause := none
  error : Option Error := none

/-- What can be added to a statement. -/
inductive Clause where
  | select (columns : List String)
  | selectDistinct (columns : List String)
  | deleteFrom (table : String)
  | update (table : String)
  | insertInto (table : String) (columns : List String)
  | createView (title : String) (options : ViewOptions)
  | from (table : String)
  | join (kind : JoinKind) (table : String) (on : Condition)
  | joinUsing (kind : JoinKind) (table : String) (columns : List String)
  | where (p : Condition)
  | set (column : String) (v : Value)
  | change (column : String) (op : UpdateOperator) (v : Value)
  | values (row : List Value)
  | groupBy (columns : List String)
  | having (p : Condition)
  | orderBy (column : String) (descending : Bool)
  | limit (n : UInt64)
  | offset (n : UInt64)
  | lock (l : RowLock)
  | returning (columns : List String)
  | asSelect (inner : Statement)
  | text (t : String)
  | name (n : String)
  | bind (v : Value)
  | reuse (index : Nat)
  | append (f : Fragment)

namespace Statement

def add (s : Statement) (pieces : List Piece) : Statement :=
  { s with fragment := ⟨s.fragment.pieces ++ pieces⟩ }

def closeList (s : Statement) : Statement :=
  { s with openList := none }

/-- Keeps the first failure. -/
def fail (s : Statement) (e : Error) : Statement :=
  { s with error := some (s.error.getD e) }

/-- A kept failure as it is given out. The kinds that a statement can meet are given out as they are,
of others the wording is left. -/
def givenOut : Error → Error
  | .invalidExpression cause => .invalidExpression cause
  | .unsupportedOperation dialect operation => .unsupportedOperation dialect operation
  | .unsupportedType backend description => .unsupportedType backend description
  | e => .invalidExpression (.stated (e.message?.getD ""))

/-- Another statement that goes on from here, with the failure that was kept. -/
def copy (s : Statement) : Statement :=
  { s with error := s.error.map givenOut }

def nameList : List String → List Piece
  | [] => []
  | [n] => [.name n]
  | n :: rest => .name n :: .glue "," :: nameList rest

def columnList (columns : List String) : List Piece :=
  if columns.isEmpty then [.text "*"] else nameList columns

/-- Begins a list clause or goes on with the one that is open. -/
def openClause (s : Statement) (clause : ListClause) : Statement :=
  if s.openList = some clause then s.add [.glue ","]
  else { s.add [.text clause.word] with openList := some clause }

/-- Adds a condition; a disjunction keeps together when more conditions follow. -/
def condition (s : Statement) (p : Condition) : Statement :=
  match compile s.dialect p with
  | .error e => s.fail e
  | .ok f =>
    let grouped := if isAlternative p.flat then s.fragment.appendGrouped f else s.fragment ++ f
    { s with fragment := grouped }

def viewOption (wanted supported : Bool) (word operation : String) : List Piece :=
  if !wanted then []
  else if supported then [.text word]
  else [.missing operation]

def viewPieces (d : Dialect) (title : String) (options : ViewOptions) : List Piece :=
  [.text "CREATE"] ++
    viewOption options.replace d.views.replace "OR REPLACE" "CREATE OR REPLACE VIEW" ++
    viewOption options.temporary d.views.temporary "TEMPORARY" "temporary views" ++
    viewOption options.recursive d.views.recursive "RECURSIVE" "recursive views" ++
    [.text "VIEW"] ++
    viewOption options.ifNotExists d.views.ifNotExists "IF NOT EXISTS" "CREATE VIEW IF NOT EXISTS" ++
    [.name title, .text "AS"]

def changePieces (d : Dialect) (column : String) (op : UpdateOperator) (v : Value) : List Piece :=
  match d.updateForm op with
  | .ok (.between symbol) => [.name column, .text symbol, .bind v]
  | .ok (.call function) =>
    [.text (function ++ "("), .name column, .glue ",", .bind v, .glue ")"]
  | .error _ => [.missing op.name]

def embed (s inner : Statement) : Statement :=
  let s := if s.dialect = inner.dialect then s
    else s.fail (.invalidExpression (.embeddedDialect inner.dialect.name s.dialect.name))
  let s := match inner.error with
    | some e => s.fail e
    | none => s
  { s with fragment := s.fragment ++ inner.fragment }

/-- Adds a clause. Pieces that are added one by one leave an open list as it is, except for text. -/
def push (s : Statement) : Clause → Statement
  | .select columns => s.closeList.add (.text "SELECT" :: columnList columns)
  | .selectDistinct columns => s.closeList.add (.text "SELECT DISTINCT" :: columnList columns)
  | .deleteFrom table => s.closeList.add [.text "DELETE FROM", .name table]
  | .update table => s.closeList.add [.text "UPDATE", .name table]
  | .insertInto table columns =>
    s.closeList.add ([.text "INSERT INTO", .name table] ++
      if columns.isEmpty then [] else grouped (nameList columns))
  | .createView title options => s.closeList.add (viewPieces s.dialect title options)
  | .from table => s.closeList.add [.text "FROM", .name table]
  | .join kind table on =>
    let s := s.closeList.add [.text kind.word, .name table]
    if kind = .cross then s else (s.add [.text "ON"]).condition on
  | .joinUsing kind table columns =>
    s.closeList.add
      ([.text kind.word, .name table, .text "USING ("] ++ nameList columns ++ [.glue ")"])
  | .where p =>
    let s := s.closeList.add [.text (if s.hasWhere then "AND" else "WHERE")]
    { s with hasWhere := true }.condition p
  | .set column v => (s.openClause .set).add [.name column, .text "=", .bind v]
  | .change column op v =>
    (s.openClause .set).add
      ([.name column, .text "="] ++ changePieces s.dialect column op v)
  | .values row => (s.openClause .values).add (grouped (bindList row))
  | .groupBy columns => s.closeList.add (.text "GROUP BY" :: nameList columns)
  | .having p => (s.closeList.add [.text "HAVING"]).condition p
  | .orderBy column descending =>
    (s.openClause .orderBy).add [.name column, .text (if descending then "DESC" else "ASC")]
  | .limit n => s.closeList.add [.text "LIMIT", .text (String.ofList (Text.digits n.toNat))]
  | .offset n => s.closeList.add [.text "OFFSET", .text (String.ofList (Text.digits n.toNat))]
  | .lock l =>
    s.closeList.add [match s.dialect.lockClause l with
      | .ok clause => .text clause
      | .error _ => .missing "row locking"]
  | .returning columns =>
    s.closeList.add
      (if s.dialect.hasReturning then .text "RETURNING" :: columnList columns
        else [.missing "RETURNING"])
  | .asSelect inner => s.closeList.embed inner
  | .text t => s.closeList.add [.text t]
  | .name n => s.add [.name n]
  | .bind v => s.add [.bind v]
  | .reuse index => s.add [.reuse index]
  | .append f => { s with fragment := s.fragment ++ f }

def ofClauses (d : Dialect) (clauses : List Clause) : Statement :=
  clauses.foldl push { dialect := d }

def render (s : Statement) : Except Error Rendered :=
  match s.error with
  | some e => .error (givenOut e)
  | none => s.fragment.render s.dialect

def inline (s : Statement) : String :=
  s.fragment.inline s.dialect

end Statement

end Polystore.Sql
