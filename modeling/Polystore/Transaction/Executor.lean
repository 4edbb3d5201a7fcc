import Polystore.Sql.Fragment
import Polystore.Transaction.Task

/-!
Statements and transactions over one connection.

An executor has its line to itself for a whole statement or a whole transaction, further attempts
included. A transaction is committed if its body succeeds and rolled back if it fails; inside it,
frames do the same with savepoints. A caller carries along which lines it holds, so that one that
asks for a line it holds already is refused instead of waiting for itself.
-/

namespace Polystore.Transaction

/-- Access to one line. -/
structure Executor where
  line : Nat
  dialect : Option Sql.Dialect

/-- A transaction under way, or a frame in it; the outermost has depth zero. -/
structure Frame where
  executor : Executor
  depth : Nat
  /-- The lines that are held on the way here, this one among them. -/
  held : List Nat

def firstRow (rows : List Row) : Except Error Row :=
  match rows with
  | [] => .error .objectNotFound
  | row :: _ => .ok row

/-- A failed attempt to undo something that has failed. -/
def undone (undo : Except Error (Option UInt64)) (failure : Error) : Error :=
  match undo with
  | .ok _ => failure
  | .error refused => .rollbackFailed refused failure

namespace Executor

variable {σ α τ : Type}

/-- Is a statement written for this connection? -/
def checkDialect (e : Executor) (statement : Sql.Rendered) : Except Error Unit :=
  match e.dialect with
  | none => .ok ()
  | some dialect =>
    if statement.dialect = dialect then .ok ()
    else .error (.invalidExpression (.sentToWrongBackend statement.dialect.name dialect.name))

def send (e : Executor) (sql : String) (params : List Value) : Task σ Reply :=
  Task.send e.line (.execute sql params)

def hold (e : Executor) (held : List Nat) (work : Task σ (Except Error α)) :
    Task σ (Except Error α) :=
  if held.contains e.line then pure (.error .transactionDeadlock) else Task.hold e.line work

def execute (e : Executor) (held : List Nat) (sql : String) (params : List Value) :
    Task σ (Except Error (List Row)) :=
  e.hold held do pure (← e.send sql params).all

def fetchOne (e : Executor) (held : List Nat) (sql : String) (params : List Value) :
    Task σ (Except Error Row) := do
  pure ((← e.execute held sql params).bind firstRow)

def run (e : Executor) (held : List Nat) (statement : Sql.Rendered) :
    Task σ (Except Error (List Row)) :=
  match e.checkDialect statement with
  | .error wrong => pure (.error wrong)
  | .ok () => e.execute held statement.sql statement.binds

/-- A statement whose rows are handed on one by one. The consumer's findings are kept also if it
fails; a caller that is refused finds nothing. -/
def stream (e : Executor) (held : List Nat) (sql : String) (params : List Value)
    (consume : τ → Row → Except Error τ) (start : τ) : Task σ (τ × Except Error Summary) := do
  let result ← e.hold held do pure (.ok ((← e.send sql params).deliver consume start))
  pure (match result with
    | .ok delivered => delivered
    | .error refused => (start, .error refused))

/-- Commits what a body has done, unless it has failed. -/
def commit (e : Executor) : Except Error α → Task σ (Except Error α)
  | .error failure => pure (.error failure)
  | .ok value => do pure ((← Task.send e.line .commit).outcome.map fun _ => value)

/-- A transaction from its start to its end, then another one if the retry policy allows for it.
`patience` bounds the attempts of a policy that does not. -/
def attempts (e : Executor) (options : Options) (body : Task σ (Except Error α)) :
    (patience made : Nat) → Task σ (Except Error α)
  | 0, _ => .pending
  | patience + 1, made => do
    Task.mark e.line true
    match (← Task.send e.line (.begin options.isolation)).outcome with
    | .error refused =>
      Task.mark e.line false
      pure (.error refused)
    | .ok _ =>
      match ← e.commit (← body) with
      | .ok value =>
        Task.mark e.line false
        pure (.ok value)
      | .error failure =>
        let undo := (← Task.send e.line .rollback).outcome
        Task.mark e.line false
        if undo.isOk && failure.isConflict && options.retry.allows (made + 1) then
          attempts e options body patience (made + 1)
        else pure (.error (undone undo failure))

def transaction (e : Executor) (held : List Nat) (patience : Nat) (options : Options)
    (body : Frame → Task σ (Except Error α)) : Task σ (Except Error α) :=
  e.hold held (e.attempts options (body ⟨e, 0, e.line :: held⟩) patience 0)

end Executor

namespace Frame

variable {σ α τ : Type}

def execute (f : Frame) (sql : String) (params : List Value) : Task σ (Except Error (List Row)) := do
  pure (← f.executor.send sql params).all

def fetchOne (f : Frame) (sql : String) (params : List Value) : Task σ (Except Error Row) := do
  pure ((← f.execute sql params).bind firstRow)

def run (f : Frame) (statement : Sql.Rendered) : Task σ (Except Error (List Row)) :=
  match f.executor.checkDialect statement with
  | .error wrong => pure (.error wrong)
  | .ok () => f.execute statement.sql statement.binds

def stream (f : Frame) (sql : String) (params : List Value) (consume : τ → Row → Except Error τ)
    (start : τ) : Task σ (τ × Except Error Summary) := do
  pure ((← f.executor.send sql params).deliver consume start)

/-- The savepoint of a frame is named by its depth alone. -/
def savepoint (depth : Nat) : String :=
  "dbkit_sp_" ++ toString depth

/-- Runs a body in a frame of its own. A frame is not tried again: its conflict goes up to the
transaction. -/
def nested (f : Frame) (body : Frame → Task σ (Except Error α)) : Task σ (Except Error α) := do
  let depth := f.depth + 1
  let line := f.executor.line
  match (← Task.send line (.savepoint (savepoint depth))).outcome with
  | .error refused => pure (.error refused)
  | .ok _ =>
    match ← body { f with depth } with
    | .ok value => pure ((← Task.send line (.release (savepoint depth))).outcome.map fun _ => value)
    | .error failure =>
      pure (.error (undone (← Task.send line (.rollbackTo (savepoint depth))).outcome failure))

end Frame

end Polystore.Transaction
