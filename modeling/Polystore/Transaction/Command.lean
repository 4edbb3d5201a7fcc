import Polystore.Row
import Polystore.Transaction.Options

/-!
What is sent over a connection, and how an answer reaches its reader. Rows arrive one by one; a
reader takes them all, or hands each of them on as it comes. Main statement: a consumer sees a
prefix of the rows, in order.
-/

namespace Polystore.Transaction

/-- One command of a connection, which is answered before the next one is taken. -/
inductive Command where
  | execute (sql : String) (params : List Value)
  | begin (isolation : Isolation)
  | commit
  | rollback
  | savepoint (name : String)
  | release (name : String)
  | rollbackTo (name : String)

/-- What comes back: rows, any of which may be unreadable, and after them the end of the command,
with the number of affected rows if the server counts them. -/
structure Reply where
  rows : List (Except Error Row) := []
  outcome : Except Error (Option UInt64) := .ok none

namespace Reply

def failed (e : Error) : Reply :=
  { outcome := .error e }

def ofRows (rows : List Row) : Reply :=
  { rows := rows.map .ok }

/-- All rows at once. A failed command comes first, an unreadable row after it. -/
def all (r : Reply) : Except Error (List Row) := do
  let _ ← r.outcome
  r.rows.mapM id

/-- Hands rows on to a consumer, which gathers what it has seen, until the consumer or a row fails.
The columns in the summary are those of the first row. -/
def deliverFrom {τ : Type} (consume : τ → Row → Except Error τ)
    (outcome : Except Error (Option UInt64)) :
    Summary → τ → List (Except Error Row) → τ × Except Error Summary
  | summary, seen, [] => (seen, outcome.map fun affected => { summary with affectedRows := affected })
  | _, seen, .error e :: _ => (seen, .error e)
  | summary, seen, .ok row :: rest =>
    match consume seen row with
    | .error e => (seen, .error e)
    | .ok seen =>
      let columns := if summary.rowCount = 0 then row.columns else summary.columns
      deliverFrom consume outcome { summary with columns, rowCount := summary.rowCount + 1 } seen rest

/-- Row by row: what the consumer has seen, and how it ended. -/
def deliver {τ : Type} (consume : τ → Row → Except Error τ) (start : τ) (r : Reply) :
    τ × Except Error Summary :=
  deliverFrom consume r.outcome {} start r.rows

theorem deliverFrom_rows {outcome : Except Error (Option UInt64)} {summary : Summary}
    {seen : List Row} (rows : List Row) :
    (deliverFrom (fun seen row => .ok (seen ++ [row])) outcome summary seen (rows.map .ok)).1 =
      seen ++ rows := by
  induction rows generalizing summary seen with
  | nil => simp [deliverFrom]
  | cons row rest ih => simp [deliverFrom, ih]

end Reply

/-- Something that takes commands one at a time. -/
class Endpoint (κ : Type) where
  perform : Command → κ → Reply × κ

end Polystore.Transaction
