import Polystore.Postgres.Session
import Polystore.Sql.Statement
import Polystore.Transaction.Executor

/-!
Conversations with a PostgreSQL server: calls one after another, each with the answers that the
server has ready for it, and for each call what was sent and what it came to.
-/

namespace Polystore.Postgres.Conversation

open Transaction (Command Endpoint Executor Frame Options Task World)

/-- A part of a transaction's body. -/
inductive Piece where
  | statement (sql : String) (params : List Value)
  | nested (body : List Piece)

inductive Call where
  | execute (sql : String) (params : List Value)
  /-- The consumer takes no more rows than the limit. -/
  | stream (sql : String) (params : List Value) (limit : Option Nat)
  /-- A command that has no rows. -/
  | command (c : Command)
  | run (statement : Sql.Statement)
  /-- Its value is the number of rows that its statements have given. -/
  | transaction (options : Options) (body : List Piece)

inductive Outcome where
  | rows (rows : List Row)
  | summary (s : Summary)
  | count (n : Nat)
  | nothing

/-- What a call has sent and come to, with the rows that a consumer has seen. -/
structure Record where
  sent : List Message
  result : Except Error Outcome
  seen : Option (List Row) := none

def executor : Executor :=
  ⟨0, some .postgres⟩

abbrev Work := Task Unit (Except Error Nat)

mutual

def Piece.work (frame : Frame) : Piece → Work
  | .statement sql params => do pure ((← frame.execute sql params).map List.length)
  | .nested body => frame.nested fun inner => bodyWork inner 0 body
termination_by structural piece => piece

/-- The pieces in order, up to the first failure. -/
def bodyWork (frame : Frame) (count : Nat) : List Piece → Work
  | [] => pure (.ok count)
  | piece :: rest => do
    match ← piece.work frame with
    | .error e => pure (.error e)
    | .ok rows => bodyWork frame (count + rows) rest
termination_by structural pieces => pieces

end

/-- Bounds that no conversation comes near to: the attempts of a transaction and the turns of a
call. -/
def patience : Nat := 2 ^ 32
def turns : Nat := 2 ^ 64

/-- Takes rows up to a limit, which it does not go past. -/
def gather (limit : Option Nat) (seen : List Row) (row : Row) : Except Error (List Row) :=
  if limit.any (seen.length ≥ ·) then .error .objectNotFound else .ok (seen ++ [row])

/-- A task through the executor. One that does not end waits for itself. -/
def perform {α : Type} (work : Task Unit (Except Error α)) (s : Session) :
    Except Error α × Session :=
  let (t, w) := work.start turns (World.mk () fun _ => { endpoint := s })
  (t.result?.getD (.error .transactionDeadlock), (w.lines executor.line).endpoint)

/-- One call: the session after it, what it came to, and what a consumer has seen. -/
def Call.play (s : Session) : Call → Session × Except Error Outcome × Option (List Row)
  | .execute sql params =>
    let (reply, s) := Endpoint.perform (.execute sql params) s
    (s, reply.all.map .rows, none)
  | .stream sql params limit =>
    let (reply, s) := Endpoint.perform (.execute sql params) s
    let (seen, result) := reply.deliver (gather limit) []
    (s, result.map .summary, some seen)
  | .command c =>
    let (reply, s) := Endpoint.perform c s
    (s, reply.outcome.map fun _ => .nothing, none)
  | .run statement =>
    match statement.render with
    | .error e => (s, .error e, none)
    | .ok rendered =>
      let (rows, s) := perform (executor.run [] rendered) s
      (s, rows.map .rows, none)
  | .transaction options body =>
    let work := executor.transaction [] patience options fun frame => bodyWork frame 0 body
    let (count, s) := perform work s
    (s, count.map .count, none)

/-- Calls in order over one session; each finds the answers that are its own. -/
def play : Session → List (Call × List Answer) → List Record
  | _, [] => []
  | s, (call, answers) :: rest =>
    let (s, result, seen) := call.play { s with answers, sent := [] }
    ⟨s.sent.reverse, result, seen⟩ :: play s rest

end Polystore.Postgres.Conversation
