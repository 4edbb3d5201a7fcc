import Polystore.Postgres.Decode
import Polystore.Postgres.Encode
import Polystore.Postgres.Report
import Polystore.Sql.Dialect
import Polystore.Text.Split
import Polystore.Transaction.Command

/-!
A session with a PostgreSQL server, as seen from the wire: what is sent for each command, and what is
made of the server's answers. The server is given by the answers that it has ready.
-/

namespace Polystore.Postgres

open Transaction (Command Reply Endpoint Isolation)

/-- What goes to the server: statements in one piece, or one statement with the types and the binary
images of its parameters. -/
inductive Message where
  | batch (sql : String)
  | query (sql : String) (types : List PgType) (params : List (Option Bytes))

/-- How the server ends its answer. -/
inductive Ending where
  | complete (tag : String)
  | failed (report : Report)
  /-- It closes the session, before anything else. -/
  | closed
  /-- It says something out of place, before anything else. -/
  | unexpected

/-- An answer of the server. A statement without columns has no rows. -/
structure Answer where
  columns : Option (List (String × PgType)) := none
  rows : List (List (Option Bytes)) := []
  ending : Ending := .complete ""

structure Session where
  answers : List Answer := []
  /-- What was sent so far, the latest first. -/
  sent : List Message := []
  isClosed : Bool := false

/-- Failures that come about on this side of the wire. -/
inductive Fault where
  | closed
  | unexpected
  | unreadableReport
  /-- A statement with a zero character, which would end it. -/
  | unsendable
  | parameter (index : Nat) (cause : Error)

def Fault.failure : Fault → BackendError
  | .closed => .ofConnection "postgres" "connection closed"
  | .unexpected => .ofText "postgres" "unexpected message from server"
  | .unreadableReport =>
    { BackendError.ofConnection "postgres" "error parsing response from server" with
      detail := some "ill-formed error report" }
  | .unsendable =>
    { BackendError.ofConnection "postgres" "error sending the statement" with
      detail := some "zero character in the statement" }
  | .parameter index cause =>
    { BackendError.ofConnection "postgres" ("error serializing parameter " ++ toString index) with
      detail := some (cause.message?.getD "unreadable value") }

def Fault.error (f : Fault) : Error :=
  .server f.failure

def Report.error (r : Report) (statement : String) : Error :=
  match r.failure? statement with
  | some failure => .server failure
  | none => Fault.unreadableReport.error

/-- The number of affected rows: the last word of a command tag, if that is a number. -/
def affectedRows (tag : String) : UInt64 :=
  let last := match Text.cutLast ' ' tag.toList with
    | some (_, word) => String.ofList word
    | none => tag
  UInt64.ofNat ((readBelow? (2 ^ 64) last).getD 0)

def decodeField (type : PgType) : Option Bytes → Except Error Value
  | none => .ok .null
  | some bytes => decode type bytes

def decodeRow (columns : List (String × PgType)) (fields : List (Option Bytes)) :
    Except Error Row := do
  let values ← (columns.zip fields).mapM fun (column, field) => decodeField column.2 field
  pure ⟨columns.map Prod.fst, values⟩

namespace Answer

def outcome (a : Answer) (statement : String) : Except Error (Option UInt64) :=
  match a.ending with
  | .complete tag => .ok (some (affectedRows tag))
  | .failed report => .error (report.error statement)
  | .closed => .error Fault.closed.error
  | .unexpected => .error Fault.unexpected.error

def reply (a : Answer) (statement : String) : Reply :=
  let rows := match a.ending, a.columns with
    | .closed, _ | .unexpected, _ | _, none => []
    | _, some columns => a.rows.map (decodeRow columns)
  { rows, outcome := a.outcome statement }

def closes (a : Answer) : Bool :=
  match a.ending with
  | .closed => true
  | _ => false

end Answer

/-- The images of parameters, in order; the first one that has none fails. -/
def encodeParams (index : Nat) : List Value → Except Fault (List (Option Bytes))
  | [] => .ok []
  | v :: rest =>
    match encode v (paramType v) with
    | .error cause => .error (.parameter index cause)
    | .ok image => do pure (image :: (← encodeParams (index + 1) rest))

def checkText (sql : String) : Except Fault Unit :=
  if sql.toList.contains '\x00' then .error .unsendable else .ok ()

def quoted (name : String) : String :=
  String.ofList (Sql.Dialect.postgres.quoteName name.toList)

def beginText (isolation : Isolation) : String :=
  match isolation.sql with
  | none => "BEGIN"
  | some level => "BEGIN ISOLATION LEVEL " ++ level

def commandText : Command → String
  | .execute sql _ => sql
  | .begin isolation => beginText isolation
  | .commit => "COMMIT"
  | .rollback => "ROLLBACK"
  | .savepoint name => "SAVEPOINT " ++ quoted name
  | .release name => "RELEASE SAVEPOINT " ++ quoted name
  | .rollbackTo name => "ROLLBACK TO SAVEPOINT " ++ quoted name

def message (command : Command) : Except Fault Message := do
  checkText (commandText command)
  match command with
  | .execute sql params => do
    pure (.query sql (params.map paramType) (← encodeParams 0 params))
  | other => pure (.batch (commandText other))

namespace Session

/-- What the server answers next; when it has nothing ready, a bare end. -/
def next (s : Session) : Answer :=
  s.answers.headD {}

instance : Endpoint Session where
  perform command s :=
    match message command with
    | .error fault => (.failed fault.error, s)
    | .ok message =>
      if s.isClosed then (.failed Fault.closed.error, s)
      else
        (s.next.reply (commandText command),
          { answers := s.answers.tail, sent := message :: s.sent, isClosed := s.next.closes })

end Session

end Polystore.Postgres
