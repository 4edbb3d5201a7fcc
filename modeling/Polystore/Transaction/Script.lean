import Polystore.Sql.Statement
import Polystore.Transaction.Executor
import Polystore.Transaction.Memory

/-!
Scripts: what callers do, written out step by step, and the trace that playing them leaves. A script
has two connections in memory. Its own one is where it runs statements and transactions; the other
one is reached from within them.
-/

namespace Polystore.Transaction.Script

/-- Where a step goes to: the transaction that it stands in, if there is one, or past it to an
executor. -/
inductive Place where
  | here
  | own
  | other
deriving DecidableEq, Repr

inductive Step where
  | execute (place : Place) (sql : String) (params : List Value)
  | fetchOne (sql : String) (params : List Value)
  /-- The consumer takes no more rows than the limit. -/
  | stream (place : Place) (sql : String) (params : List Value) (limit : Option Nat)
  | run (statement : Sql.Statement)
  /-- A transaction, or a frame in the one that the step stands in. -/
  | transaction (place : Place) (options : Options) (body : List Step)
  | depth
  | fail (e : Error)
  /-- Fails the first times that it is reached, with this error, in the whole script. -/
  | failFirst (times : Nat) (e : Error)
  /-- A step whose failure is looked at and forgotten. -/
  | attempt (step : Step)
  /-- Steps side by side. -/
  | join (steps : List Step)
  | pending

/-- What a step comes to. -/
inductive Answer where
  | nothing
  | flag (b : Bool)
  | count (n : Nat)
  | found (v : Option Value)
  | row (r : Row)
  | rows (rows : List Row)
  /-- The values of the rows that a consumer has seen. -/
  | seen (rows : List (List Value))
  | streamed (rows : List (List Value)) (summary : Summary)
  | all (results : List (Except Error Answer))

/-- One line of a trace. Steps outside of any transaction have no depth. -/
structure Entry where
  depth : Option Nat
  label : String
  result : Except Error Answer

/-- What callers note: the trace, its latest entry first, and how often each planned failure has been
reached. -/
structure Notes where
  trace : List Entry := []
  reached : List ((Nat × Error) × Nat) := []

namespace Notes

def note (depth : Option Nat) (label : String) (result : Except Error Answer) (n : Notes) : Notes :=
  { n with trace := ⟨depth, label, result⟩ :: n.trace }

def timesReached (n : Notes) (plan : Nat × Error) : Nat :=
  (n.reached.lookup plan).getD 0

def reach (plan : Nat × Error) (n : Notes) : Notes :=
  { n with reached := (plan, n.timesReached plan + 1) :: n.reached }

end Notes

abbrev Work := Task Notes (Except Error Answer)

/-- The script's own executor and the other one. -/
def executor : Place → Executor
  | .other => ⟨1, some .sqlite⟩
  | _ => ⟨0, some .sqlite⟩

def Step.label (frame : Option Frame) : Step → String
  | .execute .here _ _ => "exec"
  | .execute .own _ _ => "reenter_exec"
  | .execute .other _ _ => "other_exec"
  | .fetchOne _ _ => "fetch_one"
  | .stream .here _ _ _ => "stream"
  | .stream .own _ _ _ => "reenter_stream"
  | .stream .other _ _ _ => "other_stream"
  | .run _ => "run"
  | .transaction .here _ _ => if frame.isSome then "nested" else "tx"
  | .transaction .own _ _ => "reenter_tx"
  | .transaction .other _ _ => "other_tx"
  | .depth => "depth"
  | .fail _ => "fail"
  | .failFirst _ _ => "fail_times"
  | .attempt _ => "try"
  | .join _ => "join"
  | .pending => "pending"

def note (frame : Option Frame) (label : String) (result : Except Error Answer) :
    Task Notes Unit := do
  let _ ← Task.update (Notes.note (frame.map Frame.depth) label result)

def noteAll (frame : Option Frame) : List Step → List (Except Error Answer) → Task Notes Unit
  | step :: steps, result :: results => do
    note frame (step.label frame) result
    noteAll frame steps results
  | _, _ => pure ()

/-- Takes rows up to a limit, which it does not go past. -/
def gather (limit : Option Nat) (seen : List (List Value)) (row : Row) :
    Except Error (List (List Value)) :=
  if limit.any (seen.length ≥ ·) then .error .objectNotFound else .ok (seen ++ [row.values])

/-- The first failure among results, or all of them. -/
def joined (results : List (Except Error Answer)) : Except Error Answer := do
  let answers ← results.mapM id
  pure (.all (answers.map .ok))

def heldBy (frame : Option Frame) : List Nat :=
  (frame.map Frame.held).getD []

def execute (frame : Option Frame) (place : Place) (sql : String) (params : List Value) :
    Task Notes (Except Error (List Row)) :=
  match place, frame with
  | .here, some f => f.execute sql params
  | _, _ => (executor place).execute (heldBy frame) sql params

/-- A streamed statement. If it fails inside of a transaction, the rows seen so far are noted. -/
def stream (frame : Option Frame) (place : Place) (sql : String) (params : List Value)
    (limit : Option Nat) : Work := do
  let (seen, result) ← match place, frame with
    | .here, some f => f.stream sql params (gather limit) []
    | _, _ => (executor place).stream (heldBy frame) sql params (gather limit) []
  match result with
  | .ok summary => pure (.ok (.streamed seen summary))
  | .error e =>
    if place == .here && frame.isSome then note frame "stream rows" (.ok (.seen seen))
    pure (.error e)

def run (frame : Option Frame) (statement : Sql.Statement) : Work :=
  match statement.render with
  | .error e => pure (.error e)
  | .ok rendered => do
    let rows ← match frame with
      | some f => f.run rendered
      | none => (executor .here).run [] rendered
    pure (rows.map .rows)

mutual

/-- What a step does. `patience` bounds the attempts of each transaction. -/
def Step.work (patience : Nat) (frame : Option Frame) : Step → Work
  | .execute place sql params => do pure ((← execute frame place sql params).map .rows)
  | .fetchOne sql params => do
    pure (((← execute frame .here sql params).bind firstRow).map .row)
  | .stream place sql params limit => stream frame place sql params limit
  | .run statement => run frame statement
  | .transaction place options body =>
    match place, frame with
    | .here, some f => f.nested fun inner => bodyWork patience inner 0 body
    | _, _ =>
      (executor place).transaction (heldBy frame) patience options fun inner =>
        bodyWork patience inner 0 body
  | .depth => pure (.ok (.count ((frame.map Frame.depth).getD 0)))
  | .fail e => pure (.error e)
  | .failFirst times e => do
    let reached := (← Task.update (Notes.reach (times, e))).timesReached (times, e)
    pure (if reached < times then .error e else .ok (.count (reached + 1)))
  | .attempt step => do
    let result ← step.work patience frame
    note frame (step.label frame) result
    pure (.ok (.flag result.isOk))
  | .join steps => do
    let results ← joinWork patience frame steps
    noteAll frame steps results
    pure (joined results)
  | .pending => .pending
termination_by structural s => s

/-- The steps of a body one after another, up to the first failure. Its value is their number. -/
def bodyWork (patience : Nat) (frame : Frame) (count : Nat) : List Step → Work
  | [] => pure (.ok (.count count))
  | step :: rest => do
    let result ← step.work patience (some frame)
    note (some frame) (step.label (some frame)) result
    match result with
    | .error e => pure (.error e)
    | .ok _ => bodyWork patience frame (count + 1) rest
termination_by structural steps => steps

def joinWork (patience : Nat) (frame : Option Frame) :
    List Step → Task Notes (List (Except Error Answer))
  | [] => .done []
  | step :: rest =>
    .both (step.work patience frame) (joinWork patience frame rest) fun result results =>
      .done (result :: results)
termination_by structural steps => steps

end

def commitFailure : String → Error
  | "40001" => Memory.failure "40001" "could not serialize access"
  | "40P01" => Memory.failure "40P01" "deadlock detected"
  | "23505" => Memory.failure "23505" "duplicate key"
  | "1205" => .server (.ofNumber 1205 "lock wait timeout")
  | _ => .objectNotFound

def failure? : List String → Option Error
  | ["expr", text] => some (.invalidExpression (.stated text))
  | ["not_found"] => some .objectNotFound
  | ["deadlock"] => some .transactionDeadlock
  | ["codec", text] => some (.malformed (.stated ("test: " ++ text)))
  | ["sqlstate", code, text] => some (Memory.failure code text)
  | ["mysql", code, text] =>
    (Text.readNat? code.toList).map fun number => .server (.ofNumber number text)
  | ["connection", text] => some (.server (.ofConnection "memory" text))
  | _ => none

/-- What a script consists of. -/
inductive Scene where
  | step (step : Step)
  /-- Transactions of several callers who start together. -/
  | concurrent (bodies : List (List Step))
  /-- A transaction whose caller goes away while it waits. -/
  | abandon (body : List Step)
  | failCommits (count : Nat) (code : String)
  | failRollbacks (failing : Bool)
  | committed (place : Place) (name : String)

abbrev Theatre := World Notes Memory

/-- Bounds that no script comes near to: the attempts of a transaction and the turns of a scene. -/
def patience : Nat := 2 ^ 32
def turns : Nat := 2 ^ 64

def transaction (body : List Step) : Work :=
  (Step.transaction .here {} body).work patience none

/-- Plays a task and notes what it has come to. -/
def noted (label : String) (work : Work) (theatre : Theatre) : Theatre :=
  ((work >>= note none label).start turns theatre).2

def Scene.play (theatre : Theatre) : Scene → Theatre
  | .step s => noted (s.label none) (s.work patience none) theatre
  | .concurrent bodies =>
    noted "concurrent" (.ok <$> .all <$> Task.all (bodies.map transaction)) theatre
  | .abandon body =>
    let (left, theatre) := (transaction body).start turns theatre
    let theatre := left.drop theatre
    noted "abandon" (pure (.ok (.flag true)))
      ((theatre.onLine 0 Line.cleanUp).onLine 1 Line.cleanUp)
  | .failCommits count code =>
    noted "fail_commits" (pure (.ok .nothing))
      (theatre.onEndpoint 0 fun m => { m with failingCommits := some (count, commitFailure code) })
  | .failRollbacks failing =>
    noted "fail_rollbacks" (pure (.ok .nothing))
      (theatre.onEndpoint 0 fun m => { m with failingRollbacks := failing })
  | .committed place name =>
    let label := if place = .other then "other_committed" else "committed"
    let found := (theatre.lines (executor place).line).endpoint.committed name
    noted label (pure (.ok (.found found))) theatre

/-- What a scene leaves: its trace, and what its own connection was sent. -/
structure Record where
  trace : List Entry
  log : List Command

/-- What both connections were sent in the whole, and a record of each scene. -/
structure Account where
  records : List Record := []
  log : List Command
  otherLog : List Command

/-- The commands that a connection has had so far. -/
def history (theatre : Theatre) (place : Place) : List Command :=
  (theatre.lines (executor place).line).endpoint.history

def playFrom (theatre : Theatre) : List Scene → Account
  | [] => { log := history theatre .own, otherLog := history theatre .other }
  | scene :: rest =>
    let after := scene.play { theatre with notes := { theatre.notes with trace := [] } }
    let log := (history after .own).drop (history theatre .own).length
    let account := playFrom after rest
    { account with records := ⟨after.notes.trace.reverse, log⟩ :: account.records }

/-- Plays a whole script, from two empty connections on. -/
def play (scenes : List Scene) : Account :=
  playFrom { notes := {}, lines := fun _ => { endpoint := {} } } scenes

/-- Commands go over a line one at a time, so no more than one is ever under way. -/
def Account.mostInFlight (a : Account) : Nat :=
  min 1 a.log.length

def Account.transactions (a : Account) : Nat :=
  a.log.countP fun | .begin _ => true | _ => false

end Polystore.Transaction.Script
