import Polystore.Transaction.Command

/-!
How rows reach a caller while the connection is still at work. The job on the lane puts every row
into a channel without bound, and the caller takes rows out and hands them to its consumer. The two
go on side by side, and either may be the first to stop.
-/

namespace Polystore.Transaction

/-- What a connection does that streams: it hands on a row, and goes on in one way if the row was
taken and in another if nobody listens any more. At last it gives its report. -/
inductive Producer where
  | ended (report : Except Error Summary)
  | handing (row : Row) (taken refused : Producer)

namespace Producer

variable {τ : Type}

/-- All the rows that are handed on to somebody who takes them all. -/
def rows : Producer → List Row
  | .ended _ => []
  | .handing row taken _ => row :: taken.rows

/-- The report that comes after all the rows. -/
def report : Producer → Except Error Summary
  | .ended report => report
  | .handing _ taken _ => taken.report

/-- The rows one by one, without a channel: what the consumer has seen, and how it ended. -/
def deliver (consume : τ → Row → Except Error τ) : Producer → τ → τ × Except Error Summary
  | .ended report, seen => (seen, report)
  | .handing row taken _, seen =>
    match consume seen row with
    | .error e => (seen, .error e)
    | .ok seen => taken.deliver consume seen

/-- How many rows may still be handed on, whether they are taken or not, and the report. -/
def size : Producer → Nat
  | .ended _ => 1
  | .handing _ taken refused => taken.size + refused.size + 1

end Producer

namespace Reply

/-- What a connection is told whose rows nobody takes any more. -/
def consumerStopped : Error :=
  .server (.ofConnection "executor" "row consumer stopped")

def producerFrom (outcome : Except Error (Option UInt64)) :
    Summary → List (Except Error Row) → Producer
  | summary, [] => .ended (outcome.map fun affected => { summary with affectedRows := affected })
  | _, .error e :: _ => .ended (.error e)
  | summary, .ok row :: rest =>
    let columns := if summary.rowCount = 0 then row.columns else summary.columns
    .handing row
      (producerFrom outcome { summary with columns, rowCount := summary.rowCount + 1 } rest)
      (.ended (.error consumerStopped))

/-- A reply that is streamed. The first row that is refused ends it. -/
def producer (r : Reply) : Producer :=
  producerFrom r.outcome {} r.rows

end Reply

/-- A stream under way: the job, the channel and the caller. -/
structure Relay (τ : Type) where
  /-- What the connection still does. -/
  connection : Producer
  /-- Does the job have the lane? -/
  hasLane : Bool := true
  /-- May the job still put rows into the channel? -/
  isSending : Bool := true
  channel : List Row := []
  /-- May the caller still take rows out of the channel? -/
  isListening : Bool := true
  /-- What the consumer has gathered. -/
  seen : τ
  /-- The rows that the consumer was called on, in the order of the calls. -/
  taken : List Row := []
  /-- How the consumer failed. -/
  refusal : Option Error := none
  result : Option (τ × Except Error Summary) := none

namespace Relay

variable {τ : Type}

/-- The caller has the lane, and the job is about to start. -/
def begun (connection : Producer) (start : τ) : Relay τ :=
  { connection, seen := start }

/-- One step of the job or of the caller. The job frees the lane when the connection has finished,
and lets go of the channel after that. The caller listens until its consumer fails, or until the
channel is empty and stays so; then it waits for the job. -/
inductive Step (consume : τ → Row → Except Error τ) : Relay τ → Relay τ → Prop where
  | hand {s : Relay τ} {row : Row} {taken refused : Producer}
      (hrow : s.connection = .handing row taken refused) (hlistening : s.isListening) :
      Step consume s { s with connection := taken, channel := s.channel ++ [row] }
  | refuse {s : Relay τ} {row : Row} {taken refused : Producer}
      (hrow : s.connection = .handing row taken refused) (hgone : s.isListening = false) :
      Step consume s { s with connection := refused }
  | freeLane {s : Relay τ} {report : Except Error Summary}
      (hended : s.connection = .ended report) (hlane : s.hasLane) :
      Step consume s { s with hasLane := false }
  | hangUp {s : Relay τ} (hlane : s.hasLane = false) (hsending : s.isSending) :
      Step consume s { s with isSending := false }
  | take {s : Relay τ} {row : Row} {rest : List Row} {seen : τ}
      (hlistening : s.isListening) (hrefusal : s.refusal = none) (hchannel : s.channel = row :: rest)
      (hrow : consume s.seen row = .ok seen) :
      Step consume s { s with channel := rest, seen, taken := s.taken ++ [row] }
  | fail {s : Relay τ} {row : Row} {rest : List Row} {e : Error}
      (hlistening : s.isListening) (hrefusal : s.refusal = none) (hchannel : s.channel = row :: rest)
      (hrow : consume s.seen row = .error e) :
      Step consume s { s with channel := rest, taken := s.taken ++ [row], refusal := some e }
  | leave {s : Relay τ} (hlistening : s.isListening)
      (hover : s.refusal.isSome ∨ s.channel = [] ∧ s.isSending = false) :
      Step consume s { s with channel := [], isListening := false }
  | join {s : Relay τ} {report : Except Error Summary} (hgone : s.isListening = false)
      (hsending : s.isSending = false) (hended : s.connection = .ended report)
      (hresult : s.result = none) :
      Step consume s { s with
        result := some (s.seen, match s.refusal with
          | some e => .error e
          | none => report) }

end Relay

end Polystore.Transaction
