import Polystore.Transaction.Command

/-!
What stands between callers and a connection. A line has two locks: the session, which a caller
holds for a whole statement or a whole transaction, and the lane, which is held for one command.
A command is performed by a job of its own, which goes on also if its caller goes away. The history
of a line keeps every command with its reply and with the session on whose behalf it was sent.
-/

namespace Polystore.Transaction

/-- A lock that is handed on in the order in which it was asked for. -/
structure Lock (τ : Type) where
  owner : Option τ := none
  waiting : List τ := []

namespace Lock

variable {τ : Type}

def ask (t : τ) (l : Lock τ) : Lock τ :=
  { l with waiting := l.waiting ++ [t] }

def isNext [DecidableEq τ] (t : τ) (l : Lock τ) : Bool :=
  l.owner.isNone && l.waiting.head? == some t

theorem isNext_iff [DecidableEq τ] {t : τ} {l : Lock τ} :
    l.isNext t ↔ l.owner = none ∧ ∃ rest, l.waiting = t :: rest := by
  cases hw : l.waiting with
  | nil => simp [isNext, hw]
  | cons u rest => simp [isNext, hw]

def grant (t : τ) (l : Lock τ) : Lock τ :=
  { owner := some t, waiting := l.waiting.tail }

def withdraw [DecidableEq τ] (t : τ) (l : Lock τ) : Lock τ :=
  { l with waiting := l.waiting.erase t }

def release (l : Lock τ) : Lock τ :=
  { l with owner := none }

end Lock

/-- How far somebody has come who needs a lock. -/
inductive Stage (τ : Type) where
  | fresh
  | queued (ticket : τ)
  | granted (ticket : τ)
deriving DecidableEq

/-- A place on the lane, taken on behalf of a session. -/
structure Seat where
  session : Nat
  number : Nat
deriving DecidableEq

/-- A command on its own way to the connection. -/
structure Job where
  session : Nat
  command : Command
  stage : Stage Seat
  /-- The rollback after a caller that has gone away keeps the session until it is over. -/
  isUndo : Bool

/-- A command that has been performed. -/
structure Entry where
  seat : Seat
  command : Command
  reply : Reply

/-- A connection with its two locks. -/
structure Line (κ : Type) where
  endpoint : κ
  session : Lock Nat := {}
  lane : Lock Seat := {}
  /-- How many tickets and seats have been given out. -/
  issued : Nat := 0
  /-- Has the holder of the session a transaction in progress? -/
  isOpen : Bool := false
  jobs : List Job := []
  /-- What has been performed, the earliest first. -/
  history : List Entry := []

namespace Line

variable {κ : Type}

def askSession (l : Line κ) : Line κ :=
  { l with session := l.session.ask l.issued, issued := l.issued + 1 }

def grantSession (ticket : Nat) (l : Line κ) : Line κ :=
  { l with session := l.session.grant ticket }

/-- The holder of the session goes. A transaction in progress is left to a job that rolls it back,
and that has the session until then. -/
def leaveSession (ticket : Nat) (l : Line κ) : Line κ :=
  if l.isOpen then
    { l with isOpen := false, jobs := l.jobs ++ [⟨ticket, .rollback, .fresh, true⟩] }
  else { l with session := l.session.release }

/-- Whoever goes away gives up a place in the queue, or the session. -/
def quitSession (stage : Stage Nat) (l : Line κ) : Line κ :=
  match stage with
  | .fresh => l
  | .queued ticket => { l with session := l.session.withdraw ticket }
  | .granted ticket => l.leaveSession ticket

def mark (isOpen : Bool) (l : Line κ) : Line κ :=
  { l with isOpen }

def nextSeat (session : Nat) (l : Line κ) : Seat :=
  ⟨session, l.issued⟩

def askLane (session : Nat) (l : Line κ) : Line κ :=
  { l with lane := l.lane.ask (l.nextSeat session), issued := l.issued + 1 }

/-- Sends a command on its way. The lane is its own until it has been performed. -/
def dispatch (seat : Seat) (command : Command) (l : Line κ) : Line κ :=
  { l with
    lane := l.lane.grant seat
    jobs := l.jobs ++ [⟨seat.session, command, .granted seat, false⟩] }

/-- Whoever goes away gives up a place in the queue. A command on its way goes on. -/
def quitLane (stage : Stage Seat) (l : Line κ) : Line κ :=
  match stage with
  | .queued seat => { l with lane := l.lane.withdraw seat }
  | _ => l

def perform [Endpoint κ] (seat : Seat) (command : Command) (l : Line κ) : Reply × Line κ :=
  let (reply, endpoint) := Endpoint.perform command l.endpoint
  (reply, { l with endpoint, history := l.history ++ [⟨seat, command, reply⟩] })

/-- A command from its sending to its reply, when nobody else is on the lane. -/
def roundTrip [Endpoint κ] (session : Nat) (command : Command) (l : Line κ) : Reply × Line κ :=
  { l with issued := l.issued + 1 }.perform (l.nextSeat session) command

/-- Lets a caller come as far as it can: into the queue, and to the session if it is free. -/
def approach (stage : Stage Nat) (l : Line κ) : Stage Nat × Line κ :=
  match stage with
  | .fresh =>
    let asked := l.askSession
    if asked.session.isNext l.issued then (.granted l.issued, asked.grantSession l.issued)
    else (.queued l.issued, asked)
  | .queued ticket =>
    if l.session.isNext ticket then (.granted ticket, l.grantSession ticket) else (stage, l)
  | .granted _ => (stage, l)

/-- Rolls back what a caller has left behind, and frees the session. -/
def undo [Endpoint κ] (l : Line κ) (session : Nat) : Line κ :=
  let l := (l.roundTrip session .rollback).2
  { l with session := l.session.release }

/-- Does what callers who have gone away have left to do, when nobody else is on the lane. -/
def cleanUp [Endpoint κ] (l : Line κ) : Line κ :=
  (l.jobs.map Job.session).foldl undo { l with jobs := [] }

end Line

end Polystore.Transaction
