import Polystore.Transaction.Line

/-!
What callers do, and how several of them share the connections.

A task is a program: it asks for one thing after another and goes on with the answer. It also
knows how far it has come, so that it can be stopped anywhere and gives up what it holds. Tasks that
run side by side take turns: in one turn each of them has one command performed, in the order of the
tasks, and goes on up to its next command.
-/

namespace Polystore.Transaction

/-- What a caller with notes of type `σ` does. Lines are numbered. -/
inductive Task (σ : Type) : Type → Type 1 where
  | done {α : Type} (a : α) : Task σ α
  /-- Waits for something that never comes. -/
  | pending {α : Type} : Task σ α
  /-- Changes the caller's notes, and goes on with what they were. -/
  | noting {α : Type} (change : σ → σ) (next : σ → Task σ α) : Task σ α
  /-- Notes whether a transaction is under way that has to be rolled back if its caller goes away. -/
  | marking {α : Type} (line : Nat) (isOpen : Bool) (next : Task σ α) : Task σ α
  /-- Has a command performed. -/
  | sending {α : Type} (line : Nat) (stage : Stage Seat) (command : Command)
      (next : Reply → Task σ α) : Task σ α
  /-- Holds the session of a line while it works. -/
  | holding {α β : Type} (line : Nat) (stage : Stage Nat) (work : Task σ β)
      (next : β → Task σ α) : Task σ α
  /-- Two tasks side by side; what follows has to wait for both. -/
  | both {α β γ : Type} (left : Task σ β) (right : Task σ γ) (next : β → γ → Task σ α) : Task σ α
  /-- Work that may be given up at any time before it has ended. -/
  | limited {α β : Type} (work : Task σ β) (next : Option β → Task σ α) : Task σ α

namespace Task

variable {σ α β : Type}

protected def bind : {α : Type} → Task σ α → (α → Task σ β) → Task σ β
  | _, .done a, f => f a
  | _, .pending, _ => .pending
  | _, .noting change next, f => .noting change fun notes => (next notes).bind f
  | _, .marking line isOpen next, f => .marking line isOpen (next.bind f)
  | _, .sending line stage command next, f =>
    .sending line stage command fun reply => (next reply).bind f
  | _, .holding line stage work next, f => .holding line stage work fun b => (next b).bind f
  | _, .both left right next, f => .both left right fun b c => (next b c).bind f
  | _, .limited work next, f => .limited work fun b => (next b).bind f

instance : Monad (Task σ) where
  pure := .done
  bind := Task.bind

def update (change : σ → σ) : Task σ σ :=
  .noting change .done

def mark (line : Nat) (isOpen : Bool) : Task σ Unit :=
  .marking line isOpen (.done ())

def send (line : Nat) (command : Command) : Task σ Reply :=
  .sending line .fresh command .done

def hold (line : Nat) (work : Task σ α) : Task σ α :=
  .holding line .fresh work .done

/-- A task that may be given up: it has no result then. -/
def limit (work : Task σ α) : Task σ (Option α) :=
  .limited work .done

/-- Several tasks side by side, with their results in order. -/
def all : List (Task σ α) → Task σ (List α)
  | [] => .done []
  | t :: rest => .both t (all rest) fun a as => .done (a :: as)

/-- What the task has come to, if it has ended. -/
def result? : {α : Type} → Task σ α → Option α
  | _, .done a => some a
  | _, _ => none

end Task

/-- The connections, and what the callers have noted. -/
structure World (σ κ : Type) where
  notes : σ
  lines : Nat → Line κ

namespace World

variable {σ κ : Type}

def onLine (w : World σ κ) (line : Nat) (f : Line κ → Line κ) : World σ κ :=
  let changed := f (w.lines line)
  { w with lines := fun n => if n = line then changed else w.lines n }

@[simp]
theorem onLine_lines (w : World σ κ) (line n : Nat) (f : Line κ → Line κ) :
    (w.onLine line f).lines n = if n = line then f (w.lines n) else w.lines n := by
  simp only [onLine]
  split
  · next h => rw [h]
  · rfl

@[simp]
theorem onLine_onLine (w : World σ κ) (line : Nat) (f g : Line κ → Line κ) :
    (w.onLine line f).onLine line g = w.onLine line fun l => g (f l) := by
  simp only [onLine, if_true]
  congr
  funext n
  split <;> rfl

theorem onLine_self (w : World σ κ) (line : Nat) : (w.onLine line fun _ => w.lines line) = w := by
  simp only [onLine]
  congr
  funext n
  split
  · next h => rw [h]
  · rfl

def onEndpoint (w : World σ κ) (line : Nat) (f : κ → κ) : World σ κ :=
  w.onLine line fun l => { l with endpoint := f l.endpoint }

end World

/-- The sessions, by line, on whose behalf a task sends its commands. -/
abbrev Sessions := Nat → Nat

def Sessions.enter (sessions : Sessions) (line ticket : Nat) : Sessions :=
  fun n => if n = line then ticket else sessions n

namespace Task

variable {σ κ : Type}

/-- What becomes of a line when a task goes away. From the inside out, it gives up its places in
queues and what it holds. -/
def quit (line : Nat) : {α : Type} → Task σ α → Line κ → Line κ
  | _, .sending n stage _ _, l => if line = n then l.quitLane stage else l
  | _, .holding n stage work _, l =>
    if line = n then (quit line work l).quitSession stage else quit line work l
  | _, .both left right _, l => quit line right (quit line left l)
  | _, .limited work _, l => quit line work l
  | _, _, l => l

def drop {α : Type} (t : Task σ α) (w : World σ κ) : World σ κ :=
  { w with lines := fun line => t.quit line (w.lines line) }

variable [Endpoint κ]

def settle : {α : Type} → Sessions → Task σ α → World σ κ → Task σ α × World σ κ
  | _, sessions, .noting change next, w =>
    settle sessions (next w.notes) { w with notes := change w.notes }
  | _, sessions, .marking line isOpen next, w => settle sessions next (w.onLine line (.mark isOpen))
  | _, sessions, .holding line stage work next, w =>
    let (stage, l) := (w.lines line).approach stage
    let w := w.onLine line fun _ => l
    match stage with
    | .granted ticket =>
      match settle (sessions.enter line ticket) work w with
      | (.done b, w) => settle sessions (next b) (w.onLine line (.leaveSession ticket))
      | (work, w) => (.holding line stage work next, w)
    | stage => (.holding line stage work next, w)
  | _, sessions, .both left right next, w =>
    let (left, w) := settle sessions left w
    let (right, w) := settle sessions right w
    match left, right with
    | .done b, .done c => settle sessions (next b c) w
    | left, right => (.both left right next, w)
  | _, sessions, .limited work next, w =>
    match settle sessions work w with
    | (.done b, w) => settle sessions (next (some b)) w
    | (work, w) => (.limited work next, w)
  | _, _, t, w => (t, w)

/-- One turn: each of the tasks side by side has one command performed. -/
def turn : {α : Type} → Sessions → Task σ α → World σ κ → Task σ α × World σ κ
  | _, sessions, .sending line .fresh command next, w =>
    let (reply, l) := (w.lines line).roundTrip (sessions line) command
    settle sessions (next reply) (w.onLine line fun _ => l)
  | _, sessions, .holding line (.granted ticket) work next, w =>
    match turn (sessions.enter line ticket) work w with
    | (.done b, w) => settle sessions (next b) (w.onLine line (.leaveSession ticket))
    | (work, w) => (.holding line (.granted ticket) work next, w)
  | _, sessions, .both left right next, w =>
    let (left, w) := turn sessions left w
    let (right, w) := turn sessions right w
    match left, right with
    | .done b, .done c => settle sessions (next b c) w
    | left, right => (.both left right next, w)
  | _, sessions, .limited work next, w =>
    match turn sessions work w with
    | (.done b, w) => settle sessions (next (some b)) w
    | (work, w) => (.limited work next, w)
  | _, sessions, t, w => settle sessions t w

/-- Is there anything left to do that need not wait? -/
def canMove : {α : Type} → Task σ α → World σ κ → Bool
  | _, .sending _ .fresh _ _, _ => true
  | _, .holding _ (.granted _) work _, w => canMove work w
  | _, .holding line (.queued ticket) _ _, w => (w.lines line).session.isNext ticket
  | _, .both left right _, w => canMove left w || canMove right w
  | _, .limited work _, w => canMove work w
  | _, _, _ => false

/-- Turn after turn, until the task has ended or can only wait, or so many turns are over. -/
def run {α : Type} (sessions : Sessions) : Nat → Task σ α → World σ κ → Task σ α × World σ κ
  | 0, t, w => (t, w)
  | turns + 1, t, w =>
    if t.canMove w then
      let (t, w) := t.turn sessions w
      run sessions turns t w
    else (t, w)

def start {α : Type} (turns : Nat) (t : Task σ α) (w : World σ κ) : Task σ α × World σ κ :=
  let (t, w) := t.settle (fun _ => 0) w
  t.run (fun _ => 0) turns w

end Task

end Polystore.Transaction
