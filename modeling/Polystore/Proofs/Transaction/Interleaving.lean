import Mathlib.Logic.Relation
import Polystore.Transaction.Task

/-!
Interleavings. Tasks side by side, and the jobs that perform their commands, go on one step at a
time and in any order. Work that may be given up can be given up before each of its steps.
-/

namespace Polystore.Transaction

variable {σ κ : Type}

/-- One step of a task. The sessions are those that are held around it. -/
inductive Task.Moves : {α : Type} → Sessions → Task σ α → World σ κ → Task σ α → World σ κ → Prop where
  | note {α : Type} {sessions : Sessions} {w : World σ κ} {change : σ → σ} {next : σ → Task σ α} :
      Moves sessions (.noting change next) w (next w.notes) { w with notes := change w.notes }
  | mark {α : Type} {sessions : Sessions} {w : World σ κ} {line : Nat} {isOpen : Bool}
      {next : Task σ α} :
      Moves sessions (.marking line isOpen next) w next (w.onLine line (.mark isOpen))
  | askLane {α : Type} {sessions : Sessions} {w : World σ κ} {line : Nat} {command : Command}
      {next : Reply → Task σ α} :
      Moves sessions (.sending line .fresh command next) w
        (.sending line (.queued ((w.lines line).nextSeat (sessions line))) command next)
        (w.onLine line (.askLane (sessions line)))
  | dispatch {α : Type} {sessions : Sessions} {w : World σ κ} {line : Nat} {seat : Seat}
      {command : Command} {next : Reply → Task σ α} (hnext : (w.lines line).lane.isNext seat) :
      Moves sessions (.sending line (.queued seat) command next) w
        (.sending line (.granted seat) command next) (w.onLine line (.dispatch seat command))
  | collect {α : Type} {sessions : Sessions} {w : World σ κ} {line : Nat} {seat : Seat}
      {command : Command} {next : Reply → Task σ α} {entry : Entry}
      (hentry : entry ∈ (w.lines line).history) (hseat : entry.seat = seat) :
      Moves sessions (.sending line (.granted seat) command next) w (next entry.reply) w
  | askSession {α β : Type} {sessions : Sessions} {w : World σ κ} {line : Nat} {work : Task σ β}
      {next : β → Task σ α} :
      Moves sessions (.holding line .fresh work next) w
        (.holding line (.queued (w.lines line).issued) work next) (w.onLine line .askSession)
  | grantSession {α β : Type} {sessions : Sessions} {w : World σ κ} {line ticket : Nat}
      {work : Task σ β} {next : β → Task σ α} (hnext : (w.lines line).session.isNext ticket) :
      Moves sessions (.holding line (.queued ticket) work next) w
        (.holding line (.granted ticket) work next) (w.onLine line (.grantSession ticket))
  | inside {α β : Type} {sessions : Sessions} {w w' : World σ κ} {line ticket : Nat}
      {work work' : Task σ β} {next : β → Task σ α}
      (h : Moves (sessions.enter line ticket) work w work' w') :
      Moves sessions (.holding line (.granted ticket) work next) w
        (.holding line (.granted ticket) work' next) w'
  | leaveSession {α β : Type} {sessions : Sessions} {w : World σ κ} {line ticket : Nat} {b : β}
      {next : β → Task σ α} :
      Moves sessions (.holding line (.granted ticket) (.done b) next) w (next b)
        (w.onLine line (.leaveSession ticket))
  | left {α β γ : Type} {sessions : Sessions} {w w' : World σ κ} {t t' : Task σ β} {right : Task σ γ}
      {next : β → γ → Task σ α} (h : Moves sessions t w t' w') :
      Moves sessions (.both t right next) w (.both t' right next) w'
  | right {α β γ : Type} {sessions : Sessions} {w w' : World σ κ} {left : Task σ β} {t t' : Task σ γ}
      {next : β → γ → Task σ α} (h : Moves sessions t w t' w') :
      Moves sessions (.both left t next) w (.both left t' next) w'
  | join {α β γ : Type} {sessions : Sessions} {w : World σ κ} {b : β} {c : γ}
      {next : β → γ → Task σ α} :
      Moves sessions (.both (.done b) (.done c) next) w (next b c) w
  | within {α β : Type} {sessions : Sessions} {w w' : World σ κ} {work work' : Task σ β}
      {next : Option β → Task σ α} (h : Moves sessions work w work' w') :
      Moves sessions (.limited work next) w (.limited work' next) w'
  | finish {α β : Type} {sessions : Sessions} {w : World σ κ} {b : β} {next : Option β → Task σ α} :
      Moves sessions (.limited (.done b) next) w (next (some b)) w
  | giveUp {α β : Type} {sessions : Sessions} {w : World σ κ} {work : Task σ β}
      {next : Option β → Task σ α} :
      Moves sessions (.limited work next) w (next none) (work.drop w)

variable [Endpoint κ]

/-- One step of a job on a line: a rollback joins the queue for the lane and is let in, and any
command under way is performed. The lane is free after that, and so is a session that has been kept
for the rollback. -/
inductive Line.Works : Line κ → Line κ → Prop where
  | askLane {l : Line κ} (before after : List Job) {job : Job}
      (hjobs : l.jobs = before ++ job :: after) (hundo : job.isUndo) (hstage : job.stage = .fresh) :
      Works l { l.askLane job.session with
        jobs := before ++ { job with stage := .queued (l.nextSeat job.session) } :: after }
  | grantLane {l : Line κ} (before after : List Job) {job : Job} {seat : Seat}
      (hjobs : l.jobs = before ++ job :: after) (hundo : job.isUndo) (hstage : job.stage = .queued seat)
      (hnext : l.lane.isNext seat) :
      Works l { l with
        lane := l.lane.grant seat
        jobs := before ++ { job with stage := .granted seat } :: after }
  | perform {l : Line κ} (before after : List Job) {job : Job} {seat : Seat}
      (hjobs : l.jobs = before ++ job :: after) (hstage : job.stage = .granted seat) :
      Works l { (l.perform seat job.command).2 with
        session := if job.isUndo then l.session.release else l.session
        lane := l.lane.release
        jobs := before ++ after }

/-- One step of the whole: of the task, or of a job on one of the lines. -/
inductive Steps {α : Type} (sessions : Sessions) : Task σ α × World σ κ → Task σ α × World σ κ → Prop where
  | task {t t' : Task σ α} {w w' : World σ κ} (h : t.Moves sessions w t' w') :
      Steps sessions (t, w) (t', w')
  | job {t : Task σ α} {w : World σ κ} {line : Nat} {l : Line κ} (h : (w.lines line).Works l) :
      Steps sessions (t, w) (t, w.onLine line fun _ => l)

/-- Any number of steps. -/
abbrev Reaches {α : Type} (sessions : Sessions) :
    Task σ α × World σ κ → Task σ α × World σ κ → Prop :=
  Relation.ReflTransGen (Steps sessions)

end Polystore.Transaction
