import Mathlib.Logic.Function.Basic
import Polystore.Proofs.Transaction.Stalling
import Polystore.Transaction.Executor

/-!
Transactions without locks. A course of events is plain: every command is performed when it is sent,
and all that is known of the lines besides their connections is whether a transaction is open there.
Main statement: a caller who is alone and holds the sessions of the open transactions, and no others,
follows such a course.
-/

namespace Polystore.Transaction

variable {σ κ α β τ : Type}

/-- A world without locks. -/
@[ext]
structure Situation (σ κ : Type) where
  notes : σ
  endpoint : Nat → κ
  /-- The commands that each connection has been sent. -/
  sent : Nat → List Command
  /-- Is a transaction open on the line? -/
  isOpen : Nat → Bool

/-- What happens when nothing has to wait. There is no result when patience has run out. -/
abbrev Course (σ κ : Type) :=
  OptionT (StateM (Situation σ κ))

namespace Course

def update (change : σ → σ) : Course σ κ σ :=
  modifyGet fun s => (s.notes, { s with notes := change s.notes })

def mark (line : Nat) (isOpen : Bool) : Course σ κ Unit :=
  modify fun s => { s with isOpen := Function.update s.isOpen line isOpen }

def perform [Endpoint κ] (line : Nat) (command : Command) : Course σ κ Reply :=
  modifyGet fun s =>
    let (reply, endpoint) := Endpoint.perform command (s.endpoint line)
    (reply, { s with
      endpoint := Function.update s.endpoint line endpoint
      sent := Function.update s.sent line (s.sent line ++ [command]) })

/-- A call from outside of the transactions on its line: it is refused at once if there is one. -/
def enter (line : Nat) (work : Course σ κ (Except Error α)) : Course σ κ (Except Error α) := do
  if (← get).isOpen line then pure (.error .transactionDeadlock) else work

variable [Endpoint κ]

def execute (line : Nat) (sql : String) (params : List Value) :
    Course σ κ (Except Error (List Row)) := do
  pure (← perform line (.execute sql params)).all

def rows (line : Nat) (sql : String) (params : List Value) (consume : τ → Row → Except Error τ)
    (start : τ) : Course σ κ (τ × Except Error Summary) := do
  pure ((← perform line (.execute sql params)).deliver consume start)

def stream (line : Nat) (sql : String) (params : List Value) (consume : τ → Row → Except Error τ)
    (start : τ) : Course σ κ (τ × Except Error Summary) := do
  let result ← enter line do
    pure (.ok ((← perform line (.execute sql params)).deliver consume start))
  pure (match result with
    | .ok delivered => delivered
    | .error refused => (start, .error refused))

def commit (line : Nat) : Except Error α → Course σ κ (Except Error α)
  | .error failure => pure (.error failure)
  | .ok value => do pure ((← perform line .commit).outcome.map fun _ => value)

/-- A transaction from its start to its end, then another one if the retry policy allows for it. -/
def attempts (line : Nat) (options : Options) (body : Course σ κ (Except Error α)) :
    (patience made : Nat) → Course σ κ (Except Error α)
  | 0, _ => failure
  | patience + 1, made => do
    mark line true
    match (← perform line (.begin options.isolation)).outcome with
    | .error refused =>
      mark line false
      pure (.error refused)
    | .ok _ =>
      match ← commit line (← body) with
      | .ok value =>
        mark line false
        pure (.ok value)
      | .error failure =>
        let undo := (← perform line .rollback).outcome
        mark line false
        if undo.isOk && failure.isConflict && options.retry.allows (made + 1) then
          attempts line options body patience (made + 1)
        else pure (.error (undone undo failure))

def nested (line depth : Nat) (body : Course σ κ (Except Error α)) :
    Course σ κ (Except Error α) := do
  let name := Frame.savepoint (depth + 1)
  match (← perform line (.savepoint name)).outcome with
  | .error refused => pure (.error refused)
  | .ok _ =>
    match ← body with
    | .ok value => pure ((← perform line (.release name)).outcome.map fun _ => value)
    | .error failure => pure (.error (undone (← perform line (.rollbackTo name)).outcome failure))

omit [Endpoint κ]

variable {c : Course σ κ α} {s s' : Situation σ κ}

theorem bind_some {a : α} (h : c s = (some a, s')) (f : α → Course σ κ β) :
    (c >>= f) s = f a s' := by
  simp only [Bind.bind, OptionT.bind, OptionT.mk, StateT.bind, h]

theorem bind_none (h : c s = (none, s')) (f : α → Course σ κ β) : (c >>= f) s = (none, s') := by
  simp only [Bind.bind, OptionT.bind, OptionT.mk, StateT.bind, h]
  rfl

end Course

/-- Nobody waits for the session. -/
structure Line.Stands (isHeld isOpen : Bool) (l : Line κ) : Prop where
  waiting : l.session.waiting = []
  owner : l.session.owner.isSome = isHeld
  isOpen : l.isOpen = isOpen

namespace Line.Stands

variable {isHeld isOpen : Bool} {l : Line κ}

theorem free (h : l.Stands false isOpen) : l.session = {} := by
  have howner := h.owner
  have hwaiting := h.waiting
  rw [Option.isSome_eq_false_iff, Option.isNone_iff_eq_none] at howner
  generalize l.session = session at howner hwaiting
  cases session
  cases howner
  cases hwaiting
  rfl

theorem grant (h : l.Stands false isOpen) (ticket : Nat) :
    (l.askSession.grantSession ticket).Stands true isOpen where
  waiting := by
    change ((l.session.ask l.issued).grant ticket).waiting = []
    rw [h.free]
    rfl
  owner := rfl
  isOpen := h.isOpen

theorem leave (h : l.Stands isHeld false) (ticket : Nat) :
    l.leaveSession ticket = { l with session := l.session.release } := by
  rw [leaveSession, h.isOpen, if_neg Bool.false_ne_true]

end Line.Stands

namespace World

/-- What remains of a world without its locks. -/
def situation (w : World σ κ) : Situation σ κ where
  notes := w.notes
  endpoint n := (w.lines n).endpoint
  sent n := (w.lines n).history.map Entry.command
  isOpen n := (w.lines n).isOpen

/-- The caller is alone. It holds these sessions, and transactions are open on these lines. -/
def Stands (isHeld isOpen : Nat → Bool) (w : World σ κ) : Prop :=
  ∀ n, (w.lines n).Stands (isHeld n) (isOpen n)

theorem onLine_situation (w : World σ κ) (line : Nat) (f : Line κ → Line κ) :
    (w.onLine line f).situation = { w.situation with
      endpoint := Function.update w.situation.endpoint line (f (w.lines line)).endpoint
      sent := Function.update w.situation.sent line ((f (w.lines line)).history.map Entry.command)
      isOpen := Function.update w.situation.isOpen line (f (w.lines line)).isOpen } := by
  have hlines : (w.onLine line f).lines = Function.update w.lines line (f (w.lines line)) := by
    funext n
    rw [onLine_lines, Function.update_apply]
    split
    · next h => rw [h]
    · rfl
  have hfield : ∀ {τ : Type} (field : Line κ → τ),
      (fun n => field ((w.onLine line f).lines n)) =
        Function.update (fun n => field (w.lines n)) line (field (f (w.lines line))) := by
    intro τ field
    rw [hlines]
    exact Function.comp_update field w.lines line _
  exact Situation.ext rfl (hfield Line.endpoint) (hfield fun l => l.history.map Entry.command)
    (hfield Line.isOpen)

/-- Only the locks of a line are changed. -/
theorem onLine_situation_eq {w : World σ κ} {line : Nat} {f : Line κ → Line κ}
    (hendpoint : (f (w.lines line)).endpoint = (w.lines line).endpoint)
    (hhistory : (f (w.lines line)).history = (w.lines line).history)
    (hopen : (f (w.lines line)).isOpen = (w.lines line).isOpen) :
    (w.onLine line f).situation = w.situation := by
  rw [onLine_situation, hendpoint, hhistory, hopen]
  exact Situation.ext rfl (Function.update_eq_self line _) (Function.update_eq_self line _)
    (Function.update_eq_self line _)

theorem mark_situation (w : World σ κ) (line : Nat) (isOpen : Bool) :
    (w.onLine line (.mark isOpen)).situation = (Course.mark line isOpen w.situation).2 := by
  rw [onLine_situation]
  exact Situation.ext rfl (Function.update_eq_self line _) (Function.update_eq_self line _) rfl

theorem sent_situation [Endpoint κ] (w : World σ κ) (line session : Nat) (command : Command) :
    (w.sent line session command).situation = (Course.perform line command w.situation).2 := by
  rw [sent, onLine_situation]
  exact Situation.ext rfl rfl (congrArg (Function.update _ line) List.map_append)
    (Function.update_eq_self line _)

namespace Stands

variable {isHeld isOpen : Nat → Bool} {w : World σ κ}

/-- One line is changed, and the others stand as before. -/
theorem onLine (h : w.Stands isHeld isOpen) {line : Nat} {f : Line κ → Line κ} {held opened : Bool}
    (hline : (f (w.lines line)).Stands held opened) :
    (w.onLine line f).Stands (Function.update isHeld line held)
      (Function.update isOpen line opened) := by
  intro n
  rw [onLine_lines, Function.update_apply, Function.update_apply]
  split
  · next heq => rwa [heq]
  · exact h n

theorem mark (h : w.Stands isHeld isOpen) (line : Nat) (b : Bool) :
    (w.onLine line (.mark b)).Stands isHeld (Function.update isOpen line b) := by
  have hline : ((w.lines line).mark b).Stands (isHeld line) b := { h line with isOpen := rfl }
  simpa using h.onLine hline

theorem sent [Endpoint κ] (h : w.Stands isHeld isOpen) (line session : Nat) (command : Command) :
    (w.sent line session command).Stands isHeld isOpen := by
  have hline : ((w.lines line).roundTrip session command).2.Stands (isHeld line) (isOpen line) :=
    { h line with }
  have hsent := h.onLine (f := fun l => (l.roundTrip session command).2) hline
  rwa [Function.update_eq_self, Function.update_eq_self] at hsent

/-- The session of a line is taken. -/
theorem grant (h : w.Stands isHeld isOpen) {line : Nat} (hfree : isHeld line = false)
    (ticket : Nat) :
    (w.onLine line fun _ => (w.lines line).askSession.grantSession ticket).Stands
      (Function.update isHeld line true) isOpen := by
  have hline := h line
  rw [hfree] at hline
  intro n
  rw [onLine_lines, Function.update_apply]
  split
  · next heq =>
    rw [heq]
    exact hline.grant ticket
  · exact h n

/-- The session of a line is given back, when no transaction is open there. -/
theorem leave {line : Nat} (h : w.Stands (Function.update isHeld line true) isOpen)
    (hfree : isHeld line = false) (hclosed : isOpen line = false) (ticket : Nat) :
    (w.onLine line (.leaveSession ticket)).Stands isHeld isOpen ∧
      (w.onLine line (.leaveSession ticket)).situation = w.situation := by
  have hline := h line
  rw [hclosed] at hline
  have hleave := hline.leave ticket
  constructor
  · have hleft : ((w.lines line).leaveSession ticket).Stands false false := by
      rw [hleave]
      exact ⟨hline.waiting, rfl, hline.isOpen⟩
    have hstands := h.onLine hleft
    rwa [Function.update_idem, ← hfree, Function.update_eq_self, hfree, ← hclosed,
      Function.update_eq_self] at hstands
  · exact onLine_situation_eq (by rw [hleave]) (by rw [hleave]) (by rw [hleave])

end Stands

end World

theorem contains_held (line : Nat) (held : List Nat) :
    (line :: held).contains = Function.update held.contains line true := by
  funext n
  rw [List.contains_cons, Function.update_apply]
  split
  · next heq => rw [heq, beq_self_eq_true, Bool.true_or]
  · next hne => rw [beq_false_of_ne hne, Bool.false_or]

/-- From the sessions that are held and the transactions that are open, a task follows a course: it
never has to wait for a session, comes to the same result and makes the same of the world. -/
def Follows [Endpoint κ] (isHeld before after : Nat → Bool) (t : Task σ α)
    (c : Course σ κ α) : Prop :=
  ∀ (sessions : Sessions) (w : World σ κ), w.Stands isHeld before →
    ∃ w', t.Comes sessions w (c w.situation).1 w' ∧ w'.situation = (c w.situation).2 ∧
      ((c w.situation).1.isSome → w'.Stands isHeld after)

namespace Follows

variable [Endpoint κ] {isHeld before between after : Nat → Bool}

theorem pure (a : α) : Follows isHeld before before (Pure.pure a : Task σ α) (Pure.pure a : Course σ κ α) :=
  fun _ w hw => ⟨w, .done, rfl, fun _ => hw⟩

theorem pending : Follows isHeld before after (.pending : Task σ α) (failure : Course σ κ α) :=
  fun _ w _ => ⟨w, .pending, rfl, nofun⟩

theorem bind {t : Task σ α} {c : Course σ κ α} {f : α → Task σ β} {g : α → Course σ κ β}
    (h : Follows isHeld before between t c) (hf : ∀ a, Follows isHeld between after (f a) (g a)) :
    Follows isHeld before after (t >>= f) (c >>= g) := by
  intro sessions w hw
  obtain ⟨v, hcomes, hsituation, hstands⟩ := h sessions w hw
  rcases hc : c w.situation with ⟨_ | a, s⟩
  · rw [hc] at hcomes hsituation
    rw [Course.bind_none hc]
    exact ⟨v, Task.Stalls.bind hcomes f, hsituation, nofun⟩
  · rw [hc] at hcomes hsituation hstands
    obtain rfl : v.situation = s := hsituation
    rw [Course.bind_some hc]
    obtain ⟨w', hcomes', hsituation', hstands'⟩ := hf a sessions v (hstands rfl)
    exact ⟨w', Task.Ends.bind_comes hcomes hcomes', hsituation', hstands'⟩

theorem update (change : σ → σ) :
    Follows isHeld before before (Task.update change : Task σ σ) (Course.update change : Course σ κ σ) :=
  fun _ _ hw => ⟨_, .update change, rfl, fun _ => hw⟩

theorem mark (line : Nat) (isOpen : Bool) :
    Follows isHeld before (Function.update before line isOpen) (Task.mark line isOpen : Task σ Unit)
      (Course.mark line isOpen : Course σ κ Unit) :=
  fun _ w hw => ⟨_, .mark line isOpen, w.mark_situation line isOpen, fun _ => hw.mark line isOpen⟩

theorem perform (line : Nat) (command : Command) :
    Follows isHeld before before (Task.send line command : Task σ Reply)
      (Course.perform line command : Course σ κ Reply) :=
  fun _ w hw => ⟨_, .send line command, w.sent_situation line _ command, fun _ =>
    hw.sent line _ command⟩

/-- What is known of the open transactions is what is open. -/
theorem get {t : Task σ α} {c : (Nat → Bool) → Course σ κ α} (h : Follows isHeld before after t (c before)) :
    Follows isHeld before after t (do c (← MonadState.get).isOpen) := by
  intro sessions w hw
  have hopen : w.situation.isOpen = before := funext fun n => (hw n).isOpen
  have hget : (do c (← MonadState.get).isOpen : Course σ κ α) w.situation = c before w.situation := by
    rw [← hopen]
    rfl
  rw [hget]
  exact h sessions w hw

theorem hold {line : Nat} {work : Task σ α} {c : Course σ κ α} (hfree : isHeld line = false)
    (hclosed : after line = false)
    (h : Follows (Function.update isHeld line true) before after work c) :
    Follows isHeld before after (Task.hold line work) c := by
  intro sessions w hw
  have hline := hw line
  rw [hfree] at hline
  have happroach := Line.approach_free hline.free
  have hgranted := hw.grant hfree (w.lines line).issued
  have hsituation : (w.onLine line fun _ =>
      (w.lines line).askSession.grantSession (w.lines line).issued).situation = w.situation :=
    World.onLine_situation_eq rfl rfl rfl
  obtain ⟨v, hcomes, hleft, hstands⟩ := h (sessions.enter line (w.lines line).issued) _ hgranted
  rw [hsituation] at hcomes hleft hstands
  have hhold := Task.Comes.hold happroach hcomes
  cases hresult : (c w.situation).1 with
  | none =>
    rw [hresult] at hhold
    exact ⟨v, hhold, hleft, nofun⟩
  | some a =>
    rw [hresult] at hhold hstands
    obtain ⟨hbefore, hsame⟩ := (hstands rfl).leave hfree hclosed (w.lines line).issued
    exact ⟨_, hhold, hsame.trans hleft, fun _ => hbefore⟩

variable {e : Executor}

theorem commit (result : Except Error α) :
    Follows isHeld before before (e.commit result : Task σ (Except Error α))
      (Course.commit e.line result : Course σ κ (Except Error α)) := by
  cases result with
  | error failure => exact .pure _
  | ok value => exact .bind (.perform e.line .commit) fun reply => .pure _

/-- The transaction is open when its body starts and when it ends, and closed before and after, each
time that it is tried. -/
theorem attempts {options : Options} {body : Task σ (Except Error α)}
    {c : Course σ κ (Except Error α)} (hclosed : before e.line = false)
    (hbody : Follows isHeld (Function.update before e.line true) (Function.update before e.line true)
      body c) (patience made : Nat) :
    Follows isHeld before before (e.attempts options body patience made)
      (Course.attempts e.line options c patience made) := by
  have hagain : Function.update (Function.update before e.line true) e.line false = before := by
    rw [Function.update_idem, ← hclosed, Function.update_eq_self]
  have hclose : Follows isHeld (Function.update before e.line true) before
      (Task.mark e.line false : Task σ Unit) (Course.mark e.line false : Course σ κ Unit) := by
    intro sessions w hw
    have hmarked := mark e.line false sessions w hw
    rwa [hagain] at hmarked
  induction patience generalizing made with
  | zero => exact .pending
  | succ patience ih =>
    refine .bind (.mark e.line true) fun _ => .bind (.perform e.line _) fun begun => ?_
    dsimp only
    cases begun.outcome with
    | error refused => exact .bind hclose fun _ => .pure _
    | ok _ =>
      refine .bind hbody fun ended => .bind (.commit ended) fun result => ?_
      cases result with
      | ok value => exact .bind hclose fun _ => .pure _
      | error failure =>
        refine .bind (.perform e.line .rollback) fun undo => .bind hclose fun _ => ?_
        split
        · exact ih (made + 1)
        · exact .pure _

/-- A frame is no transaction of its own. -/
theorem nested {f : Frame} {body : Frame → Task σ (Except Error α)}
    {c : Course σ κ (Except Error α)}
    (hbody : Follows isHeld before before (body { f with depth := f.depth + 1 }) c) :
    Follows isHeld before before (f.nested body) (Course.nested f.executor.line f.depth c) := by
  refine .bind (.perform f.executor.line _) fun opened => ?_
  cases opened.outcome with
  | error refused => exact .pure _
  | ok _ =>
    refine .bind hbody fun result => ?_
    cases result with
    | ok value => exact .bind (.perform f.executor.line _) fun _ => .pure _
    | error failure => exact .bind (.perform f.executor.line _) fun _ => .pure _

/-- As long as the lines whose sessions are held are those with an open transaction, a call is refused
just if there is one on its line. -/
theorem enter {held : List Nat} {work : Task σ (Except Error α)} {c : Course σ κ (Except Error α)}
    (h : held.contains e.line = false →
      Follows (e.line :: held).contains held.contains held.contains work c) :
    Follows held.contains held.contains held.contains (e.hold held work) (Course.enter e.line c) := by
  refine .get (c := fun isOpen => if isOpen e.line then _ else c) ?_
  rw [Executor.hold]
  split
  · exact .pure _
  · next hnot =>
    have hfree : held.contains e.line = false := by simpa using hnot
    refine .hold hfree hfree ?_
    rw [← contains_held]
    exact h hfree

end Follows

end Polystore.Transaction
