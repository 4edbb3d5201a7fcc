import Polystore.Proofs.Transaction.Attempt
import Polystore.Proofs.Transaction.Issuing

/-!
Calls on the wire, whatever is replied to them. Main statement: on a line that nobody else uses, a
statement is one command, and a transaction is one attempt after the other. Each attempt is a refused
beginning, or a beginning, the commands of the body, and an end that the result of the body and the
replies decide.
-/

namespace Polystore.Transaction

variable {σ κ α : Type}

/-- How an attempt is ended whose body has come to a result: the last commands, what the attempt comes
to, and whether there may be another one. -/
inductive Executor.Concluded : Except Error α → List Entry → Except Error α × Bool → Prop where
  | committed {value : α} {commit : Entry} {count : Option UInt64}
      (hcommit : commit.command = .commit) (haccepted : commit.reply.outcome = .ok count) :
      Concluded (.ok value) [commit] (.ok value, false)
  | refused {value : α} {commit rollback : Entry} {refusal : Error}
      (hcommit : commit.command = .commit) (hrefused : commit.reply.outcome = .error refusal)
      (hrollback : rollback.command = .rollback) :
      Concluded (.ok value) [commit, rollback]
        (.error (undone rollback.reply.outcome refusal),
          rollback.reply.outcome.isOk && refusal.isConflict)
  | failed {failure : Error} {rollback : Entry} (hrollback : rollback.command = .rollback) :
      Concluded (.error failure) [rollback]
        (.error (undone rollback.reply.outcome failure),
          rollback.reply.outcome.isOk && failure.isConflict)

/-- One attempt, when its body may send such commands and come to such a result. -/
inductive Executor.Attempted (isolation : Isolation) (ran : List Entry → Except Error α → Prop) :
    List Entry → Except Error α × Bool → Prop where
  | refused {opening : Entry} {refusal : Error} (hopening : opening.command = .begin isolation)
      (hrefused : opening.reply.outcome = .error refusal) :
      Attempted isolation ran [opening] (.error refusal, false)
  | ended {opening : Entry} {count : Option UInt64} {sent closing : List Entry}
      {result : Except Error α} {p : Except Error α × Bool}
      (hopening : opening.command = .begin isolation) (haccepted : opening.reply.outcome = .ok count)
      (hbody : ran sent result) (hclosing : Executor.Concluded result closing p) :
      Attempted isolation ran (opening :: (sent ++ closing)) p

/-- What has failed in an attempt that has begun, before it is rolled back: its body, or its commit. -/
inductive Executor.Trigger (ran : List Entry → Except Error α → Prop) : List Entry → Error → Prop where
  | body {opening : Entry} {sent : List Entry} {failure : Error} (hbody : ran sent (.error failure)) :
      Trigger ran (opening :: sent) failure
  | commit {opening commit : Entry} {sent : List Entry} {value : α} {refusal : Error}
      (hbody : ran sent (.ok value)) (hcommit : commit.command = .commit)
      (hrefused : commit.reply.outcome = .error refusal) :
      Trigger ran (opening :: (sent ++ [commit])) refusal

namespace Executor.Attempted

variable {isolation : Isolation} {ran ran' : List Entry → Except Error α → Prop} {round : List Entry}

theorem imp {p : Except Error α × Bool} (h : Attempted isolation ran round p)
    (himp : ∀ sent result, ran sent result → ran' sent result) : Attempted isolation ran' round p := by
  cases h with
  | refused hopening hrefused => exact .refused hopening hrefused
  | ended hopening haccepted hbody hclosing => exact .ended hopening haccepted (himp _ _ hbody) hclosing

theorem error_of_again {outcome : Except Error α} (h : Attempted isolation ran round (outcome, true)) :
    ∃ failure, outcome = .error failure := by
  generalize hagain : (outcome, true) = p at h
  cases h with
  | refused => cases hagain
  | ended hopening haccepted hbody hclosing =>
    cases hclosing with
    | committed => cases hagain
    | refused | failed => exact ⟨_, congrArg Prod.fst hagain⟩

/-- An attempt that fails has not begun, or ends in a rollback. -/
theorem failed {failure : Error} {again : Bool}
    (h : Attempted isolation ran round (.error failure, again)) :
    (∃ opening : Entry, round = [opening] ∧ opening.command = .begin isolation ∧
      opening.reply.outcome = .error failure) ∨
      ∃ others rollback trigger, round = others ++ [rollback] ∧ rollback.command = .rollback ∧
        Executor.Trigger ran others trigger ∧ failure = undone rollback.reply.outcome trigger := by
  cases h with
  | refused hopening hrefused => exact .inl ⟨_, rfl, hopening, hrefused⟩
  | @ended opening _ sent _ _ _ hopening haccepted hbody hclosing =>
    right
    cases hclosing with
    | @refused _ commit rollback refusal hcommit hrefused hrollback =>
      refine ⟨opening :: (sent ++ [commit]), rollback, refusal, ?_, hrollback,
        .commit hbody hcommit hrefused, rfl⟩
      rw [List.cons_append, List.append_assoc, List.singleton_append]
    | @failed trigger rollback hrollback =>
      exact ⟨opening :: sent, rollback, trigger, rfl, hrollback, .body hbody, rfl⟩

end Executor.Attempted

/-- What a body inside a transaction has sent on a line, and what it has come to. -/
def Task.Ran (line : Nat) (body : Task σ (Except Error α)) (sent : List Entry)
    (result : Except Error α) : Prop :=
  (∀ entry ∈ sent, entry.command.isInner = true) ∧ ∃ trace, body.Issues line trace sent (some result)

theorem Task.Ran.inner {line : Nat} {body : Task σ (Except Error α)} (sent : List Entry)
    (result : Except Error α) (h : body.Ran line sent result) :
    ∀ entry ∈ sent, entry.command.isInner = true :=
  h.1

variable [Endpoint κ]

namespace Line

/-- A line in the session with a ticket, with nothing under way. -/
structure Ready (start : κ) (ticket : Nat) (l : Line κ) : Prop where
  ordered : l.Ordered start [ticket]
  still : l.Still

/-- A line that nobody uses. -/
structure Free (start : κ) (l : Line κ) : Prop where
  ordered : l.Ordered start []
  still : l.Still
  closed : l.isOpen = false

variable {start : κ} {ticket issued : Nat} {l : Line κ}

theorem Ready.mark (h : l.Ready start ticket) (isOpen : Bool) : (l.mark isOpen).Ready start ticket :=
  ⟨h.ordered.mark isOpen, h.still.mark isOpen⟩

theorem free_idle (start : κ) (issued : Nat) : ({ endpoint := start, issued } : Line κ).Free start :=
  ⟨Ordered.idle, ⟨rfl, rfl⟩, rfl⟩

theorem Free.entered (h : l.Free start) (hnext : l.askSession.session.isNext l.issued = true) :
    (l.askSession.grantSession l.issued).Ready start l.issued :=
  ⟨h.ordered.askSession.grantSession hnext, ⟨h.still.running, h.still.undoing⟩⟩

/-- A session in which no transaction is left open is given back at once. -/
theorem Ready.left {l' : Line κ} (h : l.Ready start ticket) (hclosed : l.isOpen = false)
    (hworks : Relation.ReflTransGen Works (l.leaveSession ticket) l') :
    l'.Free start ∧ l'.history = l.history := by
  have hleave : l.leaveSession ticket = { l with session := l.session.release } :=
    if_neg (by rw [hclosed]; decide)
  rw [hleave] at hworks
  have hstill : ({ l with session := l.session.release } : Line κ).Still :=
    ⟨h.still.running, h.still.undoing⟩
  rw [hstill.works_eq hworks]
  exact ⟨⟨h.ordered.freeSession, hstill, hclosed⟩, rfl⟩

end Line

section

variable {line : Nat} {sessions : Sessions} {start : κ} {w w' : World σ κ}

/-- A command that is followed by something has been answered before. -/
theorem Reaches.sent {β : Type} {command : Command} {f : Reply → Task σ β} {b : β}
    (h : Reaches sessions (Task.send line command >>= f, w) (.done b, w'))
    (hl : (w.lines line).Ordered start [sessions line]) :
    ∃ entry v, entry.command = command ∧ Reaches sessions (f entry.reply, v) (.done b, w') ∧
      (v.lines line).Ready start (sessions line) ∧ (v.lines line).isOpen = (w.lines line).isOpen ∧
      (v.lines line).trace = (w.lines line).trace ++ [entry] := by
  obtain ⟨reply, v, hsend, hrest⟩ := h.of_bind
  obtain ⟨hordered, hstill, hopen, -, seat, htrace⟩ := hsend.answered hl
  exact ⟨⟨seat, command, reply⟩, v, rfl, hrest, ⟨hordered, hstill⟩, hopen, htrace⟩

/-- Work on a line that nobody else uses has the session of the line to itself. -/
theorem Reaches.alone {β : Type} {work : Task σ β} {b : β}
    (h : Reaches sessions (Task.hold line work, w) (.done b, w')) (hl : (w.lines line).Free start) :
    ∃ inside entered left, (entered.lines line).Ready start (inside line) ∧
      (entered.lines line).isOpen = false ∧
      (entered.lines line).trace = (w.lines line).history ∧
      Reaches inside (work, entered) (.done b, left) ∧
      Relation.ReflTransGen Line.Works ((left.lines line).leaveSession (inside line))
        (w'.lines line) := by
  have hsession : sessions.enter line (w.lines line).issued line = (w.lines line).issued :=
    if_pos rfl
  obtain ⟨entered, left, hnext, hline, -, hwork, hworks, -⟩ := h.held hl.still
  refine ⟨_, entered, left, ?_, ?_, ?_, hwork, ?_⟩
  · rw [hline, hsession]
    exact hl.entered hnext
  · rw [hline]
    exact hl.closed
  · rw [hline, ← hl.still.trace_eq]
    rfl
  · rw [hsession]
    exact hworks

end

namespace Executor

variable {e : Executor} {options : Options} {body : Task σ (Except Error α)} {start : κ}
  {sessions : Sessions} {w w' : World σ κ} {p : Except Error α × Bool}

/-- What an attempt has left on its line: these commands, and nothing open. -/
structure Leaves (start : κ) (ticket : Nat) (trace : List Entry) (l : Line κ) : Prop where
  ready : l.Ready start ticket
  closed : l.isOpen = false
  trace : l.trace = trace

theorem close_leaves {q : Except Error α × Bool}
    (h : Reaches sessions (Task.mark e.line false >>= fun _ => pure p, w) (.done q, w'))
    (hl : (w.lines e.line).Ready start (sessions e.line)) :
    q = p ∧ Leaves start (sessions e.line) (w.lines e.line).trace (w'.lines e.line) := by
  obtain ⟨hresult, hline, -⟩ := close_run h hl.still
  refine ⟨hresult, ?_⟩
  rw [hline]
  exact ⟨hl.mark false, rfl, rfl⟩

/-- A failure is answered by a rollback, which is the last command. -/
theorem rollback_leaves {failure : Error}
    (h : Reaches sessions (e.conclude (.error failure), w) (.done p, w'))
    (hl : (w.lines e.line).Ordered start [sessions e.line]) :
    ∃ rollback : Entry, rollback.command = .rollback ∧
      p = (.error (undone rollback.reply.outcome failure),
        rollback.reply.outcome.isOk && failure.isConflict) ∧
      Leaves start (sessions e.line) ((w.lines e.line).trace ++ [rollback]) (w'.lines e.line) := by
  obtain ⟨rollback, v, hcommand, hrest, hready, -, htrace⟩ := h.sent hl
  obtain ⟨hresult, hleaves⟩ := close_leaves hrest hready
  exact ⟨rollback, hcommand, hresult, htrace ▸ hleaves⟩

theorem conclude_leaves {result : Except Error α}
    (h : Reaches sessions (e.commit result >>= e.conclude, w) (.done p, w'))
    (hl : (w.lines e.line).Ordered start [sessions e.line]) :
    ∃ closing, Concluded result closing p ∧
      Leaves start (sessions e.line) ((w.lines e.line).trace ++ closing) (w'.lines e.line) := by
  cases result with
  | error failure =>
    obtain ⟨rollback, hrollback, rfl, hleaves⟩ := rollback_leaves h hl
    exact ⟨[rollback], .failed hrollback, hleaves⟩
  | ok value =>
    have hcommit : Reaches sessions (Task.send e.line .commit >>= fun reply =>
        e.conclude (reply.outcome.map fun _ => value), w) (.done p, w') := h
    obtain ⟨commit, v, hcommand, hrest, hready, -, htrace⟩ := hcommit.sent hl
    cases houtcome : commit.reply.outcome with
    | ok count =>
      rw [houtcome] at hrest
      obtain ⟨rfl, hleaves⟩ := close_leaves hrest hready
      exact ⟨[commit], .committed hcommand houtcome, htrace ▸ hleaves⟩
    | error refusal =>
      rw [houtcome] at hrest
      obtain ⟨rollback, hrollback, rfl, hleaves⟩ := rollback_leaves hrest hready.ordered
      rw [htrace, List.append_assoc] at hleaves
      exact ⟨[commit, rollback], .refused hcommand houtcome hrollback, hleaves⟩

theorem attempt_leaves (h : Reaches sessions (e.attempt options body, w) (.done p, w'))
    (hbody : body.Inner e.line (sessions e.line))
    (hl : (w.lines e.line).Ready start (sessions e.line)) :
    ∃ sent, Attempted options.isolation (body.Ran e.line) sent p ∧
      Leaves start (sessions e.line) ((w.lines e.line).trace ++ sent) (w'.lines e.line) := by
  obtain ⟨_, v, hmark, hsend⟩ := h.of_bind
  obtain ⟨hmarked, -⟩ := hmark.marked hl.still
  have hready : (v.lines e.line).Ready start (sessions e.line) := hmarked ▸ hl.mark true
  have hsame : (v.lines e.line).trace = (w.lines e.line).trace := by rw [hmarked]; rfl
  obtain ⟨opening, found, hopening, hrest, hfound, -, htrace⟩ := hsend.sent hready.ordered
  rw [hsame] at htrace
  cases houtcome : opening.reply.outcome with
  | error refusal =>
    rw [houtcome] at hrest
    obtain ⟨rfl, hleaves⟩ := close_leaves hrest hfound
    exact ⟨[opening], .refused hopening houtcome, htrace ▸ hleaves⟩
  | ok count =>
    rw [houtcome] at hrest
    obtain ⟨result, left, hrun, hend⟩ := hrest.of_bind
    obtain ⟨hordered, -, sent, hsent, hinner⟩ := hrun.inner hbody hfound.ordered
    obtain ⟨sent', hsent', hissues⟩ := hrun.issues hbody hfound.ordered
    obtain rfl : sent = sent' := List.append_cancel_left (hsent.symm.trans hsent')
    obtain ⟨closing, hclosing, hleaves⟩ := conclude_leaves hend hordered
    rw [hsent, htrace, List.append_assoc, List.append_assoc, List.singleton_append] at hleaves
    exact ⟨_, .ended hopening houtcome ⟨hinner, _, hissues⟩ hclosing, hleaves⟩

/-- One attempt after the other, until one is not followed by another. -/
theorem attempts_leaves {patience made : Nat} {result : Except Error α}
    (h : Reaches sessions (e.attempts options body patience made, w) (.done result, w'))
    (hbody : body.Inner e.line (sessions e.line))
    (hl : (w.lines e.line).Ready start (sessions e.line)) :
    ∃ (tried : List (List Entry)) (last : List Entry) (again : Bool),
      (∀ round ∈ tried, ∃ outcome, Attempted options.isolation (body.Ran e.line) round (outcome, true)) ∧
      Attempted options.isolation (body.Ran e.line) last (result, again) ∧
      Leaves start (sessions e.line) ((w.lines e.line).trace ++ (tried.flatten ++ last))
        (w'.lines e.line) := by
  induction patience generalizing made w with
  | zero => exact absurd h Reaches.not_pending
  | succ patience ih =>
    rw [attempts_succ] at h
    obtain ⟨⟨outcome, again⟩, v, hattempt, hrest⟩ := h.of_bind
    obtain ⟨sent, hattempted, hleaves⟩ := attempt_leaves hattempt hbody hl
    dsimp only at hrest
    split at hrest
    · rename_i hagain
      obtain ⟨rfl, -⟩ := Bool.and_eq_true_iff.mp hagain
      obtain ⟨tried, last, again, htried, hlast, hended⟩ := ih hrest hleaves.ready
      refine ⟨sent :: tried, last, again, ?_, hlast, ?_⟩
      · exact List.forall_mem_cons.mpr ⟨⟨outcome, hattempted⟩, htried⟩
      · rw [hleaves.trace, List.append_assoc] at hended
        rwa [List.flatten_cons, List.append_assoc]
    · obtain ⟨rfl, hline, -⟩ := hrest.ended hleaves.ready.still
      refine ⟨[], sent, again, List.forall_mem_nil _, hattempted, ?_⟩
      rw [hline]
      exact hleaves

/-- A statement on a free line is one command. -/
theorem statement_sends {β : Type} {held : List Nat} {sql : String} {params : List Value}
    {read : Reply → Except Error β} {result : Except Error β} (hheld : e.line ∉ held)
    (h : Reaches sessions (e.hold held do pure (read (← e.send sql params)), w) (.done result, w'))
    (hl : (w.lines e.line).Free start) :
    ∃ entry : Entry, entry.command = .execute sql params ∧ result = read entry.reply ∧
      (w'.lines e.line).Free start ∧
      (w'.lines e.line).history = (w.lines e.line).history ++ [entry] := by
  rw [hold, if_neg (by simpa using hheld)] at h
  obtain ⟨inside, entered, last, hready, hclosed, htrace, hwork, hworks⟩ := h.alone hl
  obtain ⟨entry, v, hcommand, hrest, hanswered, hopen, hsent⟩ := hwork.sent hready.ordered
  obtain ⟨rfl, hline, -⟩ := hrest.ended hanswered.still
  rw [← hline] at hanswered hopen hsent
  obtain ⟨hfree, hhistory⟩ := hanswered.left (hopen.trans hclosed) hworks
  refine ⟨entry, hcommand, rfl, hfree, ?_⟩
  rw [hhistory, ← hanswered.still.trace_eq, hsent, htrace]

/-- A transaction on a free line leaves the line free, and has sent its attempts. -/
theorem transaction_sends {held : List Nat} {patience : Nat}
    {body : Frame → Task σ (Except Error α)} {result : Except Error α} (hheld : e.line ∉ held)
    (hbody : (body ⟨e, 0, e.line :: held⟩).Calls e.line true)
    (h : Reaches sessions (e.transaction held patience options body, w) (.done result, w'))
    (hl : (w.lines e.line).Free start) :
    ∃ (tried : List (List Entry)) (last : List Entry) (again : Bool),
      (∀ round ∈ tried, ∃ outcome, Attempted options.isolation
        ((body ⟨e, 0, e.line :: held⟩).Ran e.line) round (outcome, true)) ∧
      Attempted options.isolation ((body ⟨e, 0, e.line :: held⟩).Ran e.line) last (result, again) ∧
      (w'.lines e.line).Free start ∧
      (w'.lines e.line).history = (w.lines e.line).history ++ (tried.flatten ++ last) := by
  rw [transaction, hold, if_neg (by simpa using hheld)] at h
  obtain ⟨inside, entered, left, hready, -, htrace, hwork, hworks⟩ := h.alone hl
  obtain ⟨tried, last, again, htried, hlast, hleaves⟩ :=
    attempts_leaves hwork (hbody.inner rfl _) hready
  obtain ⟨hfree, hhistory⟩ := hleaves.ready.left hleaves.closed hworks
  refine ⟨tried, last, again, htried, hlast, hfree, ?_⟩
  rw [hhistory, ← hleaves.ready.still.trace_eq, hleaves.trace, htrace]

end Executor

/-- A call of an executor from outside of any transaction. -/
inductive Call (σ : Type) : Type → Type 1 where
  | execute (sql : String) (params : List Value) : Call σ (Except Error (List Row))
  | fetchOne (sql : String) (params : List Value) : Call σ (Except Error Row)
  | run (statement : Sql.Rendered) : Call σ (Except Error (List Row))
  | stream {τ : Type} (sql : String) (params : List Value) (consume : τ → Row → Except Error τ)
      (first : τ) : Call σ (τ × Except Error Summary)
  | transaction {α : Type} (patience : Nat) (options : Options)
      (body : Frame → Task σ (Except Error α)) : Call σ (Except Error α)

namespace Call

variable {β : Type} {e : Executor} {held : List Nat}

def work (e : Executor) (held : List Nat) : {β : Type} → Call σ β → Task σ β
  | _, .execute sql params => e.execute held sql params
  | _, .fetchOne sql params => e.fetchOne held sql params
  | _, .run statement => e.run held statement
  | _, .stream sql params consume first => e.stream held sql params consume first
  | _, .transaction patience options body => e.transaction held patience options body

/-- The body of a transaction makes its own calls as callers do. -/
def Proper (e : Executor) (held : List Nat) : {β : Type} → Call σ β → Prop
  | _, .transaction _ _ body => (body ⟨e, 0, e.line :: held⟩).Calls e.line true
  | _, _ => True

def isTransaction : {β : Type} → Call σ β → Bool
  | _, .transaction _ _ _ => true
  | _, _ => false

/-- What a call sends when nobody else uses its line, and what it returns. -/
inductive Sends (e : Executor) (held : List Nat) :
    {β : Type} → Call σ β → List Entry → β → Prop where
  | execute {sql : String} {params : List Value} {entry : Entry}
      (hcommand : entry.command = .execute sql params) :
      Sends e held (.execute sql params) [entry] entry.reply.all
  | fetchOne {sql : String} {params : List Value} {entry : Entry}
      (hcommand : entry.command = .execute sql params) :
      Sends e held (.fetchOne sql params) [entry] (entry.reply.all.bind firstRow)
  | run {statement : Sql.Rendered} {entry : Entry} (hchecked : e.checkDialect statement = .ok ())
      (hcommand : entry.command = .execute statement.sql statement.binds) :
      Sends e held (.run statement) [entry] entry.reply.all
  | misdirected {statement : Sql.Rendered} {wrong : Error}
      (hwrong : e.checkDialect statement = .error wrong) :
      Sends e held (.run statement) [] (.error wrong)
  | stream {τ : Type} {sql : String} {params : List Value} {consume : τ → Row → Except Error τ}
      {first : τ} {entry : Entry} (hcommand : entry.command = .execute sql params) :
      Sends e held (.stream sql params consume first) [entry] (entry.reply.deliver consume first)
  | transaction {α : Type} {patience : Nat} {options : Options}
      {body : Frame → Task σ (Except Error α)} {tried : List (List Entry)} {last : List Entry}
      {result : Except Error α} {again : Bool}
      (htried : ∀ round ∈ tried, ∃ outcome, Executor.Attempted options.isolation
        ((body ⟨e, 0, e.line :: held⟩).Ran e.line) round (outcome, true))
      (hlast : Executor.Attempted options.isolation ((body ⟨e, 0, e.line :: held⟩).Ran e.line) last
        (result, again)) :
      Sends e held (.transaction patience options body) (tried.flatten ++ last) result

theorem work_sends {call : Call σ β} {result : β} {sessions : Sessions} {start : κ}
    {w w' : World σ κ} (hheld : e.line ∉ held) (hproper : call.Proper e held)
    (h : Reaches sessions (call.work e held, w) (.done result, w'))
    (hl : (w.lines e.line).Free start) :
    ∃ sent, call.Sends e held sent result ∧ (w'.lines e.line).Free start ∧
      (w'.lines e.line).history = (w.lines e.line).history ++ sent := by
  cases call with
  | execute sql params =>
    obtain ⟨entry, hcommand, rfl, hended⟩ := Executor.statement_sends hheld h hl
    exact ⟨[entry], .execute hcommand, hended⟩
  | fetchOne sql params =>
    obtain ⟨rows, v, hsend, hrest⟩ := h.of_bind
    obtain ⟨entry, hcommand, rfl, hfree, hhistory⟩ := Executor.statement_sends hheld hsend hl
    obtain ⟨rfl, hline, -⟩ := hrest.ended hfree.still
    exact ⟨[entry], .fetchOne hcommand, hline ▸ hfree, hline ▸ hhistory⟩
  | run statement =>
    rw [work, Executor.run] at h
    split at h
    · rename_i wrong hwrong
      obtain ⟨rfl, hline, -⟩ := h.ended hl.still
      exact ⟨[], .misdirected hwrong, hline ▸ hl, by rw [hline, List.append_nil]⟩
    · rename_i hchecked
      obtain ⟨entry, hcommand, rfl, hended⟩ := Executor.statement_sends hheld h hl
      exact ⟨[entry], .run hchecked hcommand, hended⟩
  | stream sql params consume first =>
    obtain ⟨delivered, v, hsend, hrest⟩ := h.of_bind
    obtain ⟨entry, hcommand, rfl, hfree, hhistory⟩ := Executor.statement_sends hheld hsend hl
    obtain ⟨rfl, hline, -⟩ := hrest.ended hfree.still
    exact ⟨[entry], .stream hcommand, hline ▸ hfree, hline ▸ hhistory⟩
  | transaction patience options body =>
    obtain ⟨tried, last, again, htried, hlast, hended⟩ :=
      Executor.transaction_sends hheld hproper h hl
    exact ⟨tried.flatten ++ last, .transaction htried hlast, hended⟩

end Call

end Polystore.Transaction
