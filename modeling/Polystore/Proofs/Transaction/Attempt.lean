import Polystore.Proofs.Transaction.Cleanup
import Polystore.Proofs.Transaction.Evaluation
import Polystore.Proofs.Transaction.Runs

/-!
One attempt at a transaction on a connection in memory. Main statement: whatever its body does, and
in whichever order, the data are afterwards what the commands of the body have made of them if the
attempt has succeeded, and else as they were before.
-/

namespace Polystore.Transaction

variable {σ α : Type}

namespace Memory

/-- How the next commit fails, if it is going to. -/
def refusal? : Option (Nat × Error) → Option Error
  | some (_ + 1, refused) => some refused
  | _ => none

/-- The commits that are still going to fail after so many. -/
def failuresAfter (commits : Nat) (failing : Option (Nat × Error)) : Option (Nat × Error) :=
  failing.map fun (count, refused) => (count - commits, refused)

theorem failuresAfter_zero (failing : Option (Nat × Error)) : failuresAfter 0 failing = failing := by
  cases failing <;> rfl

theorem failuresAfter_failuresAfter (earlier later : Nat) (failing : Option (Nat × Error)) :
    failuresAfter later (failuresAfter earlier failing) = failuresAfter (earlier + later) failing := by
  cases failing with
  | none => rfl
  | some plan => simp [failuresAfter, Nat.sub_sub]

theorem perform_commit_outcome (m : Memory) :
    (Endpoint.perform .commit m).1.outcome =
      match refusal? m.failingCommits with
      | some refused => .error refused
      | none => .ok none := by
  obtain ⟨data, snapshot, savepoints, log, failing, failingRollbacks⟩ := m
  rcases failing with _ | ⟨_ | count, refused⟩ <;> rfl

theorem perform_commit_failing (m : Memory) :
    (Endpoint.perform .commit m).2.failingCommits = failuresAfter 1 m.failingCommits := by
  obtain ⟨data, snapshot, savepoints, log, failing, failingRollbacks⟩ := m
  rcases failing with _ | ⟨_ | count, refused⟩ <;> rfl

theorem perform_rollback_outcome (m : Memory) (h : m.failingRollbacks = false) :
    (Endpoint.perform .rollback m).1.outcome = .ok none ∧
      (Endpoint.perform .rollback m).2.failingCommits = m.failingCommits := by
  simp only [Endpoint.perform, apply, h]
  exact ⟨rfl, rfl⟩

theorem replay_inner (m : Memory) {log : List Entry}
    (h : ∀ entry ∈ log, entry.command.isInner = true) :
    (Line.replay m log).snapshot = m.snapshot ∧
      (Line.replay m log).failingCommits = m.failingCommits := by
  induction log generalizing m with
  | nil => exact ⟨rfl, rfl⟩
  | cons entry rest ih =>
    obtain ⟨hkept, hplanned⟩ := perform_inner m (h entry List.mem_cons_self)
    obtain ⟨hsnapshot, hfailing⟩ := ih (Endpoint.perform entry.command m).2
      fun other hother => h other (List.mem_cons_of_mem entry hother)
    exact ⟨hsnapshot.trans hkept, hfailing.trans hplanned⟩

/-- A transaction has begun on these data. -/
structure Begun (before : Data) (m : Memory) : Prop where
  data : m.data = before
  snapshot : m.snapshot = some before
  savepoints : m.savepoints = []

theorem Idle.begun {m : Memory} (h : m.Idle) (isolation : Isolation) :
    (Endpoint.perform (.begin isolation) m).2.Begun m.data :=
  ⟨rfl, rfl, h.2⟩

theorem replay_begun (m : Memory) (isolation : Isolation) {log : List Entry}
    (h : ∀ entry ∈ log, entry.command.isInner = true) :
    (Line.replay (Endpoint.perform (.begin isolation) m).2 log).snapshot = some m.data ∧
      (Line.replay (Endpoint.perform (.begin isolation) m).2 log).failingCommits =
        m.failingCommits ∧
      (Line.replay (Endpoint.perform (.begin isolation) m).2 log).failingRollbacks =
        m.failingRollbacks := by
  obtain ⟨hsnapshot, hfailing⟩ := replay_inner (Endpoint.perform (.begin isolation) m).2 h
  exact ⟨hsnapshot, hfailing, replay_failingRollbacks _ log⟩

end Memory

/-- What there is to say about one attempt: the worlds that its body has found and left, what the
body has come to, what has been sent on its behalf, and how its commit has been refused. -/
structure Attempt (σ α : Type) where
  found : World σ Memory
  left : World σ Memory
  result : Except Error α
  sent : List Entry
  refusal : Option Error

namespace Attempt

/-- An attempt fails in its body or at its commit. -/
def outcome (a : Attempt σ α) : Except Error α :=
  match a.refusal with
  | some refused => .error refused
  | none => a.result

def conflicts (a : Attempt σ α) : Bool :=
  match a.outcome with
  | .error failure => failure.isConflict
  | .ok _ => false

/-- How many commits there are in attempts: one wherever the body has succeeded. -/
def commits (attempts : List (Attempt σ α)) : Nat :=
  attempts.countP fun a => a.result.isOk

theorem commits_cons (a : Attempt σ α) (rest : List (Attempt σ α)) :
    commits (a :: rest) = commits [a] + commits rest := by
  rw [commits, ← List.singleton_append, List.countP_append]
  rfl

/-- The data after an attempt: what its own commands have made of what it has found, or else the data
before it. -/
def writes (line : Nat) (before : Data) (a : Attempt σ α) : Data :=
  match a.outcome with
  | .ok _ => (Line.replay (a.found.lines line).endpoint a.sent).data
  | .error _ => before

theorem writes_of_conflicts {a : Attempt σ α} (h : a.conflicts = true) (line : Nat) (before : Data) :
    a.writes line before = before := by
  rw [conflicts] at h
  rw [writes]
  cases houtcome : a.outcome with
  | error failure => rfl
  | ok value =>
    rw [houtcome] at h
    cases h

def commands (isolation : Isolation) (a : Attempt σ α) : List Command :=
  .begin isolation :: (a.sent.map Entry.command ++
    match a.result, a.refusal with
    | .ok _, none => [.commit]
    | .ok _, some _ => [.commit, .rollback]
    | .error _, _ => [.rollback])

/-- An attempt that runs a body on a line, when these are the data and the notes, and these commits are
going to fail. -/
structure Runs (line : Nat) (sessions : Sessions) (body : Task σ (Except Error α)) (before : Data)
    (noted : σ) (failing : Option (Nat × Error)) (a : Attempt σ α) : Prop where
  begun : (a.found.lines line).endpoint.Begun before
  notes : a.found.notes = noted
  body : Reaches sessions (body, a.found) (.done a.result, a.left)
  trace : (a.left.lines line).trace = (a.found.lines line).trace ++ a.sent
  inner : ∀ entry ∈ a.sent, entry.command.isInner = true
  recorded : Line.Recorded (a.found.lines line).endpoint a.sent
  refusal : a.refusal = if a.result.isOk then Memory.refusal? failing else none

end Attempt

/-- A line between two attempts, in the session with a ticket. -/
structure Line.Between (start : Memory) (ticket : Nat) (l : Line Memory) : Prop where
  ordered : l.Ordered start [ticket]
  still : l.Still
  idle : l.endpoint.Idle
  rollbacks : l.endpoint.failingRollbacks = false

/-- The commands so far, and what they have come to at the end of an attempt. -/
structure Line.Ended (start : Memory) (ticket : Nat) (commands : List Command) (after : Data)
    (failing : Option (Nat × Error)) (l : Line Memory) : Prop where
  between : l.Between start ticket
  closed : l.isOpen = false
  commands : l.trace.map Entry.command = commands
  data : l.endpoint.data = after
  failing : l.endpoint.failingCommits = failing

namespace Executor

/-- The end of a transaction that has been committed or has failed, and whether there may be another
attempt after it. -/
def conclude (e : Executor) : Except Error α → Task σ (Except Error α × Bool)
  | .ok value => do
    Task.mark e.line false
    pure (.ok value, false)
  | .error failure => do
    let undo := (← Task.send e.line .rollback).outcome
    Task.mark e.line false
    pure (.error (undone undo failure), undo.isOk && failure.isConflict)

def attempt (e : Executor) (options : Options) (body : Task σ (Except Error α)) :
    Task σ (Except Error α × Bool) := do
  Task.mark e.line true
  match (← Task.send e.line (.begin options.isolation)).outcome with
  | .error refused =>
    Task.mark e.line false
    pure (.error refused, false)
  | .ok _ => e.conclude (← e.commit (← body))

theorem attempts_succ (e : Executor) (options : Options) (body : Task σ (Except Error α))
    (patience made : Nat) :
    e.attempts options body (patience + 1) made =
      (e.attempt options body >>= fun (outcome, again) =>
        if again && options.retry.allows (made + 1) then
          e.attempts options body patience (made + 1)
        else pure outcome) := by
  rw [attempts, attempt]
  refine congrArg (Task.marking e.line true) (congrArg (Task.sending e.line .fresh _) (funext ?_))
  rintro ⟨rows, outcome⟩
  cases outcome with
  | error refused => rfl
  | ok count =>
    refine Eq.trans ?_ (Task.bind_assoc body _ _).symm
    refine congrArg body.bind (funext fun result => ?_)
    refine Eq.trans ?_ (Task.bind_assoc (e.commit result) _ _).symm
    refine congrArg (e.commit result).bind (funext fun ended => ?_)
    cases ended with
    | ok value => rfl
    | error failure => rfl

theorem close_run {κ : Type} [Endpoint κ] {e : Executor} {sessions : Sessions} {w w' : World σ κ}
    {p q : Except Error α × Bool}
    (h : Reaches sessions (Task.mark e.line false >>= fun _ => pure p, w) (.done q, w'))
    (hstill : (w.lines e.line).Still) :
    q = p ∧ w'.lines e.line = (w.lines e.line).mark false ∧ w'.notes = w.notes := by
  obtain ⟨_, v, hmark, hpure⟩ := h.of_bind
  obtain ⟨hmarked, hnoted⟩ := hmark.marked hstill
  obtain ⟨rfl, hline, hnotes⟩ := hpure.ended (hmarked ▸ hstill.mark false)
  exact ⟨rfl, hline.trans hmarked, hnotes.trans hnoted⟩

section

variable {e : Executor} {options : Options} {body : Task σ (Except Error α)} {start : Memory}
  {sessions : Sessions} {w w' : World σ Memory}

/-- How a transaction begins. The body finds the data that there are, and a copy of them. -/
theorem begin_run {f : Reply → Task σ (Except Error α × Bool)} {p : Except Error α × Bool}
    (h : Reaches sessions (Task.mark e.line true >>= fun _ =>
      Task.send e.line (.begin options.isolation) >>= f, w) (.done p, w'))
    (hl : (w.lines e.line).Between start (sessions e.line)) :
    ∃ reply found, reply.outcome = .ok none ∧ Reaches sessions (f reply, found) (.done p, w') ∧
      (found.lines e.line).Ordered start [sessions e.line] ∧ (found.lines e.line).Still ∧
      found.notes = w.notes ∧
      (found.lines e.line).endpoint =
        (Endpoint.perform (.begin options.isolation) (w.lines e.line).endpoint).2 ∧
      (found.lines e.line).trace.map Entry.command =
        (w.lines e.line).trace.map Entry.command ++ [.begin options.isolation] := by
  obtain ⟨_, v, hmark, hsend⟩ := h.of_bind
  obtain ⟨hmarked, hnoted⟩ := hmark.marked hl.still
  obtain ⟨reply, found, hbegin, hrest⟩ := hsend.of_bind
  have hordered : (v.lines e.line).Ordered start [sessions e.line] :=
    hmarked ▸ hl.ordered.mark true
  have hsame : (v.lines e.line).trace = (w.lines e.line).trace := by rw [hmarked]; rfl
  obtain ⟨hordered', hstill, -, hnotes, seat, htrace⟩ := hbegin.answered hordered
  rw [hsame] at htrace
  obtain ⟨hreply, hendpoint⟩ := hordered'.last hstill htrace
  rw [← hl.ordered.endpoint_eq hl.still] at hreply hendpoint
  refine ⟨reply, found, ?_, hrest, hordered', hstill, hnotes.trans hnoted, hendpoint, ?_⟩
  · rw [show reply = _ from hreply]
    rfl
  · rw [htrace, List.map_append]
    rfl

/-- A rollback restores the data that the transaction has found. -/
theorem failed_run {failure : Error} {p : Except Error α × Bool} {made : Memory} {before : Data}
    (h : Reaches sessions (e.conclude (.error failure), w) (.done p, w'))
    (hl : (w.lines e.line).Ordered start [sessions e.line])
    (hmade : Line.replay start (w.lines e.line).trace = made) (hsnapshot : made.snapshot = some before)
    (hrollbacks : made.failingRollbacks = false) :
    p = (.error failure, failure.isConflict) ∧ w'.notes = w.notes ∧
      (w'.lines e.line).Ended start (sessions e.line)
        ((w.lines e.line).trace.map Entry.command ++ [.rollback]) before
        made.failingCommits := by
  obtain ⟨reply, v, hsend, hrest⟩ := h.of_bind
  obtain ⟨hordered, hstill, -, hnotes, seat, htrace⟩ := hsend.answered hl
  obtain ⟨hreply, hendpoint⟩ := hordered.last hstill htrace
  obtain ⟨hok, hfailing⟩ := Memory.perform_rollback_outcome _ hrollbacks
  obtain ⟨hdata, hidle⟩ := Memory.perform_rollback _ hrollbacks
  have hreliable := Memory.perform_failingRollbacks made .rollback
  rw [hmade] at hreply hendpoint
  rw [← hendpoint] at hfailing hdata hidle hreliable
  obtain ⟨rfl, hline, hnoted⟩ := close_run hrest hstill
  refine ⟨?_, hnoted.trans hnotes, ?_⟩
  · rw [show reply = _ from hreply, hok]
    rfl
  · rw [hline]
    refine ⟨⟨hordered.mark false, hstill.mark false, hidle, hreliable.trans hrollbacks⟩, rfl, ?_, ?_,
      hfailing⟩
    · change (v.lines e.line).trace.map Entry.command = _
      rw [htrace, List.map_append]
      rfl
    · change (v.lines e.line).endpoint.data = before
      rw [hdata, hsnapshot]
      rfl

/-- A commit keeps the data that the body has made. If it is refused, there is a rollback after it. -/
theorem commit_run {value : α} {p : Except Error α × Bool} {made : Memory} {before : Data}
    (h : Reaches sessions (e.commit (.ok value) >>= e.conclude, w) (.done p, w'))
    (hl : (w.lines e.line).Ordered start [sessions e.line])
    (hmade : Line.replay start (w.lines e.line).trace = made) (hsnapshot : made.snapshot = some before)
    (hrollbacks : made.failingRollbacks = false) :
    w'.notes = w.notes ∧
      match Memory.refusal? made.failingCommits with
      | none => p = (.ok value, false) ∧
        (w'.lines e.line).Ended start (sessions e.line)
          ((w.lines e.line).trace.map Entry.command ++ [.commit])
          made.data
          (Memory.failuresAfter 1 made.failingCommits)
      | some refused => p = (.error refused, refused.isConflict) ∧
        (w'.lines e.line).Ended start (sessions e.line)
          ((w.lines e.line).trace.map Entry.command ++ [.commit, .rollback]) before
          (Memory.failuresAfter 1 made.failingCommits) := by
  have hcommit : Reaches sessions (Task.send e.line .commit >>= fun reply =>
      e.conclude (reply.outcome.map fun _ => value), w) (.done p, w') := h
  obtain ⟨⟨rows, outcome⟩, v, hsend, hrest⟩ := hcommit.of_bind
  obtain ⟨hordered, hstill, -, hnotes, seat, htrace⟩ := hsend.answered hl
  obtain ⟨hreply, hendpoint⟩ := hordered.last hstill htrace
  obtain ⟨hdata, hended⟩ := Memory.perform_commit made
  have houtcome := Memory.perform_commit_outcome made
  have hfailing := Memory.perform_commit_failing made
  have hreliable := Memory.perform_failingRollbacks made .commit
  rw [hmade] at hreply hendpoint
  rw [← hreply] at houtcome hended
  rw [← hendpoint] at hdata hended hfailing hreliable
  have hcommands : (v.lines e.line).trace.map Entry.command =
      (w.lines e.line).trace.map Entry.command ++ [.commit] := by
    rw [htrace, List.map_append]
    rfl
  cases hrefusal : Memory.refusal? made.failingCommits with
  | none =>
    rw [hrefusal] at houtcome
    obtain rfl : outcome = .ok none := houtcome
    obtain ⟨rfl, hline, hnoted⟩ := close_run hrest hstill
    refine ⟨hnoted.trans hnotes, rfl, ?_⟩
    rw [hline]
    exact ⟨⟨hordered.mark false, hstill.mark false, hended, hreliable.trans hrollbacks⟩, rfl,
      hcommands, hdata, hfailing⟩
  | some refused =>
    rw [hrefusal] at houtcome
    obtain rfl : outcome = .error refused := houtcome
    obtain ⟨hp, hnoted, hdone⟩ := failed_run hrest hordered (hordered.endpoint_eq hstill).symm
      (hended.trans hsnapshot) (hreliable.trans hrollbacks)
    rw [hcommands, hfailing, List.append_assoc] at hdone
    exact ⟨hnoted.trans hnotes, hp, hdone⟩

theorem body_run {p : Except Error α × Bool}
    (h : Reaches sessions (e.attempt options body, w) (.done p, w'))
    (hbody : body.Inner e.line (sessions e.line))
    (hl : (w.lines e.line).Between start (sessions e.line)) :
    ∃ a : Attempt σ α, a.Runs e.line sessions body (w.lines e.line).endpoint.data w.notes
        (w.lines e.line).endpoint.failingCommits ∧
      Reaches sessions (e.commit a.result >>= e.conclude, a.left) (.done p, w') ∧
      (a.found.lines e.line).Ordered start [sessions e.line] ∧
      (a.left.lines e.line).Ordered start [sessions e.line] ∧
      (a.left.lines e.line).trace.map Entry.command =
        (w.lines e.line).trace.map Entry.command ++
          .begin options.isolation :: a.sent.map Entry.command ∧
      ∃ made, Line.replay start (a.left.lines e.line).trace = made ∧
        made = Line.replay (a.found.lines e.line).endpoint a.sent ∧
        made.snapshot = some (w.lines e.line).endpoint.data ∧
        made.failingCommits = (w.lines e.line).endpoint.failingCommits ∧
        made.failingRollbacks = false := by
  obtain ⟨⟨rows, outcome⟩, found, hok, hrest, hordered, hstill, hnotes, hfound, hcommands⟩ :=
    begin_run h hl
  obtain rfl : outcome = .ok none := hok
  obtain ⟨result, left, hrun, hrest⟩ := hrest.of_bind
  obtain ⟨hordered', -, sent, htrace, hinner⟩ := hrun.inner hbody hordered
  have hrecorded := hordered'.recorded_trace
  rw [htrace, Line.recorded_append, ← hordered.endpoint_eq hstill] at hrecorded
  obtain ⟨hsnapshot, hfailing, hrollbacks⟩ :=
    Memory.replay_begun (w.lines e.line).endpoint options.isolation hinner
  rw [← hfound] at hsnapshot hfailing hrollbacks
  let a : Attempt σ α := ⟨found, left, result, sent, if result.isOk then
    Memory.refusal? (w.lines e.line).endpoint.failingCommits else none⟩
  -- The body may leave commands under way, so that it is the trace that tells what it has made.
  refine ⟨a, ?_, hrest, hordered, hordered', ?_, _, ?_, rfl, hsnapshot, hfailing,
    hrollbacks.trans hl.rollbacks⟩
  · exact {
      begun := hfound ▸ hl.idle.begun options.isolation
      notes := hnotes
      body := hrun
      trace := htrace
      inner := hinner
      recorded := hrecorded.2
      refusal := rfl }
  · rw [htrace, List.map_append, hcommands, List.append_assoc, List.singleton_append]
  · rw [htrace, Line.replay_append, ← hordered.endpoint_eq hstill]

/-- One attempt, whatever its body does inside the transaction and in whichever order. -/
theorem attempt_run {p : Except Error α × Bool}
    (h : Reaches sessions (e.attempt options body, w) (.done p, w'))
    (hbody : body.Inner e.line (sessions e.line))
    (hl : (w.lines e.line).Between start (sessions e.line)) :
    ∃ a : Attempt σ α, p = (a.outcome, a.conflicts) ∧ w'.notes = a.left.notes ∧
      a.Runs e.line sessions body (w.lines e.line).endpoint.data w.notes
        (w.lines e.line).endpoint.failingCommits ∧
      (a.found.lines e.line).Ordered start [sessions e.line] ∧
      (w'.lines e.line).Ended start (sessions e.line)
        ((w.lines e.line).trace.map Entry.command ++ a.commands options.isolation)
        (a.writes e.line (w.lines e.line).endpoint.data)
        (Memory.failuresAfter (Attempt.commits [a]) (w.lines e.line).endpoint.failingCommits) := by
  obtain ⟨⟨found, left, result, sent, refusal⟩, hruns, hrest, hfound, hordered, hsent, made, hmade,
    rfl, hsnapshot, hfailing, hrollbacks⟩ := body_run h hbody hl
  have hrefusal := hruns.refusal
  cases result with
  | error failure =>
    obtain rfl : refusal = none := hrefusal
    obtain ⟨rfl, hnoted, hended⟩ := failed_run hrest hordered hmade hsnapshot hrollbacks
    rw [hsent, hfailing, List.append_assoc,
      ← Memory.failuresAfter_zero (w.lines e.line).endpoint.failingCommits] at hended
    exact ⟨_, rfl, hnoted, hruns, hfound, hended⟩
  | ok value =>
    obtain ⟨hnoted, hended⟩ := commit_run hrest hordered hmade hsnapshot hrollbacks
    have hplanned : Memory.refusal? (w.lines e.line).endpoint.failingCommits = refusal :=
      hrefusal.symm
    rw [hsent, hfailing, hplanned] at hended
    cases refusal with
    | none =>
      obtain ⟨rfl, hended⟩ := hended
      rw [List.append_assoc] at hended
      exact ⟨_, rfl, hnoted, hruns, hfound, hended⟩
    | some refused =>
      obtain ⟨rfl, hended⟩ := hended
      rw [List.append_assoc] at hended
      exact ⟨_, rfl, hnoted, hruns, hfound, hended⟩

end

section

variable {e : Executor} {options : Options} {body : Task σ (Except Error α)} {sessions : Sessions}
  {w : World σ Memory} {P : World σ Memory → Prop}

theorem commit_ends (result : Except Error α) (hP : ∀ v f, P v → P (v.onLine e.line f)) (hw : P w) :
    ∃ (ended : Except Error α) (w' : World σ Memory),
      Task.Ends sessions (e.commit result) w ended w' ∧ P w' := by
  cases result with
  | error failure => exact ⟨_, w, .pure, hw⟩
  | ok value => exact ⟨_, _, (Task.Ends.send _ _).bind .pure, hP _ _ hw⟩

theorem conclude_ends (ended : Except Error α) (hP : ∀ v f, P v → P (v.onLine e.line f))
    (hw : P w) :
    ∃ (p : Except Error α × Bool) (w' : World σ Memory),
      Task.Ends sessions (e.conclude ended) w p w' ∧ P w' := by
  cases ended with
  | ok value => exact ⟨_, _, (Task.Ends.mark _ _).bind .pure, hP _ _ hw⟩
  | error failure =>
    refine ⟨_, _, (Task.Ends.send _ _).bind ((Task.Ends.mark _ _).bind .pure), ?_⟩
    exact hP _ _ (hP _ _ hw)

theorem attempt_finishes (hP : ∀ v f, P v → P (v.onLine e.line f))
    (hbody : ∃ result v, Task.Finishes sessions
      (body.settle sessions ((w.onLine e.line (.mark true)).sent e.line (sessions e.line)
        (.begin options.isolation))) result v ∧ P v) :
    ∃ p w', Task.Finishes sessions ((e.attempt options body).settle sessions w) p w' ∧ P w' := by
  obtain ⟨result, v, hrun, hv⟩ := hbody
  have hcommit : ∃ ended u, Task.Ends sessions (e.commit result) v ended u ∧ P u :=
    commit_ends result hP hv
  obtain ⟨ended, u, hcommit, hu⟩ := hcommit
  have hconclude : ∃ p w', Task.Ends sessions (e.conclude ended) u p w' ∧ P w' :=
    conclude_ends ended hP hu
  obtain ⟨p, w', hconclude, hw'⟩ := hconclude
  refine ⟨p, w', (Task.Ends.mark _ _).finishes.bind ((Task.Ends.send _ _).finishes.bind ?_), hw'⟩
  exact hrun.bind (hcommit.bind hconclude).finishes

end

end Executor

end Polystore.Transaction
