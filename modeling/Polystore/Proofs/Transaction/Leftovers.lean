import Mathlib.Data.List.Induction
import Polystore.Proofs.Transaction.Cleanup
import Polystore.Proofs.Transaction.Retry
import Polystore.Proofs.Transaction.Rounds

/-!
What transactions leave behind on a connection in memory where any commit and any rollback may fail.
Main statement: a transaction that fails leaves the data that it has found, unless its rollback is
refused. Then its data stay, the transaction stays open, and the next one is begun on top of it.
-/

namespace Polystore.Transaction

variable {σ α β : Type}

/-- A connection in memory for which it is set anew before each command what is going to fail. -/
structure Unsteady where
  memory : Memory
  /-- How commits are going to fail, and whether rollbacks are, when so many commands have been
  performed. -/
  settings : Nat → Option (Nat × Error) × Bool

namespace Unsteady

/-- The connection as it takes its next command. -/
def set (u : Unsteady) : Memory :=
  { u.memory with failingCommits := (u.settings 0).1, failingRollbacks := (u.settings 0).2 }

instance : Endpoint Unsteady where
  perform command u :=
    ((Endpoint.perform command u.set).1,
      ⟨(Endpoint.perform command u.set).2, fun n => u.settings (n + 1)⟩)

theorem perform_begin (u : Unsteady) (isolation : Isolation) :
    (Endpoint.perform (.begin isolation) u).1.outcome = .ok none ∧
      (Endpoint.perform (.begin isolation) u).2.memory.data = u.memory.data ∧
      (Endpoint.perform (.begin isolation) u).2.memory.snapshot = some u.memory.data :=
  ⟨rfl, rfl, rfl⟩

/-- A statement opens and ends nothing. -/
theorem perform_statement (u : Unsteady) (sql : String) (params : List Value) :
    (Endpoint.perform (.execute sql params) u).2.memory.Idle ↔ u.memory.Idle :=
  Iff.rfl

/-- A commit keeps the data and ends the transaction, or is refused and changes nothing. -/
theorem perform_commit (u : Unsteady) :
    (Endpoint.perform .commit u).2.memory.data = u.memory.data ∧
      ((∃ count, (Endpoint.perform .commit u).1.outcome = .ok count ∧
          (Endpoint.perform .commit u).2.memory.Idle) ∨
        ∃ refused, (Endpoint.perform .commit u).1.outcome = .error refused ∧
          (Endpoint.perform .commit u).2.memory.snapshot = u.memory.snapshot) := by
  obtain ⟨hdata, hended⟩ := Memory.perform_commit u.set
  refine ⟨hdata, ?_⟩
  change if (Endpoint.perform .commit u).1.outcome.isOk then
      (Endpoint.perform .commit u).2.memory.Idle
    else (Endpoint.perform .commit u).2.memory.snapshot = u.memory.snapshot at hended
  cases houtcome : (Endpoint.perform .commit u).1.outcome with
  | ok count =>
    rw [houtcome] at hended
    exact .inl ⟨count, rfl, hended⟩
  | error refused =>
    rw [houtcome] at hended
    exact .inr ⟨refused, rfl, hended⟩

/-- A rollback puts the data back and ends the transaction, or is refused and changes nothing. -/
theorem perform_rollback (u : Unsteady) :
    (∃ count, (Endpoint.perform .rollback u).1.outcome = .ok count ∧
        (Endpoint.perform .rollback u).2.memory.Idle ∧
        (Endpoint.perform .rollback u).2.memory.data = u.memory.snapshot.getD u.memory.data) ∨
      ∃ refused, (Endpoint.perform .rollback u).1.outcome = .error refused ∧
        (Endpoint.perform .rollback u).2.memory.snapshot = u.memory.snapshot ∧
        (Endpoint.perform .rollback u).2.memory.data = u.memory.data := by
  simp only [Endpoint.perform, Memory.apply]
  split
  · exact .inr ⟨_, rfl, rfl, rfl⟩
  · exact .inl ⟨none, rfl, ⟨rfl, rfl⟩, rfl⟩

theorem replay_inner (u : Unsteady) {log : List Entry}
    (h : ∀ entry ∈ log, entry.command.isInner = true) :
    (Line.replay u log).memory.snapshot = u.memory.snapshot := by
  induction log generalizing u with
  | nil => rfl
  | cons entry rest ih =>
    obtain ⟨hentry, hrest⟩ := List.forall_mem_cons.mp h
    exact (ih (Endpoint.perform entry.command u).2 hrest).trans (Memory.perform_inner u.set hentry).1

theorem replay_last (u : Unsteady) (log : List Entry) (entry : Entry) :
    Line.replay u (log ++ [entry]) = (Endpoint.perform entry.command (Line.replay u log)).2 :=
  Line.replay_append u log [entry]

theorem commit_last {u : Unsteady} {others : List Entry} {commit : Entry}
    (hcommit : commit.command = .commit)
    (hreply : commit.reply = (Endpoint.perform commit.command (Line.replay u others)).1) :
    (Line.replay u (others ++ [commit])).memory.data = (Line.replay u others).memory.data ∧
      ((∃ count, commit.reply.outcome = .ok count ∧
          (Line.replay u (others ++ [commit])).memory.Idle) ∨
        ∃ refused, commit.reply.outcome = .error refused ∧
          (Line.replay u (others ++ [commit])).memory.snapshot =
            (Line.replay u others).memory.snapshot) := by
  rw [replay_last, hreply, hcommit]
  exact (Line.replay u others).perform_commit

theorem rollback_last {u : Unsteady} {others : List Entry} {rollback : Entry}
    (hrollback : rollback.command = .rollback)
    (hreply : rollback.reply = (Endpoint.perform rollback.command (Line.replay u others)).1) :
    (∃ count, rollback.reply.outcome = .ok count ∧
        (Line.replay u (others ++ [rollback])).memory.Idle ∧
        (Line.replay u (others ++ [rollback])).memory.data =
          (Line.replay u others).memory.snapshot.getD (Line.replay u others).memory.data) ∨
      ∃ refused, rollback.reply.outcome = .error refused ∧
        (Line.replay u (others ++ [rollback])).memory.snapshot =
          (Line.replay u others).memory.snapshot ∧
        (Line.replay u (others ++ [rollback])).memory.data = (Line.replay u others).memory.data := by
  rw [replay_last, hreply, hrollback]
  exact (Line.replay u others).perform_rollback

end Unsteady

/-- The last command is a rollback, and it has been refused. -/
def Stuck (sent : List Entry) : Prop :=
  ∃ others rollback refused, sent = others ++ [rollback] ∧ rollback.command = .rollback ∧
    rollback.reply.outcome = .error refused

theorem stuck_append_singleton {others : List Entry} {last : Entry} :
    Stuck (others ++ [last]) ↔
      last.command = .rollback ∧ ∃ refused, last.reply.outcome = .error refused := by
  constructor
  · rintro ⟨others', rollback, refused, hsent, hrollback, hrefused⟩
    obtain ⟨-, hlast⟩ := List.append_inj' hsent rfl
    cases hlast
    exact ⟨hrollback, refused, hrefused⟩
  · rintro ⟨hrollback, refused, hrefused⟩
    exact ⟨others, last, refused, rfl, hrollback, hrefused⟩

/-- What a transaction that has sent these commands, and has come to this result, leaves of what it has
found. -/
inductive Transacted (u : Unsteady) : List Entry → Except Error α → Prop where
  | committed {others : List Entry} {commit : Entry} {value : α} (hcommit : commit.command = .commit)
      (hidle : (Line.replay u (others ++ [commit])).memory.Idle)
      (hdata : (Line.replay u (others ++ [commit])).memory.data = (Line.replay u others).memory.data) :
      Transacted u (others ++ [commit]) (.ok value)
  | restored {others : List Entry} {rollback : Entry} {failure : Error}
      (hrollback : rollback.command = .rollback) (haccepted : rollback.reply.outcome.isOk = true)
      (hidle : (Line.replay u (others ++ [rollback])).memory.Idle)
      (hdata : (Line.replay u (others ++ [rollback])).memory.data = u.memory.data) :
      Transacted u (others ++ [rollback]) (.error failure)
  /-- The data stay as the commands before have left them, and the transaction stays open. -/
  | stuck {others : List Entry} {rollback : Entry} {refused failure : Error}
      (hrollback : rollback.command = .rollback) (hrefused : rollback.reply.outcome = .error refused)
      (hopen : (Line.replay u (others ++ [rollback])).memory.snapshot = some u.memory.data)
      (hdata : (Line.replay u (others ++ [rollback])).memory.data =
        (Line.replay u others).memory.data) :
      Transacted u (others ++ [rollback]) (.error (.rollbackFailed refused failure))

namespace Transacted

variable {u : Unsteady} {sent : List Entry} {result : Except Error α}

/-- Attempts before that have left the data as they were. -/
theorem after {tried : List Entry} (h : Transacted (Line.replay u tried) sent result)
    (hdata : (Line.replay u tried).memory.data = u.memory.data) :
    Transacted u (tried ++ sent) result := by
  cases h with
  | committed hcommit hidle hkept =>
    simp only [← Line.replay_append, ← List.append_assoc] at hidle hkept ⊢
    exact .committed hcommit hidle hkept
  | restored hrollback haccepted hidle hrestored =>
    simp only [← Line.replay_append, ← List.append_assoc] at hidle hrestored ⊢
    exact .restored hrollback haccepted hidle (hrestored.trans hdata)
  | stuck hrollback hrefused hopen hkept =>
    simp only [← Line.replay_append, ← List.append_assoc] at hopen hkept ⊢
    exact .stuck hrollback hrefused (hopen.trans (congrArg some hdata)) hkept

/-- A transaction stays open exactly if it is stuck. -/
theorem open_iff (h : Transacted u sent result) :
    ¬ (Line.replay u sent).memory.Idle ↔ Stuck sent := by
  cases h with
  | committed hcommit hidle =>
    rw [stuck_append_singleton, hcommit]
    exact iff_of_false (not_not_intro hidle) nofun
  | restored hrollback haccepted hidle =>
    refine iff_of_false (not_not_intro hidle) ?_
    rw [stuck_append_singleton]
    rintro ⟨-, refused, hrefused⟩
    rw [hrefused] at haccepted
    cases haccepted
  | stuck hrollback hrefused hopen =>
    refine iff_of_true ?_ (stuck_append_singleton.mpr ⟨hrollback, _, hrefused⟩)
    intro hidle
    cases hopen.symm.trans hidle.1

/-- A rollback of an open transaction restores the data, or is refused and changes nothing. -/
theorem rolled_back {others : List Entry} {rollback : Entry} (failure : Error)
    (hrollback : rollback.command = .rollback)
    (hreply : rollback.reply = (Endpoint.perform rollback.command (Line.replay u others)).1)
    (hopen : (Line.replay u others).memory.snapshot = some u.memory.data) :
    Transacted u (others ++ [rollback])
        (.error (undone rollback.reply.outcome failure) : Except Error α) ∧
      (rollback.reply.outcome.isOk = true →
        (Line.replay u (others ++ [rollback])).memory.data = u.memory.data) := by
  rcases Unsteady.rollback_last hrollback hreply with
    ⟨count, houtcome, hidle, hdata⟩ | ⟨refused, houtcome, hkept, hdata⟩
  · rw [hopen, Option.getD_some] at hdata
    have haccepted : rollback.reply.outcome.isOk = true := by rw [houtcome]; rfl
    refine ⟨?_, fun _ => hdata⟩
    rw [houtcome]
    exact .restored hrollback haccepted hidle hdata
  · rw [houtcome]
    refine ⟨.stuck hrollback houtcome (hkept.trans hopen) hdata, ?_⟩
    intro haccepted
    cases haccepted

end Transacted

/-- What one attempt leaves. If there may be another one, the data are as they were. -/
theorem Executor.Attempted.transacted {isolation : Isolation}
    {ran : List Entry → Except Error α → Prop} {u : Unsteady} {round : List Entry}
    {p : Except Error α × Bool} (h : Attempted isolation ran round p)
    (hran : ∀ sent result, ran sent result → ∀ entry ∈ sent, entry.command.isInner = true)
    (hrecorded : Line.Recorded u round) :
    Transacted u round p.1 ∧
      (p.2 = true → (Line.replay u round).memory.data = u.memory.data) := by
  cases h with
  | @refused opening refusal hopening hrefused =>
    have haccepted := (u.perform_begin isolation).1
    rw [← hopening, ← hrecorded.1, hrefused] at haccepted
    cases haccepted
  | @ended opening _ sent closing _ _ hopening haccepted hbody hclosing =>
    rw [← List.cons_append] at hrecorded ⊢
    obtain ⟨-, hrecorded⟩ := Line.recorded_append.mp hrecorded
    have hopen : (Line.replay u (opening :: sent)).memory.snapshot = some u.memory.data := by
      have hbegun := (u.perform_begin isolation).2.2
      rw [← hopening] at hbegun
      exact (Unsteady.replay_inner _ (hran _ _ hbody)).trans hbegun
    cases hclosing with
    | @committed value commit count hcommit hcounted =>
      obtain ⟨hdata, ⟨-, -, hidle⟩ | ⟨refused, hrefused, -⟩⟩ :=
        Unsteady.commit_last hcommit hrecorded.1
      · exact ⟨.committed hcommit hidle hdata, nofun⟩
      · cases hcounted.symm.trans hrefused
    | @refused value commit rollback refusal hcommit hrefused hrollback =>
      obtain ⟨hcommitted, hrolled, -⟩ := hrecorded
      rw [← Unsteady.replay_last] at hrolled
      obtain ⟨-, ⟨count, hcounted, -⟩ | ⟨-, -, hkept⟩⟩ := Unsteady.commit_last hcommit hcommitted
      · cases hrefused.symm.trans hcounted
      obtain ⟨hended, hrestored⟩ :=
        Transacted.rolled_back (α := α) refusal hrollback hrolled (hkept.trans hopen)
      rw [List.append_cons]
      refine ⟨hended, ?_⟩
      intro hagain
      exact hrestored (Bool.and_eq_true_iff.mp hagain).1
    | @failed failure rollback hrollback =>
      obtain ⟨hended, hrestored⟩ :=
        Transacted.rolled_back (α := α) failure hrollback hrecorded.1 hopen
      refine ⟨hended, ?_⟩
      intro hagain
      exact hrestored (Bool.and_eq_true_iff.mp hagain).1

/-- Attempts that are followed by another one leave the data as they were. -/
theorem Executor.replay_tried {isolation : Isolation} {ran : List Entry → Except Error α → Prop}
    {tried : List (List Entry)} {u : Unsteady}
    (htried : ∀ round ∈ tried, ∃ outcome, Attempted isolation ran round (outcome, true))
    (hran : ∀ sent result, ran sent result → ∀ entry ∈ sent, entry.command.isInner = true)
    (hrecorded : Line.Recorded u tried.flatten) :
    (Line.replay u tried.flatten).memory.data = u.memory.data := by
  induction tried generalizing u with
  | nil => rfl
  | cons round rest ih =>
    obtain ⟨⟨outcome, hround⟩, hrest⟩ := List.forall_mem_cons.mp htried
    rw [List.flatten_cons] at hrecorded ⊢
    obtain ⟨hfirst, hlater⟩ := Line.recorded_append.mp hrecorded
    rw [Line.replay_append, ih hrest hlater]
    exact (hround.transacted hran hfirst).2 rfl

/-- What a call leaves of what it has found. A statement opens and ends nothing. -/
def Call.Leaves (u : Unsteady) (sent : List Entry) : {β : Type} → Call σ β → β → Prop
  | _, .transaction _ _ _, result => Transacted u sent result
  | _, _, _ => (∀ entry ∈ sent, ∃ sql params, entry.command = .execute sql params) ∧
    ((Line.replay u sent).memory.Idle ↔ u.memory.Idle)

theorem Call.Sends.leaves {e : Executor} {held : List Nat} {call : Call σ β} {sent : List Entry}
    {result : β} {u : Unsteady} (h : call.Sends e held sent result) (hrecorded : Line.Recorded u sent) :
    call.Leaves u sent result := by
  cases h with
  | execute hcommand | fetchOne hcommand | run _ hcommand | stream hcommand =>
    refine ⟨List.forall_mem_singleton.mpr ⟨_, _, hcommand⟩, ?_⟩
    rw [← List.nil_append [_], Unsteady.replay_last, hcommand]
    exact u.perform_statement _ _
  | misdirected => exact ⟨List.forall_mem_nil _, Iff.rfl⟩
  | transaction htried hlast =>
    obtain ⟨hearlier, hlater⟩ := Line.recorded_append.mp hrecorded
    have hdata := Executor.replay_tried htried Task.Ran.inner hearlier
    exact (hlast.transacted Task.Ran.inner hlater).1.after hdata

/-- Something is open after a transaction that is stuck, and after a statement if it has been open
before. -/
theorem Call.Leaves.open_iff {call : Call σ β} {sent : List Entry} {result : β} {u : Unsteady}
    (h : call.Leaves u sent result) :
    ¬ (Line.replay u sent).memory.Idle ↔
      Stuck sent ∨ call.isTransaction = false ∧ ¬ u.memory.Idle := by
  cases call with
  | transaction => simpa [isTransaction] using Transacted.open_iff h
  | _ =>
    obtain ⟨hstatements, hidle⟩ := h
    have hstuck : ¬ Stuck sent := by
      rintro ⟨others, rollback, refused, rfl, hrollback, -⟩
      obtain ⟨sql, params, hcommand⟩ :=
        hstatements rollback (List.mem_append_right _ (List.mem_singleton_self _))
      cases hrollback.symm.trans hcommand
    simp [isTransaction, hstuck, hidle]

/-- A call that has returned. -/
structure Returned (σ κ : Type) where
  {β : Type}
  call : Call σ β
  result : β
  found : World σ κ
  left : World σ κ

namespace Returned

variable {κ : Type}

/-- The commands of the call. -/
def sent (line : Nat) (r : Returned σ κ) : List Entry :=
  (r.left.lines line).history.drop (r.found.lines line).history.length

/-- The last transaction that has been called is stuck. -/
def Pending (line : Nat) (calls : List (Returned σ κ)) : Prop :=
  ∃ before last between, calls = before ++ last :: between ∧ Stuck (last.sent line) ∧
    ∀ r ∈ between, r.call.isTransaction = false

/-- The world after some calls. -/
def after (w : World σ κ) (calls : List (Returned σ κ)) : World σ κ :=
  calls.foldl (fun _ r => r.left) w

/-- Calls that are made one after the other. -/
def InTurn [Endpoint κ] (e : Executor) (held : List Nat) : World σ κ → List (Returned σ κ) → Prop
  | _, [] => True
  | w, r :: rest => r.found = w ∧ r.call.Proper e held ∧
    Reaches (fun _ => 0) (r.call.work e held, r.found) (.done r.result, r.left) ∧
    InTurn e held r.left rest

theorem inTurn_append [Endpoint κ] {e : Executor} {held : List Nat} {w : World σ κ}
    {calls rest : List (Returned σ κ)} :
    InTurn e held w (calls ++ rest) ↔ InTurn e held w calls ∧ InTurn e held (after w calls) rest := by
  induction calls generalizing w with
  | nil => simp [InTurn, after]
  | cons r calls ih =>
    simp only [List.cons_append, InTurn, ih, and_assoc]
    rfl

theorem pending_append_singleton {line : Nat} {calls : List (Returned σ κ)} {r : Returned σ κ} :
    Pending line (calls ++ [r]) ↔
      Stuck (r.sent line) ∨ r.call.isTransaction = false ∧ Pending line calls := by
  constructor
  · rintro ⟨before, last, between, hcalls, hstuck, hbetween⟩
    rcases List.eq_nil_or_concat between with rfl | ⟨between, other, rfl⟩
    · obtain ⟨-, hlast⟩ := List.append_inj' hcalls rfl
      cases hlast
      exact .inl hstuck
    · rw [List.concat_eq_append] at hcalls hbetween
      rw [← List.cons_append, ← List.append_assoc] at hcalls
      obtain ⟨rfl, hlast⟩ := List.append_inj' hcalls rfl
      cases hlast
      obtain ⟨hearlier, hother⟩ := List.forall_mem_append.mp hbetween
      exact .inr ⟨hother r (List.mem_singleton_self r), before, last, between, rfl, hstuck, hearlier⟩
  · rintro (hstuck | ⟨hstatement, before, last, between, rfl, hstuck, hbetween⟩)
    · exact ⟨calls, r, [], rfl, hstuck, List.forall_mem_nil _⟩
    · refine ⟨before, last, between ++ [r], by simp, hstuck, ?_⟩
      exact List.forall_mem_append.mpr ⟨hbetween, List.forall_mem_singleton.mpr hstatement⟩

/-- What there is to say about a call: what it has sent and come to, how the connection has answered, and
what it has left. -/
structure Accounted (e : Executor) (held : List Nat) (r : Returned σ Unsteady) : Prop where
  sends : r.call.Sends e held (r.sent e.line) r.result
  recorded : Line.Recorded (r.found.lines e.line).endpoint (r.sent e.line)
  endpoint : (r.left.lines e.line).endpoint =
    Line.replay (r.found.lines e.line).endpoint (r.sent e.line)
  leaves : r.call.Leaves (r.found.lines e.line).endpoint (r.sent e.line) r.result

variable {e : Executor} {held : List Nat} {r : Returned σ Unsteady} {start : Unsteady}

theorem accounted (hheld : e.line ∉ held) (hproper : r.call.Proper e held)
    (hrun : Reaches (fun _ => 0) (r.call.work e held, r.found) (.done r.result, r.left))
    (hfree : (r.found.lines e.line).Free start) :
    r.Accounted e held ∧ (r.left.lines e.line).Free start := by
  obtain ⟨sent, hsends, hleft, hhistory⟩ := Call.work_sends hheld hproper hrun hfree
  have hsent : r.sent e.line = sent := by rw [Returned.sent, hhistory, List.drop_left]
  have hfound := hfree.ordered.replay
  have hended := hleft.ordered.replay
  have hrecorded := hleft.ordered.recorded
  rw [hhistory, Line.recorded_append, ← hfound] at hrecorded
  rw [hhistory, Line.replay_append, ← hfound] at hended
  subst hsent
  exact ⟨⟨hsends, hrecorded.2, hended, hsends.leaves hrecorded.2⟩, hleft⟩

/-- After some calls something is open exactly if the last transaction among them has been stuck. -/
theorem InTurn.after {w : World σ Unsteady} {calls : List (Returned σ Unsteady)}
    (h : InTurn e held w calls) (hheld : e.line ∉ held) (hfree : (w.lines e.line).Free start)
    (hidle : (w.lines e.line).endpoint.memory.Idle) :
    ((after w calls).lines e.line).Free start ∧
      (¬ ((after w calls).lines e.line).endpoint.memory.Idle ↔ Pending e.line calls) := by
  induction calls using List.reverseRecOn with
  | nil =>
    refine ⟨hfree, iff_of_false (not_not_intro hidle) ?_⟩
    rintro ⟨before, last, between, hcalls, -⟩
    exact List.append_ne_nil_of_right_ne_nil before (List.cons_ne_nil last between) hcalls.symm
  | append_singleton calls r ih =>
    obtain ⟨hcalls, hfound, hproper, hrun, -⟩ := inTurn_append.mp h
    obtain ⟨hbefore, hopen⟩ := ih hcalls
    rw [← hfound] at hbefore hopen
    obtain ⟨haccounted, hleft⟩ := accounted hheld hproper hrun hbefore
    have hafter : Returned.after w (calls ++ [r]) = r.left := List.foldl_append
    rw [hafter, pending_append_singleton, ← hopen, haccounted.endpoint]
    exact ⟨hleft, haccounted.leaves.open_iff⟩

end Returned

/-- **What transactions leave behind.** Calls are made one after the other on a connection in memory
where any commit and any rollback may fail, and return. A transaction that succeeds keeps what its
commands have made of what it has found, and nothing is open afterwards. One that fails leaves the data
that it has found, and nothing is open, unless its rollback is refused, which is told with its failure.
Then its data stay, and it stays open. So a call finds something open exactly if the last transaction
before it has been stuck like that; what it finds is then what that transaction has made, and a
transaction that succeeds afterwards keeps it. -/
theorem calls_accounted {e : Executor} {held : List Nat} {w : World σ Unsteady} {start : Unsteady}
    {calls earlier later : List (Returned σ Unsteady)} {r : Returned σ Unsteady}
    (hheld : e.line ∉ held) (hfree : (w.lines e.line).Free start)
    (hidle : (w.lines e.line).endpoint.memory.Idle) (h : Returned.InTurn e held w calls)
    (hcalls : calls = earlier ++ r :: later) :
    r.found = Returned.after w earlier ∧ r.Accounted e held ∧
      (¬ (r.found.lines e.line).endpoint.memory.Idle ↔ Returned.Pending e.line earlier) := by
  subst hcalls
  obtain ⟨hearlier, hfound, hproper, hrun, -⟩ := Returned.inTurn_append.mp h
  obtain ⟨hbefore, hopen⟩ := hearlier.after hheld hfree hidle
  rw [← hfound] at hbefore hopen
  exact ⟨hfound, (Returned.accounted hheld hproper hrun hbefore).1, hopen⟩

/-- The third command is to be refused, if it is a rollback. -/
def unsteady : Unsteady :=
  ⟨{}, fun n => (none, n == 2)⟩

/-- It fails after a write. -/
def debited : Program Unit Unit :=
  .execute "SET a" [.int 1] fun _ => .done (.error .objectNotFound)

def noted : Program Unit Unit :=
  .execute "SET b" [.int 2] fun rows => .done (rows.map fun _ => ())

theorem calls_accounted_stuck :
    let e : Executor := ⟨0, none⟩
    let first : Call Unit (Except Error Unit) := .transaction 1 {} debited.work
    let second : Call Unit (Except Error Unit) := .transaction 1 {} noted.work
    let w : World Unit Unsteady := ⟨(), fun _ => { endpoint := unsteady }⟩
    let w₁ := ((first.work e []).start 8 w).2
    let w₂ := ((second.work e []).start 8 w₁).2
    let failure := Error.rollbackFailed
      (Memory.failure "08006" "connection lost during rollback") .objectNotFound
    let r : Returned Unit Unsteady := ⟨second, .ok (), w₁, w₂⟩
    ((w₂.lines 0).history.map fun entry => (entry.command.entry, entry.reply.outcome.isOk)) =
        [("begin", true), ("exec SET a", true), ("rollback", false), ("begin", true),
          ("exec SET b", true), ("commit", true)] ∧
      r.Accounted e [] ∧ Returned.Pending 0 [⟨first, .error failure, w, w₁⟩] := by
  intro e first second w w₁ w₂ failure r
  have hrest : w.AtRest := fun _ => ⟨rfl, List.forall_mem_nil _⟩
  have hrest₁ : w₁.AtRest := Task.start_atRest 8 _ w hrest
  have hfirst : Reaches (fun _ => 0) (first.work e [], w) (.done (.error failure), w₁) :=
    (Task.start_reaches 8 _ w hrest).returns (by decide +kernel)
  have hsecond : Reaches (fun _ => 0) (second.work e [], w₁) (.done (.ok ()), w₂) :=
    (Task.start_reaches 8 _ w₁ hrest₁).returns (by decide +kernel)
  obtain ⟨-, haccounted, hopen⟩ := @calls_accounted Unit e [] w unsteady
    [⟨first, .error failure, w, w₁⟩, r] [⟨first, .error failure, w, w₁⟩] [] r List.not_mem_nil
    (Line.free_idle unsteady 0) ⟨rfl, rfl⟩
    ⟨rfl, debited.work_calls _ fun _ => rfl, hfirst, rfl, noted.work_calls _ fun _ => rfl, hsecond,
      trivial⟩ rfl
  have hsome : (w₁.lines 0).endpoint.memory.snapshot.isSome = true := by decide +kernel
  refine ⟨by decide +kernel, haccounted, hopen.mp ?_⟩
  rintro ⟨hnone, -⟩
  rw [hnone] at hsome
  cases hsome

/-- What the first transaction has written is committed by the second one. -/
theorem failed_writes_committed :
    let first := (⟨0, none⟩ : Executor).transaction [] 1 {} debited.work
    let second := (⟨0, none⟩ : Executor).transaction [] 1 {} noted.work
    let w : World Unit Unsteady := ⟨(), fun _ => { endpoint := unsteady }⟩
    ∃ failure w₁ w₂, Reaches (fun _ => 0) (first, w) (.done (.error failure), w₁) ∧
      Reaches (fun _ => 0) (second, w₁) (.done (.ok ()), w₂) ∧
      ((w₂.lines 0).history.map fun entry => (entry.command.entry, entry.reply.outcome.isOk)) =
        [("begin", true), ("exec SET a", true), ("rollback", false), ("begin", true),
          ("exec SET b", true), ("commit", true)] ∧
      ((w₂.lines 0).endpoint.memory.committed "a").isSome = true := by
  intro first second w
  have hrest : w.AtRest := fun _ => ⟨rfl, List.forall_mem_nil _⟩
  let failure := Error.rollbackFailed
    (Memory.failure "08006" "connection lost during rollback") .objectNotFound
  refine ⟨failure, _, _, (Task.start_reaches 8 first w hrest).returns (by decide +kernel),
    (Task.start_reaches 8 second _ (Task.start_atRest 8 first w hrest)).returns (by decide +kernel),
    by decide +kernel, by decide +kernel⟩

end Polystore.Transaction
