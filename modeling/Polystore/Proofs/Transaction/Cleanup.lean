import Mathlib.Data.List.Induction
import Polystore.Proofs.Transaction.Conformance
import Polystore.Proofs.Transaction.Memory
import Polystore.Proofs.Transaction.Sessions

/-!
Callers who go away are cleaned up after. What a connection in memory makes of the commands of a
session follows from the phase that the session has come to. Main statement: whoever stops wherever
it is, the next session finds no transaction open, and of every transaction before it either all or
nothing in the data.
-/

namespace Polystore.Transaction

namespace Memory

/-- A commit that has succeeded. -/
def Accepted (entry : Entry) : Prop :=
  entry.command = .commit ∧ entry.reply.outcome.isOk = true

/-- A session leaves the data as they were, and none of its commits has succeeded. -/
def Untouched (m : Memory) (log : List Entry) : Prop :=
  (∀ entry ∈ log, ¬ Accepted entry) ∧ (Line.replay m log).data = m.data

/-- One commit of a session has succeeded. The data are what the commands since the start of that
transaction have made of the data as they were before the session. -/
def Kept (m : Memory) (log : List Entry) : Prop :=
  ∃ tried first attempt last after isolation,
    log = tried ++ first :: (attempt ++ last :: after) ∧
      first.command = .begin isolation ∧ Accepted last ∧ Untouched m tried ∧
      (∀ entry ∈ attempt, ¬ Accepted entry) ∧ (∀ entry ∈ after, entry.command = .rollback) ∧
      (Line.replay m log).data = (Line.replay m (tried ++ first :: attempt)).data

/-- A session of one statement, or of transactions of which all or nothing is in the data. -/
def AllOrNothing (m : Memory) (log : List Entry) : Prop :=
  (∃ entry sql params, log = [entry] ∧ entry.command = .execute sql params) ∨
    Untouched m log ∨ Kept m log

/-- What is true of a connection after the commands of one session, by the phase. -/
def Told (m : Memory) (log : List Entry) : Phase → Prop
  | .fresh => log = []
  | .stated => (Line.replay m log).Idle ∧
      ∃ entry sql params, log = [entry] ∧ entry.command = .execute sql params
  | .idle => (Line.replay m log).Idle ∧ Untouched m log
  | .begun => (Line.replay m log).snapshot = some m.data ∧
      ∃ tried first attempt isolation, log = tried ++ first :: attempt ∧
        first.command = .begin isolation ∧ Untouched m tried ∧ ∀ entry ∈ attempt, ¬ Accepted entry
  | .committed => (Line.replay m log).Idle ∧ Kept m log
  | .broken => True

theorem replay_append_one (m : Memory) (log : List Entry) (entry : Entry) :
    Line.replay m (log ++ [entry]) =
      (Endpoint.perform entry.command (Line.replay m log)).2 :=
  Line.replay_append m log [entry]

theorem replay_failingRollbacks (m : Memory) (log : List Entry) :
    (Line.replay m log).failingRollbacks = m.failingRollbacks := by
  induction log generalizing m with
  | nil => rfl
  | cons entry rest ih => exact (ih _).trans (perform_failingRollbacks m entry.command)

/-- A command inside a transaction leaves its start alone, and the failures that are planned. -/
theorem perform_inner (m : Memory) {command : Command} (h : command.isInner = true) :
    (Endpoint.perform command m).2.snapshot = m.snapshot ∧
      (Endpoint.perform command m).2.failingCommits = m.failingCommits := by
  cases command with
  | begin isolation => cases h
  | commit => cases h
  | rollback => cases h
  | execute sql params => exact ⟨rfl, rfl⟩
  | savepoint name => exact ⟨rfl, rfl⟩
  | release name =>
    simp only [Endpoint.perform, apply]
    split <;> exact ⟨rfl, rfl⟩
  | rollbackTo name =>
    simp only [Endpoint.perform, apply]
    split <;> exact ⟨rfl, rfl⟩

theorem not_accepted {entry : Entry} (h : entry.command ≠ .commit) : ¬ Accepted entry :=
  fun haccepted => h haccepted.1

theorem not_accepted_append {log : List Entry} {entry : Entry} (hlog : ∀ e ∈ log, ¬ Accepted e)
    (hentry : ¬ Accepted entry) : ∀ e ∈ log ++ [entry], ¬ Accepted e := by
  intro e he
  rcases List.mem_append.mp he with he | he
  · exact hlog e he
  · exact List.mem_singleton.mp he ▸ hentry

theorem told_begin {m : Memory} {log : List Entry} (h : Untouched m log) {entry : Entry}
    {isolation : Isolation} (hcommand : entry.command = .begin isolation)
    (hreply : entry.reply = (Endpoint.perform entry.command (Line.replay m log)).1) :
    Told m (log ++ [entry]) (if entry.reply.outcome.isOk then .begun else .idle) := by
  obtain ⟨hok, hsnapshot⟩ := perform_begin (Line.replay m log) isolation
  rw [hreply, hcommand, if_pos hok]
  refine ⟨?_, log, entry, [], isolation, rfl, hcommand, h,
    List.forall_mem_nil _⟩
  rw [replay_append_one, hcommand, hsnapshot, h.2]

theorem told_rollback {m : Memory} {log : List Entry} (hlog : ∀ entry ∈ log, ¬ Accepted entry)
    (hdata : (Line.replay m log).snapshot.getD (Line.replay m log).data = m.data)
    (hrollbacks : (Line.replay m log).failingRollbacks = false) {entry : Entry}
    (hcommand : entry.command = .rollback) : Told m (log ++ [entry]) .idle := by
  obtain ⟨hrestored, hidle⟩ := perform_rollback _ hrollbacks
  have hlast := replay_append_one m log entry
  rw [hcommand] at hlast
  refine ⟨hlast ▸ hidle, not_accepted_append hlog (not_accepted (by simp [hcommand])), ?_⟩
  rw [hlast, hrestored, hdata]

/-- Inside a transaction it goes on, is committed, or is rolled back. -/
theorem told_begun {m : Memory} {log : List Entry} (h : Told m log .begun)
    (hrollbacks : (Line.replay m log).failingRollbacks = false) {entry : Entry}
    (hreply : entry.reply = (Endpoint.perform entry.command (Line.replay m log)).1) :
    Told m (log ++ [entry]) (Phase.begun.next entry.command entry.reply) := by
  obtain ⟨hsnapshot, tried, first, attempt, isolation, hsplit, hfirst, htried, hattempt⟩ := h
  have hlast := replay_append_one m log entry
  have hbegun (hentry : ¬ Accepted entry)
      (hkept : (Line.replay m (log ++ [entry])).snapshot = (Line.replay m log).snapshot) :
      Told m (log ++ [entry]) .begun :=
    ⟨hkept.trans hsnapshot, tried, first, attempt ++ [entry], isolation, by simp [hsplit], hfirst,
      htried, not_accepted_append hattempt hentry⟩
  have hinner (hcommand : entry.command.isInner = true) : Told m (log ++ [entry]) .begun := by
    refine hbegun (not_accepted fun hcommit => ?_) ?_
    · rw [hcommit] at hcommand
      cases hcommand
    · rw [hlast, (perform_inner _ hcommand).1]
  have hlog : ∀ e ∈ log, ¬ Accepted e := by
    intro e he
    rw [hsplit] at he
    rcases List.mem_append.mp he with he | he
    · exact htried.1 e he
    rcases List.mem_cons.mp he with rfl | he
    · exact not_accepted (by simp [hfirst])
    · exact hattempt e he
  cases hcommand : entry.command with
  | begin again => trivial
  | execute sql params => exact hinner (by rw [hcommand]; rfl)
  | savepoint name => exact hinner (by rw [hcommand]; rfl)
  | release name => exact hinner (by rw [hcommand]; rfl)
  | rollbackTo name => exact hinner (by rw [hcommand]; rfl)
  | rollback => exact told_rollback hlog (by rw [hsnapshot]; rfl) hrollbacks hcommand
  | commit =>
    obtain ⟨hdata, hcommit⟩ := perform_commit (Line.replay m log)
    rw [hcommand] at hreply hlast
    rw [← hreply] at hcommit
    change Told m (log ++ [entry]) (if entry.reply.outcome.isOk then .committed else .begun)
    split at hcommit
    · next hok =>
      rw [if_pos hok]
      refine ⟨hlast ▸ hcommit, tried, first, attempt, entry, [], isolation, by simp [hsplit], hfirst,
        ⟨hcommand, hok⟩, htried, hattempt,
        List.forall_mem_nil _, ?_⟩
      rw [hlast, hdata, hsplit]
    · next hfailed =>
      rw [if_neg hfailed]
      exact hbegun (fun haccepted => hfailed haccepted.2) (hlast ▸ hcommit)

theorem Told.next {m : Memory} {log : List Entry} {p : Phase} (h : Told m log p)
    (hidle : m.Idle) (hrollbacks : m.failingRollbacks = false) {entry : Entry}
    (hreply : entry.reply = (Endpoint.perform entry.command (Line.replay m log)).1) :
    Told m (log ++ [entry]) (p.next entry.command entry.reply) := by
  have hlast := replay_append_one m log entry
  have hroll : (Line.replay m log).failingRollbacks = false :=
    (replay_failingRollbacks m log).trans hrollbacks
  cases p with
  | broken => trivial
  | stated => trivial
  | fresh =>
    obtain rfl : log = [] := h
    have huntouched : Untouched m [] := ⟨List.forall_mem_nil _, rfl⟩
    cases hcommand : entry.command with
    | execute sql params =>
      rw [hcommand] at hlast
      exact ⟨by rw [hlast]; exact hidle, entry, sql, params, rfl, hcommand⟩
    | begin isolation => exact told_begin huntouched hcommand hreply
    | rollback => exact told_rollback huntouched.1 (congrArg (·.getD m.data) hidle.1) hroll hcommand
    | _ => trivial
  | idle =>
    obtain ⟨hnow, huntouched⟩ := h
    cases hcommand : entry.command with
    | begin isolation => exact told_begin huntouched hcommand hreply
    | rollback =>
      exact told_rollback huntouched.1 (by rw [hnow.1]; exact huntouched.2) hroll hcommand
    | _ => trivial
  | begun => exact told_begun h hroll hreply
  | committed =>
    cases hcommand : entry.command with
    | rollback =>
      obtain ⟨hnow, tried, first, attempt, last, after, isolation, hsplit, hfirst, haccepted, htried,
        hattempt, hafter, hdata⟩ := h
      obtain ⟨hrestored, hidle'⟩ := perform_rollback _ hroll
      rw [hcommand] at hlast
      refine ⟨hlast ▸ hidle', tried, first, attempt, last, after ++ [entry], isolation,
        by simp [hsplit], hfirst, haccepted, htried, hattempt, ?_, ?_⟩
      · intro e he
        rcases List.mem_append.mp he with he | he
        · exact hafter e he
        · exact List.mem_singleton.mp he ▸ hcommand
      · rw [hlast, hrestored, hnow.1]
        exact hdata
    | _ => trivial

theorem told_after {m : Memory} (hidle : m.Idle) (hrollbacks : m.failingRollbacks = false)
    {log : List Entry} (hrecorded : Line.Recorded m log) : Told m log (Phase.fresh.after log) := by
  induction log using List.reverseRecOn with
  | nil => rfl
  | append_singleton log entry ih =>
    obtain ⟨hlog, hentry, -⟩ := Line.recorded_append.mp hrecorded
    rw [Phase.after, List.foldl_append]
    exact (ih hlog).next hidle hrollbacks hentry

/-- A session that has no transaction open leaves none behind, and all or nothing in the data. -/
theorem Told.closed {m : Memory} {log : List Entry} {p : Phase} (h : Told m log p) (hidle : m.Idle)
    (hp : p.Fits false) : (Line.replay m log).Idle ∧ AllOrNothing m log := by
  cases p with
  | fresh =>
    obtain rfl : log = [] := h
    exact ⟨hidle, .inr (.inl ⟨List.forall_mem_nil _, rfl⟩)⟩
  | stated => exact ⟨h.1, .inl h.2⟩
  | idle => exact ⟨h.1, .inr (.inl h.2)⟩
  | begun => exact absurd rfl hp.2
  | committed => exact ⟨h.1, .inr (.inr h.2)⟩
  | broken => exact absurd rfl hp.1

/-- Sessions one after the other, none of which has a transaction open at the end. -/
theorem sessions_closed {m : Memory} (hidle : m.Idle) (hrollbacks : m.failingRollbacks = false)
    {logs : Nat → List Entry} {n : Nat} (hrecorded : Line.Recorded m ((List.range n).flatMap logs))
    (hclosed : ∀ s < n, (Phase.fresh.after (logs s)).Fits false) :
    (Line.replay m ((List.range n).flatMap logs)).Idle ∧
      ∀ s < n, AllOrNothing (Line.replay m ((List.range s).flatMap logs)) (logs s) := by
  induction n with
  | zero => exact ⟨hidle, fun _ hlt => absurd hlt (Nat.not_lt_zero _)⟩
  | succ n ih =>
    rw [List.range_succ, List.flatMap_append, List.flatMap_singleton] at hrecorded ⊢
    obtain ⟨hearlier, hlast⟩ := Line.recorded_append.mp hrecorded
    obtain ⟨hnow, hall⟩ := ih hearlier fun s hs => hclosed s (Nat.lt_succ_of_lt hs)
    have hroll := (replay_failingRollbacks m ((List.range n).flatMap logs)).trans hrollbacks
    obtain ⟨hidle', hone⟩ := (told_after hnow hroll hlast).closed hnow (hclosed n (Nat.lt_succ_self n))
    rw [Line.replay_append]
    refine ⟨hidle', fun s hs => ?_⟩
    rcases Nat.lt_succ_iff_lt_or_eq.mp hs with hs | rfl
    · exact hall s hs
    · exact hone

end Memory

/-- **Abandoned callers are cleaned up after.** Callers make any calls of executors, any of which may be
given up at any time, and go on in any order; rollbacks do not fail. Then the first command of a
session finds no transaction open, and of each session before it all or nothing in the data. -/
theorem abandoned_calls_leave_nothing_open {σ α : Type} {line issued : Nat}
    {callers : List (Task σ α)} (hcallers : ∀ caller ∈ callers, caller.Calls line false)
    {w w' : World σ Memory} {m : Memory} (hm : m.Idle) (hrollbacks : m.failingRollbacks = false)
    (hidle : w.lines line = { endpoint := m, issued }) {t : Task σ (List α)}
    (h : Reaches (fun _ => 0) (Task.all callers, w) (t, w'))
    {earlier later : List Entry} {first : Entry}
    (hhistory : (w'.lines line).history = earlier ++ first :: later)
    (hfirst : ∀ entry ∈ earlier, entry.seat.session ≠ first.seat.session) :
    first.reply = (Endpoint.perform first.command (Line.replay m earlier)).1 ∧
      (Line.replay m earlier).Idle ∧
      ∀ session < first.seat.session,
        Memory.AllOrNothing
          (Line.replay m (earlier.filter fun entry => entry.seat.session < session))
          (earlier.filter fun entry => entry.seat.session = session) := by
  have hconforms : (Task.all callers).Conforms Memory line :=
    Task.conforms_all fun caller hcaller => (hcallers caller hcaller).conforms rfl
  obtain ⟨hlawful, hnone⟩ := hconforms
  obtain ⟨hordered, hsettled⟩ := h.settled (hlawful _) hnone (hidle ▸ Line.Ordered.idle)
    (hidle ▸ Line.Settled.idle)
  have hsorted := hordered.history_sorted
  have hrecorded := hordered.recorded
  rw [hhistory] at hsorted hrecorded
  obtain ⟨hsortedEarlier, -, hbefore⟩ := List.pairwise_append.mp hsorted
  obtain ⟨hrecordedEarlier, hreply, -⟩ := Line.recorded_append.mp hrecorded
  have hlt : ∀ entry ∈ earlier, entry.seat.session < first.seat.session := fun entry hentry =>
    Nat.lt_of_le_of_ne (hbefore entry hentry first List.mem_cons_self) (hfirst entry hentry)
  have hall : (List.range first.seat.session).flatMap
      (fun session => earlier.filter fun entry => entry.seat.session = session) = earlier := by
    rw [flatMap_sessions hsortedEarlier, List.filter_eq_self]
    exact fun entry hentry => by simpa using hlt entry hentry
  rw [← hall] at hrecordedEarlier
  have hsessions := Memory.sessions_closed hm hrollbacks hrecordedEarlier fun session hsession =>
    hsettled.closed_before hordered hhistory hsession
  rw [hall] at hsessions
  refine ⟨hreply, hsessions.1, fun session hsession => ?_⟩
  rw [← flatMap_sessions hsortedEarlier]
  exact hsessions.2 session hsession

/-- A transaction whose body waits for something that never comes. -/
def stuckCall (e : Executor) : Task Unit (Except Error Unit) :=
  e.transaction [] 1 {} fun frame => do
    let _ ← frame.execute "SET a" [.int 1]
    .pending

/-- A statement, the rows of which do not matter. -/
def plainCall (e : Executor) : Task Unit (Except Error Unit) := do
  let _ ← e.execute [] "GET a" []
  pure (.ok ())

theorem stuckCall_calls (e : Executor) : (stuckCall e).limit.Calls e.line false := by
  refine .limit (.transaction (fun _ => (absurd · Bool.false_ne_true)) (.bind ?_ fun _ => .pending))
  exact .statement fun _ => by simp

theorem plainCall_calls (e : Executor) : (plainCall e).limit.Calls e.line false :=
  .limit (.bind (.execute fun _ => (absurd · Bool.false_ne_true)) fun _ => .pure _)

/-- A transaction is given up where it waits, and after its rollback a statement is performed. -/
theorem abandoned_calls_leave_nothing_open_memory :
    let e : Executor := ⟨0, none⟩
    let m : Memory := {}
    let w : World Unit Memory := ⟨(), fun _ => { endpoint := m }⟩
    let left := [0].foldl (fun w line => w.onLine line Line.cleanUp)
      (((stuckCall e).start 9 w).1.drop ((stuckCall e).start 9 w).2)
    let l := ((Task.all [.done none, (plainCall e).limit]).start 9 left).2.lines 0
    ∃ earlier first, l.history = earlier ++ [first] ∧
      earlier.map (fun entry => entry.seat.session) = [0, 0, 0] ∧ first.seat.session = 4 ∧
      first.reply = (Endpoint.perform first.command (Line.replay m earlier)).1 ∧
      (Line.replay m earlier).Idle ∧
      ∀ session < first.seat.session,
        Memory.AllOrNothing
          (Line.replay m (earlier.filter fun entry => entry.seat.session < session))
          (earlier.filter fun entry => entry.seat.session = session) := by
  intro e m w left
  have hrest : w.AtRest := fun _ => ⟨rfl, List.forall_mem_nil _⟩
  have habandoned : Reaches (fun _ => 0) ((stuckCall e).limit, w) (.done none, left) :=
    Task.abandon_reaches 9 (stuckCall e) w [0] hrest
  have hplayed := (habandoned.left (Task.all [(plainCall e).limit]) fun a as =>
    .done (a :: as)).trans (Task.start_reaches 9 (Task.all [.done none, (plainCall e).limit]) left
      (Task.abandon_atRest 9 _ w [0] hrest))
  have hsessions : (((Task.all [.done none, (plainCall e).limit]).start 9 left).2.lines 0).history.map
      (fun entry => entry.seat.session) = [0, 0, 0] ++ [4] := by
    decide +kernel
  generalize (Task.all [.done none, (plainCall e).limit]).start 9 left = played at hplayed hsessions ⊢
  obtain ⟨earlier, last, hhistory, hearlier, hlast⟩ := List.map_eq_append_iff.mp hsessions
  obtain ⟨first, rfl, hfirst⟩ := List.map_eq_singleton_iff.mp hlast
  refine ⟨earlier, first, hhistory, hearlier, hfirst, ?_⟩
  have hcallers : ∀ caller ∈ [(stuckCall e).limit, (plainCall e).limit],
      caller.Calls 0 false := by
    simp only [List.forall_mem_cons, List.not_mem_nil, false_implies, implies_true, and_true]
    exact ⟨stuckCall_calls e, plainCall_calls e⟩
  refine abandoned_calls_leave_nothing_open hcallers ⟨rfl, rfl⟩ rfl rfl hplayed hhistory ?_
  intro entry hentry
  have hmem := List.mem_map_of_mem (f := fun entry : Entry => entry.seat.session) hentry
  rw [hearlier] at hmem
  rw [hfirst]
  simp only [List.mem_cons, List.not_mem_nil, or_false, or_self] at hmem
  omega

end Polystore.Transaction
