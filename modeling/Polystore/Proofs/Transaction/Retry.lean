import Polystore.Proofs.Transaction.Attempt
import Polystore.Proofs.Transaction.Frames

/-!
Transactions that are tried again. Main statement: after a conflict there is another attempt as long
as the policy allows for it, each attempt starts from the data as they were before the call, and what
the call comes to is what its last attempt has come to.
-/

namespace Polystore.Transaction

variable {σ α : Type}

namespace Retry

/-- How many attempts there are at most, if there is a limit. One is made in any case. -/
def most : Retry → Option Nat
  | .never => some 1
  | .onConflict none => none
  | .onConflict (some limit) => some (max 1 limit.toNat)

theorem lt_most {policy : Retry} {made limit : Nat} (h : policy.allows made = true)
    (hmost : policy.most = some limit) : made < limit := by
  cases policy with
  | never => cases h
  | onConflict attempts =>
    cases attempts with
    | none => cases hmost
    | some attempts =>
      cases hmost
      exact Nat.lt_of_lt_of_le (of_decide_eq_true h) (Nat.le_max_right 1 _)

theorem one_le_most {policy : Retry} {limit : Nat} (hmost : policy.most = some limit) :
    1 ≤ limit := by
  cases policy with
  | never =>
    cases hmost
    exact Nat.le_refl 1
  | onConflict attempts =>
    cases attempts with
    | none => cases hmost
    | some attempts =>
      cases hmost
      exact Nat.le_max_left 1 _

end Retry

namespace Attempt

variable {line : Nat} {sessions : Sessions} {body : Task σ (Except Error α)} {before : Data}
  {noted : σ} {failing : Option (Nat × Error)}

/-- Attempts one after the other. All of them start from the same data, but each has the notes that the
one before it has left, and the commits of those before it have been made. -/
def Follow (line : Nat) (sessions : Sessions) (body : Task σ (Except Error α)) (before : Data)
    (noted : σ) (failing : Option (Nat × Error)) (attempts : List (Attempt σ α)) : Prop :=
  ∀ i (hi : i < attempts.length), attempts[i].Runs line sessions body before
    ((attempts.take i).foldl (fun _ a => a.left.notes) noted)
    (Memory.failuresAfter (commits (attempts.take i)) failing)

theorem follow_nil : Follow line sessions body before noted failing [] :=
  fun _ hi => absurd hi (Nat.not_lt_zero _)

theorem Follow.cons {a : Attempt σ α} {rest : List (Attempt σ α)}
    (ha : a.Runs line sessions body before noted failing)
    (hrest : Follow line sessions body before a.left.notes
      (Memory.failuresAfter (commits [a]) failing) rest) :
    Follow line sessions body before noted failing (a :: rest) := by
  intro i hi
  cases i with
  | zero =>
    rw [List.take_zero, commits, List.countP_nil, Memory.failuresAfter_zero]
    exact ha
  | succ i =>
    rw [List.take_succ_cons, commits_cons, ← Memory.failuresAfter_failuresAfter]
    exact hrest i (Nat.lt_of_succ_lt_succ hi)

/-- After each of these attempts there is another one. -/
def Repeat (policy : Retry) (made : Nat) (attempts : List (Attempt σ α)) : Prop :=
  ∀ i (hi : i < attempts.length),
    attempts[i].conflicts = true ∧ policy.allows (made + i + 1) = true

theorem Repeat.cons {policy : Retry} {made : Nat} {a : Attempt σ α} {rest : List (Attempt σ α)}
    (hconflict : a.conflicts = true) (hallows : policy.allows (made + 1) = true)
    (hrest : Repeat policy (made + 1) rest) : Repeat policy made (a :: rest) := by
  intro i hi
  cases i with
  | zero => exact ⟨hconflict, hallows⟩
  | succ i =>
    have hlater := hrest i (Nat.lt_of_succ_lt_succ hi)
    rw [Nat.add_right_comm made 1 i] at hlater
    exact hlater

theorem Repeat.length_lt {policy : Retry} {attempts : List (Attempt σ α)} {limit : Nat}
    (h : Repeat policy 0 attempts) (hmost : policy.most = some limit) : attempts.length < limit := by
  cases hlength : attempts.length with
  | zero => exact Retry.one_le_most hmost
  | succ n =>
    have hallows := (h n (by omega)).2
    rw [Nat.zero_add] at hallows
    exact Retry.lt_most hallows hmost

end Attempt

namespace Executor

variable {e : Executor} {options : Options} {body : Task σ (Except Error α)} {start : Memory}
  {sessions : Sessions} {w w' : World σ Memory}

/-- One attempt after the other, until one is not followed by another. -/
theorem attempts_run {patience made : Nat} {result : Except Error α}
    (h : Reaches sessions (e.attempts options body patience made, w) (.done result, w'))
    (hbody : body.Inner e.line (sessions e.line))
    (hl : (w.lines e.line).Between start (sessions e.line)) :
    ∃ tried last, Attempt.Follow e.line sessions body (w.lines e.line).endpoint.data w.notes
        (w.lines e.line).endpoint.failingCommits (tried ++ [last]) ∧
      (last.found.lines e.line).Ordered start [sessions e.line] ∧
      Attempt.Repeat options.retry made tried ∧
      ¬ (last.conflicts = true ∧ options.retry.allows (made + tried.length + 1) = true) ∧
      result = last.outcome ∧ w'.notes = last.left.notes ∧
      (w'.lines e.line).Ended start (sessions e.line)
        ((w.lines e.line).trace.map Entry.command ++
          (tried ++ [last]).flatMap (Attempt.commands options.isolation))
        (last.writes e.line (w.lines e.line).endpoint.data)
        (Memory.failuresAfter (Attempt.commits (tried ++ [last]))
          (w.lines e.line).endpoint.failingCommits) := by
  induction patience generalizing made w with
  | zero => exact absurd h Reaches.not_pending
  | succ patience ih =>
    rw [attempts_succ] at h
    obtain ⟨p, v, hattempt, hrest⟩ := h.of_bind
    obtain ⟨a, rfl, hnoted, hruns, hfound, hended⟩ := attempt_run hattempt hbody hl
    by_cases hagain : (a.conflicts && options.retry.allows (made + 1)) = true
    · dsimp only at hrest
      rw [if_pos hagain] at hrest
      obtain ⟨hconflict, hallows⟩ := Bool.and_eq_true_iff.mp hagain
      obtain ⟨tried, last, hfollow, hlastFound, hrepeat, hlast, hresult, hnotes, hdone⟩ :=
        ih hrest hended.between
      have hdata := hended.data.trans (Attempt.writes_of_conflicts hconflict e.line _)
      rw [hdata, hended.failing, hnoted] at hfollow
      rw [hdata, hended.failing, hended.commands, Memory.failuresAfter_failuresAfter,
        ← Attempt.commits_cons, List.append_assoc] at hdone
      refine ⟨a :: tried, last, .cons hruns hfollow, hlastFound, .cons hconflict hallows hrepeat, ?_,
        hresult, hnotes, hdone⟩
      rw [Nat.add_right_comm made 1] at hlast
      exact hlast
    · dsimp only at hrest
      rw [if_neg hagain] at hrest
      obtain ⟨rfl, hline, hnotes⟩ := hrest.ended hended.between.still
      rw [Bool.and_eq_true] at hagain
      refine ⟨[], a, .cons hruns Attempt.follow_nil, hfound,
        fun _ hi => absurd hi (Nat.not_lt_zero _), hagain, rfl, hnotes.trans hnoted, ?_⟩
      rw [hline]
      simpa using hended

/-- A body that comes to its end whenever a transaction on these data has begun, while all else in the
world is in such a state, and that leaves it in such a state. -/
def BodyEnds (e : Executor) (sessions : Sessions) (body : Task σ (Except Error α)) (before : Data)
    (P : World σ Memory → Prop) : Prop :=
  ∀ v, P v → v.AtRest → (v.lines e.line).endpoint.Begun before →
    ∃ result v', Task.Finishes sessions (body.settle sessions v) result v' ∧ P v'

/-- Attempts come to an end if their bodies do, unless all of them end in conflicts. -/
theorem attempts_finish {patience made : Nat} {P : World σ Memory → Prop}
    (hbody : body.Inner e.line (sessions e.line))
    (hends : e.BodyEnds sessions body (w.lines e.line).endpoint.data P)
    (hP : ∀ v f, P v → P (v.onLine e.line f)) (hw : P w) (hrest : w.AtRest)
    (hl : (w.lines e.line).Between start (sessions e.line)) :
    (∃ result w', Task.Finishes sessions
        ((e.attempts options body patience made).settle sessions w) result w') ∨
      ∃ tried, tried.length = patience ∧
        Attempt.Follow e.line sessions body (w.lines e.line).endpoint.data w.notes
          (w.lines e.line).endpoint.failingCommits tried ∧
        Attempt.Repeat options.retry made tried := by
  induction patience generalizing made w with
  | zero => exact .inr ⟨[], rfl, Attempt.follow_nil, fun _ hi => absurd hi (Nat.not_lt_zero _)⟩
  | succ patience ih =>
    let begun := (w.onLine e.line (.mark true)).sent e.line (sessions e.line)
      (.begin options.isolation)
    have hbegun : (begun.lines e.line).endpoint.Begun (w.lines e.line).endpoint.data := by
      rw [World.sent_endpoint, World.mark_endpoint]
      exact hl.idle.begun options.isolation
    have hrest₀ : begun.AtRest := (hrest.onLine ((hrest e.line).mark true)).sent _ _ _
    have hbodyEnds := hends begun (hP _ _ (hP _ _ hw)) hrest₀ hbegun
    obtain ⟨p, v, hfinished, hv⟩ := attempt_finishes hP hbodyEnds
    obtain ⟨hattempt, hrest'⟩ := hfinished.reaches hrest
    obtain ⟨a, rfl, hnoted, hruns, -, hended⟩ := attempt_run hattempt hbody hl
    rw [attempts_succ]
    by_cases hagain : (a.conflicts && options.retry.allows (made + 1)) = true
    · obtain ⟨hconflict, hallows⟩ := Bool.and_eq_true_iff.mp hagain
      have hdata := hended.data.trans (Attempt.writes_of_conflicts hconflict e.line _)
      rcases ih (hdata.symm ▸ hends) hv hrest' hended.between with
        ⟨result, w', hlater⟩ | ⟨tried, hlength, hfollow, hrepeat⟩
      · refine .inl ⟨result, w', hfinished.bind ?_⟩
        dsimp only
        rw [if_pos hagain]
        exact hlater
      · rw [hdata, hended.failing, hnoted] at hfollow
        exact .inr ⟨a :: tried, congrArg (· + 1) hlength, .cons hruns hfollow,
          .cons hconflict hallows hrepeat⟩
    · refine .inl ⟨a.outcome, v, hfinished.bind ?_⟩
      dsimp only
      rw [if_neg hagain]
      exact .done

theorem between_entered {m : Memory} (hm : m.Idle) (hrollbacks : m.failingRollbacks = false)
    (issued : Nat) :
    (({ endpoint := m, issued } : Line Memory).askSession.grantSession issued).Between m issued where
  ordered := by
    refine Line.Ordered.idle.askSession.grantSession ?_
    simp [Line.askSession, Lock.ask, Lock.isNext_iff]
  still := ⟨rfl, rfl⟩
  idle := hm
  rollbacks := hrollbacks

section

variable {patience issued : Nat} {m : Memory}

/-- The last body starts on a line that is in order. -/
theorem hold_attempts_found {result : Except Error α}
    (h : Reaches sessions (Task.hold e.line (e.attempts options body patience 0), w)
      (.done result, w'))
    (hbody : body.Inner e.line issued) (hidle : w.lines e.line = { endpoint := m, issued })
    (hm : m.Idle) (hrollbacks : m.failingRollbacks = false) :
    ∃ tried last, Attempt.Follow e.line (sessions.enter e.line issued) body m.data w.notes
        m.failingCommits (tried ++ [last]) ∧
      (last.found.lines e.line).Ordered m [issued] ∧
      Attempt.Repeat options.retry 0 tried ∧
      ¬ (last.conflicts = true ∧ options.retry.allows (tried.length + 1) = true) ∧
      result = last.outcome ∧ w'.notes = last.left.notes ∧
      (w'.lines e.line).endpoint.data = last.writes e.line m.data ∧
      (w'.lines e.line).endpoint.Idle ∧
      (w'.lines e.line).history.map Entry.command =
        (tried ++ [last]).flatMap (Attempt.commands options.isolation) := by
  have hsession : sessions.enter e.line issued e.line = issued := if_pos rfl
  have hstill : (w.lines e.line).Still := hidle ▸ ⟨rfl, rfl⟩
  obtain ⟨entered, left, -, hline, hnoted, hwork, hworks, hleft⟩ := h.held hstill
  rw [hidle] at hline hwork hworks
  have hbetween : (entered.lines e.line).Between m (sessions.enter e.line issued e.line) := by
    rw [hline, hsession]
    exact between_entered hm hrollbacks issued
  obtain ⟨tried, last, hfollow, hfound, hrepeat, hlast, hresult, hnotes, hended⟩ :=
    attempts_run hwork (hsession.symm ▸ hbody) hbetween
  rw [hsession] at hfound
  rw [hline, hnoted] at hfollow
  rw [hline] at hended
  rw [Nat.zero_add] at hlast
  have hgone : w'.lines e.line =
      { left.lines e.line with session := (left.lines e.line).session.release } := by
    rw [Line.leaveSession, if_neg (by simp [hended.closed])] at hworks
    exact Line.Still.works_eq ⟨hended.between.still.running, hended.between.still.undoing⟩ hworks
  refine ⟨tried, last, hfollow, hfound, hrepeat, hlast, hresult, hleft.trans hnotes, ?_, ?_, ?_⟩
  · rw [hgone]
    exact hended.data
  · rw [hgone]
    exact hended.between.idle
  · rw [hgone]
    exact (congrArg _ hended.between.still.trace_eq.symm).trans hended.commands

theorem hold_attempts_run {result : Except Error α}
    (h : Reaches sessions (Task.hold e.line (e.attempts options body patience 0), w)
      (.done result, w'))
    (hbody : body.Inner e.line issued) (hidle : w.lines e.line = { endpoint := m, issued })
    (hm : m.Idle) (hrollbacks : m.failingRollbacks = false) :
    ∃ tried last, Attempt.Follow e.line (sessions.enter e.line issued) body m.data w.notes
        m.failingCommits (tried ++ [last]) ∧
      Attempt.Repeat options.retry 0 tried ∧
      ¬ (last.conflicts = true ∧ options.retry.allows (tried.length + 1) = true) ∧
      result = last.outcome ∧ w'.notes = last.left.notes ∧
      (w'.lines e.line).endpoint.data = last.writes e.line m.data ∧
      (w'.lines e.line).endpoint.Idle ∧
      (w'.lines e.line).history.map Entry.command =
        (tried ++ [last]).flatMap (Attempt.commands options.isolation) := by
  obtain ⟨tried, last, hfollow, -, hended⟩ := hold_attempts_found h hbody hidle hm hrollbacks
  exact ⟨tried, last, hfollow, hended⟩

theorem hold_attempts_finish {P : World σ Memory → Prop} (hbody : body.Inner e.line issued)
    (hends : e.BodyEnds (sessions.enter e.line issued) body m.data P)
    (hP : ∀ v f, P v → P (v.onLine e.line f)) (hw : P w) (hrest : w.AtRest)
    (hidle : w.lines e.line = { endpoint := m, issued }) (hm : m.Idle)
    (hrollbacks : m.failingRollbacks = false) :
    (∃ result w', Task.Finishes sessions
        ((Task.hold e.line (e.attempts options body patience 0)).settle sessions w) result w') ∨
      ∃ tried, tried.length = patience ∧
        Attempt.Follow e.line (sessions.enter e.line issued) body m.data w.notes m.failingCommits
          tried ∧
        Attempt.Repeat options.retry 0 tried := by
  have hsession : sessions.enter e.line issued e.line = issued := if_pos rfl
  let entered := w.onLine e.line fun _ => (w.lines e.line).askSession.grantSession issued
  have hline : entered.lines e.line =
      ({ endpoint := m, issued } : Line Memory).askSession.grantSession issued := by
    rw [World.onLine_lines, if_pos rfl, hidle]
  have happroach : (w.lines e.line).approach .fresh =
      (.granted issued, (w.lines e.line).askSession.grantSession issued) := by
    rw [Line.approach_free (by rw [hidle]), hidle]
  have hbetween : (entered.lines e.line).Between m (sessions.enter e.line issued e.line) := by
    rw [hline, hsession]
    exact between_entered hm hrollbacks issued
  have hrest' : entered.AtRest := hrest.onLine ((hrest e.line).approach happroach)
  have hends' : e.BodyEnds (sessions.enter e.line issued) body (entered.lines e.line).endpoint.data P := by
    rw [hline]
    exact hends
  rcases attempts_finish (hsession.symm ▸ hbody) hends' hP (hP _ _ hw) hrest' hbetween with
    ⟨result, left, hfinished⟩ | htried
  · refine .inl ⟨result, left.onLine e.line (.leaveSession issued), ?_⟩
    rw [Task.hold, Task.settle_holding happroach]
    exact hfinished.within .done
  · rw [hline] at htried
    exact .inr htried

end

end Executor

/-- **Conflicts are tried again.** A transaction is called on a free line of a connection in memory
where some commits are going to fail. However it goes on, it returns what its last attempt has come to.
All attempts run the body from the data as they were before the call. Each but the last ends in a
conflict after which the policy allows for another, and the last does not. The data are what the last
attempt has made of them if it has been committed, and else as they were. If the body always comes to
its end, so does the call, unless the policy allows for more attempts than there is patience for. -/
theorem transaction_retries {e : Executor} {held : List Nat} {patience : Nat} {options : Options}
    {body : Frame → Task σ (Except Error α)} {w : World σ Memory} {m : Memory} {issued : Nat}
    (hheld : e.line ∉ held) (hbody : (body ⟨e, 0, e.line :: held⟩).Calls e.line true)
    (hidle : w.lines e.line = { endpoint := m, issued }) (hm : m.Idle)
    (hrollbacks : m.failingRollbacks = false) :
    (∀ result w', Reaches (fun _ => 0) (e.transaction held patience options body, w)
        (.done result, w') →
      ∃ tried last,
        Attempt.Follow e.line (Sessions.enter (fun _ => 0) e.line issued)
          (body ⟨e, 0, e.line :: held⟩) m.data w.notes m.failingCommits (tried ++ [last]) ∧
        Attempt.Repeat options.retry 0 tried ∧
        ¬ (last.conflicts = true ∧ options.retry.allows (tried.length + 1) = true) ∧
        (∀ limit, options.retry.most = some limit → tried.length + 1 ≤ limit) ∧
        result = last.outcome ∧ w'.notes = last.left.notes ∧
        (w'.lines e.line).endpoint.data = last.writes e.line m.data ∧
        (w'.lines e.line).endpoint.Idle ∧
        (w'.lines e.line).history.map Entry.command =
          (tried ++ [last]).flatMap (Attempt.commands options.isolation)) ∧
    ∀ P : World σ Memory → Prop,
      e.BodyEnds (Sessions.enter (fun _ => 0) e.line issued) (body ⟨e, 0, e.line :: held⟩) m.data P →
      (∀ v f, P v → P (v.onLine e.line f)) → P w → w.AtRest →
      (∃ n result w', ∀ turns, n ≤ turns →
        (e.transaction held patience options body).start turns w = (.done result, w')) ∨
      (∀ limit, options.retry.most = some limit → patience < limit) ∧
        ∃ tried, tried.length = patience ∧
          Attempt.Follow e.line (Sessions.enter (fun _ => 0) e.line issued)
            (body ⟨e, 0, e.line :: held⟩) m.data w.notes m.failingCommits tried ∧
          Attempt.Repeat options.retry 0 tried := by
  have hcall : e.transaction held patience options body =
      Task.hold e.line (e.attempts options (body ⟨e, 0, e.line :: held⟩) patience 0) := by
    rw [Executor.transaction, Executor.hold, if_neg (by simpa using hheld)]
  have hinner : (body ⟨e, 0, e.line :: held⟩).Inner e.line issued := hbody.inner rfl issued
  rw [hcall]
  constructor
  · intro result w' h
    obtain ⟨tried, last, hfollow, hrepeat, hlast, hended⟩ :=
      Executor.hold_attempts_run h hinner hidle hm hrollbacks
    exact ⟨tried, last, hfollow, hrepeat, hlast, fun limit hmost => hrepeat.length_lt hmost, hended⟩
  · intro P hends hP hw hrest
    rcases Executor.hold_attempts_finish hinner hends hP hw hrest hidle hm hrollbacks with
      ⟨result, w', n, hplayed⟩ | ⟨tried, hlength, hfollow, hrepeat⟩
    · exact .inl ⟨n, result, w', hplayed⟩
    · refine .inr ⟨fun limit hmost => ?_, tried, hlength, hfollow, hrepeat⟩
      rw [← hlength]
      exact hrepeat.length_lt hmost

theorem Program.work_calls (p : Program σ α) (f : Frame) {line : Nat} {inside : Bool}
    (hinside : line = f.executor.line → inside = true) : (p.work f).Calls line inside := by
  induction p generalizing f with
  | done result => exact .pure result
  | noting change next ih => exact .bind (.update change) fun notes => ih notes f hinside
  | execute sql params next ih => exact .bind (.statement hinside) fun rows => ih rows f hinside
  | stream sql params consume start next ih =>
    exact .bind (.rows hinside) fun delivered => ih delivered f hinside
  | frame body next ihbody ihnext =>
    exact .bind (.nested hinside (ihbody _ hinside)) fun result => ihnext result f hinside

def clash : Error :=
  Memory.failure "40001" "conflict"

/-- It takes note of how often it is run, and ends in a conflict the first time. -/
def tally : Program Nat Unit :=
  .noting (· + 1) fun runs => .execute "PUSH a" [.int (.ofNat runs)] fun pushed =>
    .done (if runs = 0 then .error clash else pushed.map fun _ => ())

/-- The first attempt fails in its body, the second one at its commit. -/
theorem transaction_retries_tally :
    let call := (⟨0, none⟩ : Executor).transaction [] 3 { retry := .onConflict (some 3) } tally.work
    let m : Memory := { failingCommits := some (1, clash) }
    let w : World Nat Memory := ⟨0, fun _ => { endpoint := m }⟩
    (((call.start 12 w).2.lines 0).history.map fun entry => entry.command.entry) =
        ["begin", "exec PUSH a", "rollback", "begin", "exec PUSH a", "commit", "rollback", "begin",
          "exec PUSH a", "commit"] ∧
      ∃ n result w' tried last, (∀ turns, n ≤ turns → call.start turns w = (.done result, w')) ∧
        Attempt.Follow 0 (Sessions.enter (fun _ => 0) 0 0) (tally.work ⟨⟨0, none⟩, 0, [0]⟩) [] 0
          m.failingCommits (tried ++ [last]) ∧
        Attempt.Repeat (.onConflict (some 3)) 0 tried ∧ tried.length + 1 ≤ 3 ∧
        result = last.outcome ∧ w'.notes = last.left.notes ∧
        (w'.lines 0).endpoint.data = last.writes 0 [] := by
  intro call m w
  refine ⟨by decide +kernel, ?_⟩
  have hrest : w.AtRest := fun _ => ⟨rfl, List.forall_mem_nil _⟩
  obtain ⟨hreached, hreturns⟩ := @transaction_retries Nat Unit ⟨0, none⟩ [] 3
    { retry := .onConflict (some 3) } tally.work w m 0 List.not_mem_nil
    (tally.work_calls _ fun _ => rfl) rfl ⟨rfl, rfl⟩ rfl
  have hends : (⟨0, none⟩ : Executor).BodyEnds (Sessions.enter (fun _ => 0) 0 0)
      (tally.work ⟨⟨0, none⟩, 0, [0]⟩) m.data fun _ => True := by
    intro v _ _ _
    obtain ⟨v', hended, -⟩ := tally.work_ends ⟨⟨0, none⟩, 0, [0]⟩ (Sessions.enter (fun _ => 0) 0 0) v
    exact ⟨_, v', hended.finishes, trivial⟩
  rcases hreturns (fun _ => True) hends (fun _ _ _ => trivial) trivial hrest with
    ⟨n, result, w', hplayed⟩ | ⟨hpatience, -⟩
  · have hplayed' := Task.start_reaches n call w hrest
    rw [hplayed n (Nat.le_refl n)] at hplayed'
    obtain ⟨tried, last, hfollow, hrepeat, -, hlimit, hresult, hnotes, hdata, -⟩ :=
      hreached result w' hplayed'
    exact ⟨n, result, w', tried, last, hplayed, hfollow, hrepeat, hlimit 3 rfl, hresult, hnotes, hdata⟩
  · exact absurd (hpatience 3 rfl) (Nat.lt_irrefl 3)

end Polystore.Transaction
