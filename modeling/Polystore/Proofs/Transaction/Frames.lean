import Polystore.Proofs.Transaction.Evaluation
import Polystore.Proofs.Transaction.Memory

/-!
Frames are copies of the data. A body sends one command after the other and opens frames inside its
frame, to any depth; whatever they come to, it goes on from there. Main statement: a transaction comes
to what its body comes to on a plain copy of the data, and the copy is kept if it has succeeded.
-/

namespace Polystore.Transaction

variable {σ α β τ : Type}

/-- What a body does, one thing after the other. It is told the result of each command and of each
frame, failures included. -/
inductive Program (σ : Type) : Type → Type 1 where
  | done {α : Type} (result : Except Error α) : Program σ α
  /-- Changes the notes of the caller, which no rollback undoes. -/
  | noting {α : Type} (change : σ → σ) (next : σ → Program σ α) : Program σ α
  | execute {α : Type} (sql : String) (params : List Value)
      (next : Except Error (List Row) → Program σ α) : Program σ α
  | stream {α τ : Type} (sql : String) (params : List Value) (consume : τ → Row → Except Error τ)
      (start : τ) (next : τ × Except Error Summary → Program σ α) : Program σ α
  | frame {α β : Type} (body : Program σ β) (next : Except Error β → Program σ α) : Program σ α

namespace Program

/-- The body as callers write it. -/
def work : {α : Type} → Program σ α → Frame → Task σ (Except Error α)
  | _, .done result, _ => pure result
  | _, .noting change next, f => do (next (← Task.update change)).work f
  | _, .execute sql params next, f => do (next (← f.execute sql params)).work f
  | _, .stream sql params consume start next, f => do
    (next (← f.stream sql params consume start)).work f
  | _, .frame body next, f => do (next (← f.nested fun inner => body.work inner)).work f

/-- The data after a frame: what its body has made of them, or else the copy. -/
def restored (copy data : Data) : Except Error α → Data
  | .ok _ => data
  | .error _ => copy

/-- What a body comes to if the data are copied when a frame is entered, and the copy is put back when
its body fails. -/
def reference : {α : Type} → Program σ α → σ → Data → Except Error α × σ × Data
  | _, .done result, notes, data => (result, notes, data)
  | _, .noting change next, notes, data => (next notes).reference (change notes) data
  | _, .execute sql params next, notes, data =>
    let (reply, data) := Memory.execute data sql params
    (next reply.all).reference notes data
  | _, .stream sql params consume start next, notes, data =>
    let (reply, data) := Memory.execute data sql params
    (next (reply.deliver consume start)).reference notes data
  | _, .frame body next, notes, copy =>
    let (result, notes, data) := body.reference notes copy
    (next result).reference notes (restored copy data result)

end Program

section

variable {sessions : Sessions} {w v : World σ Memory} {result : Except Error α}

theorem Frame.execute_ends (f : Frame) (sql : String) (params : List Value) :
    Task.Ends sessions (f.execute sql params) w
      (w.reply f.executor.line (sessions f.executor.line) (.execute sql params)).all
      (w.sent f.executor.line (sessions f.executor.line) (.execute sql params)) :=
  (Task.Ends.send _ _).bind .pure

theorem Frame.stream_ends (f : Frame) (sql : String) (params : List Value)
    (consume : τ → Row → Except Error τ) (start : τ) :
    Task.Ends sessions (f.stream sql params consume start) w
      ((w.reply f.executor.line (sessions f.executor.line) (.execute sql params)).deliver consume
        start)
      (w.sent f.executor.line (sessions f.executor.line) (.execute sql params)) :=
  (Task.Ends.send _ _).bind .pure

/-- A frame comes to what its body comes to. What is left of it inside the frame around it is data that
have been kept or restored. -/
theorem Frame.nested_ends {f : Frame} {body : Frame → Task σ (Except Error α)}
    (hbody : Task.Ends sessions (body { f with depth := f.depth + 1 })
      (w.sent f.executor.line (sessions f.executor.line) (.savepoint (savepoint (f.depth + 1))))
      result v)
    (hinside : Memory.Inside (f.depth + 1)
      (Endpoint.perform (.savepoint (savepoint (f.depth + 1))) (w.lines f.executor.line).endpoint).2
      (v.lines f.executor.line).endpoint) :
    ∃ w', Task.Ends sessions (f.nested body) w result w' ∧ w'.notes = v.notes ∧
      (w'.lines f.executor.line).endpoint.data =
        Program.restored (w.lines f.executor.line).endpoint.data
          (v.lines f.executor.line).endpoint.data result ∧
      Memory.Inside f.depth (w.lines f.executor.line).endpoint
        (w'.lines f.executor.line).endpoint := by
  cases result with
  | ok value =>
    obtain ⟨houtcome, hdata, hleft⟩ := hinside.release
    refine ⟨v.sent f.executor.line (sessions f.executor.line) (.release (savepoint (f.depth + 1))),
      ?_, rfl, ?_, ?_⟩
    · refine (Task.Ends.send _ _).bind (hbody.bind ?_)
      refine (Task.Ends.send _ _).bind ?_
      rw [World.reply_eq, houtcome]
      exact .done
    · rw [World.sent_endpoint, hdata]
      rfl
    · rwa [World.sent_endpoint]
  | error failure =>
    obtain ⟨houtcome, hdata, hleft⟩ := hinside.rollbackTo
    refine ⟨v.sent f.executor.line (sessions f.executor.line) (.rollbackTo (savepoint (f.depth + 1))),
      ?_, rfl, ?_, ?_⟩
    · refine (Task.Ends.send _ _).bind (hbody.bind ?_)
      refine (Task.Ends.send _ _).bind ?_
      rw [World.reply_eq, houtcome]
      exact .done
    · rw [World.sent_endpoint, hdata]
      rfl
    · rwa [World.sent_endpoint]

end

/-- A body comes to what it comes to on copies, and inside its frame leaves the data so. -/
theorem Program.work_ends (p : Program σ α) (f : Frame) (sessions : Sessions)
    (w : World σ Memory) :
    ∃ w', Task.Ends sessions (p.work f) w
        (p.reference w.notes (w.lines f.executor.line).endpoint.data).1 w' ∧
      (w'.notes, (w'.lines f.executor.line).endpoint.data) =
        (p.reference w.notes (w.lines f.executor.line).endpoint.data).2 ∧
      Memory.Inside f.depth (w.lines f.executor.line).endpoint
        (w'.lines f.executor.line).endpoint := by
  -- `Inside` goes along: the savepoint of a frame has to be found again behind what is left of others.
  induction p generalizing f w with
  | done result => exact ⟨w, .done, rfl, .refl _ _⟩
  | noting change next ih =>
    obtain ⟨w', hends, hleft, hinside⟩ := ih w.notes f { w with notes := change w.notes }
    exact ⟨w', (Task.Ends.update change).bind hends, hleft, hinside⟩
  | execute sql params next ih =>
    obtain ⟨w', hends, hleft, hinside⟩ := ih _ f
      (w.sent f.executor.line (sessions f.executor.line) (.execute sql params))
    rw [World.sent_endpoint] at hends hleft hinside
    refine ⟨w', (Frame.execute_ends f sql params).bind hends, hleft, ?_⟩
    exact (Memory.Inside.execute f.depth _ sql params).trans hinside
  | stream sql params consume start next ih =>
    obtain ⟨w', hends, hleft, hinside⟩ := ih _ f
      (w.sent f.executor.line (sessions f.executor.line) (.execute sql params))
    rw [World.sent_endpoint] at hends hleft hinside
    refine ⟨w', (Frame.stream_ends f sql params consume start).bind hends, hleft, ?_⟩
    exact (Memory.Inside.execute f.depth _ sql params).trans hinside
  | frame body next ihbody ihnext =>
    obtain ⟨v, hbody, hcopied, hdeeper⟩ := ihbody { f with depth := f.depth + 1 }
      (w.sent f.executor.line (sessions f.executor.line)
        (.savepoint (Frame.savepoint (f.depth + 1))))
    rw [World.sent_endpoint] at hbody hcopied hdeeper
    obtain ⟨u, hframe, hnotes, hdata, hkept⟩ := Frame.nested_ends hbody hdeeper
    obtain ⟨w', hnext, hleft, hinside⟩ := ihnext _ f u
    obtain ⟨hnotes', hdata'⟩ := Prod.ext_iff.mp hcopied
    have hreference : (Program.frame body next).reference w.notes
        (w.lines f.executor.line).endpoint.data =
          (next (body.reference w.notes (w.lines f.executor.line).endpoint.data).1).reference
            u.notes (u.lines f.executor.line).endpoint.data := by
      rw [hdata, hnotes, show v.notes = _ from hnotes',
        show (v.lines f.executor.line).endpoint.data = _ from hdata']
      rfl
    rw [hreference]
    exact ⟨w', hframe.bind hnext, hleft, hkept.trans hinside⟩

section

variable {sessions : Sessions} {w v : World σ Memory} {result : Except Error α}

theorem Executor.hold_ends {e : Executor} {held : List Nat} {work : Task σ (Except Error α)}
    (hheld : e.line ∉ held) (hfree : (w.lines e.line).session = {})
    (hwork : Task.Ends (sessions.enter e.line (w.lines e.line).issued) work
      (w.onLine e.line fun l => l.askSession.grantSession l.issued) result v) :
    Task.Ends sessions (e.hold held work) w result
      (v.onLine e.line (.leaveSession (w.lines e.line).issued)) := by
  rw [Executor.hold, if_neg (by simpa using hheld)]
  exact .holding (Line.approach_free hfree) hwork .done

/-- A transaction that is tried once comes to what its body comes to, and nothing is left open. -/
theorem Executor.attempts_ends {e : Executor} {options : Options} {body : Task σ (Except Error α)}
    (hretry : options.retry = .never) (patience made : Nat)
    (hreliable : (w.lines e.line).endpoint.Reliable)
    (hbody : Task.Ends sessions body
      ((w.onLine e.line (.mark true)).sent e.line (sessions e.line) (.begin options.isolation))
      result v)
    (hinside : Memory.Inside 0
      (Endpoint.perform (.begin options.isolation) (w.lines e.line).endpoint).2
      (v.lines e.line).endpoint) :
    ∃ w', Task.Ends sessions (e.attempts options body (patience + 1) made) w result w' ∧
      w'.notes = v.notes ∧
      (w'.lines e.line).endpoint.data =
        Program.restored (w.lines e.line).endpoint.data (v.lines e.line).endpoint.data result ∧
      (w'.lines e.line).endpoint.Idle := by
  have hbegun : (Endpoint.perform (.begin options.isolation)
      (w.lines e.line).endpoint).2.Reliable := { hreliable with }
  have hended := hinside.reliable hbegun
  cases result with
  | ok value =>
    have hcommit : Task.Ends sessions (e.commit (.ok value)) v (.ok value)
        (v.sent e.line (sessions e.line) .commit) := by
      refine (Task.Ends.send _ _).bind ?_
      rw [World.reply_eq, hended.perform_commit]
      exact .done
    obtain ⟨hdata, hidle⟩ := Memory.perform_commit (v.lines e.line).endpoint
    rw [hended.perform_commit] at hidle
    refine ⟨(v.sent e.line (sessions e.line) .commit).onLine e.line (.mark false), ?_, rfl, ?_, ?_⟩
    · refine (Task.Ends.mark _ _).bind ((Task.Ends.send _ _).bind (hbody.bind ?_))
      exact hcommit.bind ((Task.Ends.mark _ _).bind .pure)
    · rw [World.mark_endpoint, World.sent_endpoint, hdata]
      rfl
    · rw [World.mark_endpoint, World.sent_endpoint]
      exact hidle
  | error failure =>
    obtain ⟨hdata, hidle⟩ := Memory.perform_rollback _ hended.rollbacks
    refine ⟨(v.sent e.line (sessions e.line) .rollback).onLine e.line (.mark false), ?_, rfl, ?_, ?_⟩
    · refine (Task.Ends.mark _ _).bind ((Task.Ends.send _ _).bind (hbody.bind ?_))
      refine Task.Ends.pure.bind ?_
      refine (Task.Ends.send _ _).bind ((Task.Ends.mark _ _).bind ?_)
      rw [World.reply_eq, hended.perform_rollback, hretry, Retry.allows, Bool.and_false]
      exact .done
    · rw [World.mark_endpoint, World.sent_endpoint, hdata, hinside.snapshot]
      rfl
    · rw [World.mark_endpoint, World.sent_endpoint]
      exact hidle

end

/-- **Frames refine copies.** A transaction on a free connection in memory that does not fail by
itself, tried once, comes to what its body comes to on copies of the data, where the transaction is
the outermost frame, and leaves the same data and notes behind. Nothing is open afterwards. -/
theorem frames_refine_copies {e : Executor} {held : List Nat} {options : Options} {patience : Nat}
    (body : Program σ α) {w : World σ Memory} (hheld : e.line ∉ held)
    (hretry : options.retry = .never) (hfree : (w.lines e.line).session = {})
    (hreliable : (w.lines e.line).endpoint.Reliable) :
    ∃ n w', (∀ turns, n ≤ turns →
        (e.transaction held (patience + 1) options body.work).start turns w =
          (.done ((Program.frame body .done).reference w.notes (w.lines e.line).endpoint.data).1,
            w')) ∧
      (w'.notes, (w'.lines e.line).endpoint.data) =
        ((Program.frame body .done).reference w.notes (w.lines e.line).endpoint.data).2 ∧
      (w'.lines e.line).endpoint.Idle := by
  let entered := w.onLine e.line fun l => l.askSession.grantSession l.issued
  have hentered : (entered.lines e.line).endpoint = (w.lines e.line).endpoint := by
    rw [World.onLine_lines, if_pos rfl]
    rfl
  let sessions := Sessions.enter (fun _ => 0) e.line (w.lines e.line).issued
  obtain ⟨v, hbody, hcopied, hinside⟩ := body.work_ends ⟨e, 0, e.line :: held⟩ sessions
    ((entered.onLine e.line (.mark true)).sent e.line (sessions e.line) (.begin options.isolation))
  rw [World.sent_endpoint, World.mark_endpoint] at hbody hcopied hinside
  obtain ⟨u, hends, hnotes, hdata, hidle⟩ := Executor.attempts_ends hretry patience 0
    (hentered ▸ hreliable) hbody hinside
  rw [hentered] at hends hcopied hdata
  obtain ⟨n, hplayed⟩ := (Executor.hold_ends hheld hfree hends).start
  obtain ⟨hnotes', hdata'⟩ := Prod.ext_iff.mp hcopied
  refine ⟨n, _, hplayed, Prod.ext (hnotes.trans hnotes') ?_, ?_⟩
  · rw [World.leaveSession_endpoint, hdata, show (v.lines e.line).endpoint.data = _ from hdata']
    rfl
  · rw [World.leaveSession_endpoint]
    exact hidle

/-- It fails after a write. -/
def spoiled : Program Unit Unit :=
  .execute "SET a" [.int 2] fun _ => .execute "FAIL 40001" [] fun failed =>
    .done (failed.map fun _ => ())

/-- A frame in it fails, and it goes on. -/
def salvaged : Program Unit Unit :=
  .frame spoiled fun _ => .execute "PUSH b" [.int 3] fun pushed => .done (pushed.map fun _ => ())

/-- Two frames of one depth, the first of which fails. -/
def siblings : Program Unit Unit :=
  .execute "SET a" [.int 1] fun _ => .frame spoiled fun _ => .frame salvaged .done

theorem frames_refine_copies_siblings :
    ∃ n w', (∀ turns, n ≤ turns →
        ((⟨0, none⟩ : Executor).transaction [] 1 {} siblings.work).start turns
          (⟨(), fun _ => { endpoint := {} }⟩ : World Unit Memory) = (.done (.ok ()), w')) ∧
      (w'.lines 0).endpoint.data = [("a", .int 1), ("b", .array [.int 3])] ∧
      (w'.lines 0).endpoint.Idle := by
  have href : (Program.frame siblings .done).reference () [] =
      (.ok (), (), [("a", .int 1), ("b", .array [.int 3])]) := by
    with_unfolding_all rfl
  obtain ⟨n, w', hplayed, hleft, hidle⟩ := @frames_refine_copies Unit Unit ⟨0, none⟩ [] {} 0 siblings
    ⟨(), fun _ => { endpoint := {} }⟩ List.not_mem_nil rfl rfl ⟨by simp, rfl⟩
  rw [href] at hplayed hleft
  exact ⟨n, w', hplayed, (Prod.ext_iff.mp hleft).2, hidle⟩

end Polystore.Transaction
