import Polystore.Proofs.Transaction.Course
import Polystore.Transaction.Memory

/-!
Calls from within transactions. A caller goes along one way: it runs transactions and statements of
several executors inside each other, to any depth, and is told how each of them has ended. Main
statement: a call is refused exactly if a transaction of the same executor is open where it is made,
and then nothing is sent; any other call goes on without waiting; and the sessions that are held after
a call are those that were held before.
-/

namespace Polystore.Transaction

variable {σ κ α β τ : Type}

/-- What a caller does along its way, one thing after the other. -/
inductive Path (σ : Type) : Type → Type 1 where
  | done {α : Type} (result : Except Error α) : Path σ α
  | noting {α : Type} (change : σ → σ) (next : σ → Path σ α) : Path σ α
  /-- Looks at which lines are held. -/
  | looking {α : Type} (next : (Nat → Bool) → Path σ α) : Path σ α
  | execute {α : Type} (e : Executor) (sql : String) (params : List Value)
      (next : Except Error (List Row) → Path σ α) : Path σ α
  | stream {α τ : Type} (e : Executor) (sql : String) (params : List Value)
      (consume : τ → Row → Except Error τ) (start : τ) (next : τ × Except Error Summary → Path σ α) :
      Path σ α
  | transaction {α β : Type} (e : Executor) (patience : Nat) (options : Options) (body : Path σ β)
      (next : Except Error β → Path σ α) : Path σ α
  /-- A statement of a transaction that is open. -/
  | statement {α : Type} (f : Frame) (sql : String) (params : List Value)
      (next : Except Error (List Row) → Path σ α) : Path σ α
  | rows {α τ : Type} (f : Frame) (sql : String) (params : List Value)
      (consume : τ → Row → Except Error τ) (start : τ) (next : τ × Except Error Summary → Path σ α) :
      Path σ α
  /-- A frame in a transaction that is open. -/
  | frame {α β : Type} (f : Frame) (body : Path σ β) (next : Except Error β → Path σ α) : Path σ α

namespace Path

/-- The way of a caller who holds some lines already. Only a transaction has its body hold one more. -/
def work : {α : Type} → Path σ α → List Nat → Task σ (Except Error α)
  | _, .done result, _ => pure result
  | _, .noting change next, held => do (next (← Task.update change)).work held
  | _, .looking next, held => (next held.contains).work held
  | _, .execute e sql params next, held => do (next (← e.execute held sql params)).work held
  | _, .stream e sql params consume start next, held => do
    (next (← e.stream held sql params consume start)).work held
  | _, .transaction e patience options body next, held => do
    (next (← e.transaction held patience options fun f => body.work f.held)).work held
  | _, .statement f sql params next, held => do (next (← f.execute sql params)).work held
  | _, .rows f sql params consume start next, held => do
    (next (← f.stream sql params consume start)).work held
  | _, .frame f body next, held => do (next (← f.nested fun _ => body.work held)).work held

variable [Endpoint κ]

/-- The same way without locks. -/
def course : {α : Type} → Path σ α → Course σ κ (Except Error α)
  | _, .done result => pure result
  | _, .noting change next => do (next (← Course.update change)).course
  | _, .looking next => do (next (← get).isOpen).course
  | _, .execute e sql params next => do
    (next (← Course.enter e.line (Course.execute e.line sql params))).course
  | _, .stream e sql params consume start next => do
    (next (← Course.stream e.line sql params consume start)).course
  | _, .transaction e patience options body next => do
    (next (← Course.enter e.line (Course.attempts e.line options body.course patience 0))).course
  | _, .statement f sql params next => do (next (← Course.execute f.executor.line sql params)).course
  | _, .rows f sql params consume start next => do
    (next (← Course.rows f.executor.line sql params consume start)).course
  | _, .frame f body next => do (next (← Course.nested f.executor.line f.depth body.course)).course

/-- A caller who holds the lines with an open transaction goes as if there were no locks. -/
theorem follows (p : Path σ α) (held : List Nat) :
    Follows held.contains held.contains held.contains (p.work held) (p.course : Course σ κ _) := by
  induction p generalizing held with
  | done result => exact .pure result
  | noting change next ih => exact .bind (.update change) fun notes => ih notes held
  | looking next ih => exact .get (c := fun isOpen => (next isOpen).course) (ih held.contains held)
  | execute e sql params next ih =>
    have hcall : Follows held.contains held.contains held.contains (e.execute held sql params)
        (Course.enter e.line (Course.execute e.line sql params) : Course σ κ _) :=
      .enter fun _ => .bind (.perform e.line _) fun reply => .pure _
    exact .bind hcall fun result => ih result held
  | stream e sql params consume start next ih =>
    have hcall : Follows held.contains held.contains held.contains
        (e.stream held sql params consume start)
        (Course.stream e.line sql params consume start : Course σ κ _) :=
      .bind (.enter fun _ => .bind (.perform e.line _) fun reply => .pure _) fun result => .pure _
    exact .bind hcall fun delivered => ih delivered held
  | transaction e patience options body next ihbody ihnext =>
    have hbody := ihbody (e.line :: held)
    have hcall : Follows held.contains held.contains held.contains
        (e.transaction held patience options fun f => body.work f.held)
        (Course.enter e.line (Course.attempts e.line options body.course patience 0) :
          Course σ κ _) := by
      refine .enter fun hclosed => .attempts hclosed ?_ patience 0
      rw [← contains_held]
      exact hbody
    exact .bind hcall fun result => ihnext result held
  | statement f sql params next ih =>
    exact .bind (.bind (.perform f.executor.line _) fun reply => .pure _) fun result => ih result held
  | rows f sql params consume start next ih =>
    exact .bind (.bind (.perform f.executor.line _) fun reply => .pure _) fun delivered =>
      ih delivered held
  | frame f body next ihbody ihnext =>
    exact .bind (.nested (ihbody held)) fun result => ihnext result held

/-- From a world in which a caller holds the lines with an open transaction and no others, as one does
who holds nothing yet. In its course, `Course.enter` decides by the open transactions alone. -/
theorem reentry_refused_exactly (p : Path σ α) {held : List Nat} {w : World σ κ}
    (hw : w.Stands held.contains held.contains) (sessions : Sessions) :
    (∀ (e : Executor) (call : Task σ (Except Error β)), e.hold held call =
      if w.situation.isOpen e.line then pure (.error .transactionDeadlock)
      else Task.hold e.line call) ∧
    ∃ result s w', p.course w.situation = (result, s) ∧
      (p.work held).Comes sessions w result w' ∧ w'.situation = s ∧
      (result.isSome → w'.Stands held.contains held.contains ∧ s.isOpen = w.situation.isOpen) ∧
      ∃ t, t.result? = result ∧ t.canMove w' = false ∧
        Task.Leads sessions ((p.work held).settle sessions w) (t, w') := by
  have hopen : ∀ {v : World σ κ}, v.Stands held.contains held.contains →
      v.situation.isOpen = held.contains := fun hv => funext fun n => (hv n).isOpen
  refine ⟨fun e call => ?_, ?_⟩
  · rw [hopen hw]
    rfl
  · obtain ⟨w', hcomes, hsituation, hstands⟩ := p.follows held sessions w hw
    refine ⟨_, _, w', rfl, hcomes, hsituation, fun hresult => ⟨hstands hresult, ?_⟩, hcomes.played⟩
    rw [← hsituation, hopen hw, hopen (hstands hresult)]

/-- Executor 0, then 1 inside of it, and then 0 again, which is refused. The first attempt of the outer
transaction ends in a conflict. -/
def crossing : Path (List Bool) Unit :=
  .transaction ⟨0, none⟩ 2 { retry := .onConflict none }
    (.transaction ⟨1, none⟩ 1 {}
      (.execute ⟨0, none⟩ "SET a" [.int 1] fun refused =>
        .looking fun held => .noting (· ++ [held 0, held 1]) fun _ =>
          .done (refused.map fun _ => ()))
      fun _ => .looking fun held => .noting (· ++ [held 0, held 1]) fun seen =>
        .done (if seen.length = 2 then .error (Memory.failure "40001" "conflict") else .ok ()))
    .done

theorem reentry_refused_exactly_crossing :
    let w : World (List Bool) Memory := ⟨[], fun _ => { endpoint := {} }⟩
    ∃ result w', (crossing.work []).Comes (fun _ => 0) w result w' ∧
      result.any Except.isOk ∧ w'.notes = [true, true, true, false, true, true, true, false] ∧
      (w'.situation.sent 0).map Command.entry = ["begin", "rollback", "begin", "commit"] ∧
      (w'.situation.sent 1).map Command.entry = ["begin", "rollback", "begin", "rollback"] ∧
      w'.Stands [].contains [].contains := by
  intro w
  have hw : w.Stands [].contains [].contains := fun _ => ⟨rfl, rfl, rfl⟩
  obtain ⟨-, result, s, w', hcourse, hcomes, rfl, hstands, -⟩ :=
    reentry_refused_exactly (β := Unit) crossing hw fun _ => 0
  have hresult : (crossing.course w.situation).1 = result := by rw [hcourse]
  have hsituation : (crossing.course w.situation).2 = w'.situation := by rw [hcourse]
  have hok : result.any Except.isOk := by
    rw [← hresult]
    decide +kernel
  refine ⟨result, w', hcomes, hok, ?_, ?_, ?_, (hstands (Option.isSome_of_any hok)).1⟩
  · change w'.situation.notes = _
    rw [← hsituation]
    decide +kernel
  · rw [← hsituation]
    decide +kernel
  · rw [← hsituation]
    decide +kernel

end Path

end Polystore.Transaction
