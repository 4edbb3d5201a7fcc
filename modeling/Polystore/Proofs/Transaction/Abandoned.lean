import Polystore.Proofs.Transaction.Stacking

/-!
Frames that are given up. Nobody rolls them back: the savepoint is left behind, and what follows is sent
from the frame around it. Main statement: the statements of a frame that has been given up are committed
unless a frame around it is rolled back.
-/

namespace Polystore.Transaction

variable {σ κ α : Type}

/-- The frames that have been released. -/
def released (log : List Sent) : List Nat :=
  log.filterMap fun s =>
    match s.entry.command, s.entry.reply.outcome with
    | .release _, .ok _ => s.frames.head?
    | _, _ => none

/-- A frame that has been opened has been released, or it has been rolled back, or one around it. -/
def Settled (log : List Sent) : Prop :=
  ∀ o ∈ log, ∀ name, o.entry.command = .savepoint name → o.Outside (rolledBack log) →
    o.entry.seat.number ∈ released log

theorem Plan.Issues.in_turn {p : Plan σ α} {log : List Sent} {result : Option (Except Error α)}
    (h : p.Issues [] log result) (hp : p.TakesTurns false) : InTurn [] log := by
  apply h.fits ?_ ?_ hp (List.suffix_refl [])
  · intro _ s _
    exact List.suffix_refl s.leaves
  · intro hatOnce
    cases hatOnce

theorem Settled.released {log : List Sent} (h : Settled log) (hturn : InTurn [] log)
    (hformed : ∀ s ∈ log, s.Formed []) : ∀ s ∈ spared log, s.frames ⊆ released log := by
  intro s hs id hid
  obtain ⟨hstatement, houtside⟩ := List.mem_filter.mp hs
  have houtside' : s.Outside (rolledBack log) := of_decide_eq_true houtside
  have hmem := List.mem_of_mem_filter hstatement
  rcases hturn.opened_of_mem hformed hmem hid with hroot | ⟨o, ho, rfl, hframes, name, hname⟩
  · exact absurd hroot List.not_mem_nil
  · apply h o ho name hname
    intro other hother
    exact houtside' other (hframes hother)

/-- **A frame that is given up.** A transaction on a connection in memory is committed, whatever its body
does or gives up, and in whichever order. If a frame sends nothing any more once something has been sent
from outside of it, then frames are opened and ended without failure, and a statement is in force at the
end exactly if none of its frames has been rolled back. That goes for a frame that has been given up as
well: its statements stay unless a frame around it is rolled back. If there is such a frame around each
that has been given up, all that stays has been sent from frames that have returned well. So it is in
every run of a body that does not do two things at once, wherever parts of it are given up. -/
theorem transaction_abandoned {e : Executor} {held : List Nat} {patience : Nat} {options : Options}
    {p : Plan σ α} {value : α} {w w' : World σ Memory} {m : Memory} {issued : Nat}
    (hheld : e.line ∉ held) (hidle : w.lines e.line = { endpoint := m, issued }) (hm : m.Idle)
    (hrollbacks : m.failingRollbacks = false)
    (h : Reaches (fun _ => 0) (e.transaction held patience options p.work, w) (.done (.ok value), w')) :
    ∃ log, Committed options.isolation p value m.data log (w'.lines e.line) ∧
      (InTurn [] log →
        (∀ s ∈ log, s.entry.command.isStatement = false → s.entry.reply.outcome = .ok none) ∧
        (w'.lines e.line).endpoint.data = performed m.data (spared log) ∧
        (Settled log → ∀ s ∈ spared log, s.frames ⊆ released log)) ∧
      (p.TakesTurns false → InTurn [] log) := by
  obtain ⟨log, hcommitted⟩ := e.transaction_committed hheld hidle hm hrollbacks h
  have hformed := hcommitted.issues.formed
  refine ⟨log, hcommitted, ?_, hcommitted.issues.in_turn⟩
  intro hturn
  obtain ⟨start, hstart, hrecorded⟩ := hcommitted.recorded
  refine ⟨hturn.answers hformed hcommitted.sorted hstart hrecorded, ?_, ?_⟩
  · rw [hcommitted.data, hturn.survivors hformed hcommitted.sorted]
  · intro hsettled
    exact hsettled.released hturn hformed

section

variable [Endpoint κ]

/-- Work that may be given up is given up where it has come to. -/
def Task.expire : {α : Type} → Task σ α → World σ κ → Task σ α × World σ κ
  | _, .holding line (.granted ticket) work next, w =>
    (.holding line (.granted ticket) (work.expire w).1 next, (work.expire w).2)
  | _, .limited work next, w => (next none, work.drop w)
  | _, t, w => (t, w)

theorem Task.expire_reaches (sessions : Sessions) (t : Task σ α) (w : World σ κ) :
    Reaches sessions (t, w) (t.expire w) := by
  fun_induction Task.expire t w generalizing sessions with
  | case1 _ _ line ticket work next w ih => exact (ih _).inside sessions line ticket next
  | case2 => exact .single .giveUp
  | case3 => exact .refl

omit [Endpoint κ] in
theorem Task.expire_atRest {t : Task σ α} {w : World σ κ} (h : w.AtRest) : (t.expire w).2.AtRest := by
  fun_induction Task.expire t w with
  | case1 _ _ line ticket work next w ih => exact ih h
  | case2 _ _ work next w => exact fun line => quit_atRest line work (h line)
  | case3 => exact h

/-- So many turns, then the end of the patience, and so many turns more. -/
def Task.startExpiring (turns later : Nat) (t : Task σ α) (w : World σ κ) : Task σ α × World σ κ :=
  let (t, w) := (t.start turns w).1.expire (t.start turns w).2
  t.run (fun _ => 0) later w

theorem Task.startExpiring_reaches (turns later : Nat) (t : Task σ α) (w : World σ κ) (h : w.AtRest) :
    Reaches (fun _ => 0) (t, w) (t.startExpiring turns later w) :=
  ((start_reaches turns t w h).trans (expire_reaches _ _ _)).trans
    (run_reaches _ later _ _ (expire_atRest (start_atRest turns t w h)))

end

/-- A frame that is given up inside one that fails, and a statement after them. -/
def recovered : Plan Unit Bool :=
  .frame
    (.limited (.frame (.execute "SET a" [.int 1] fun rows => .done rows) fun result => .done result)
      fun _ => .done (.error .objectNotFound))
    fun result : Except Error Unit =>
      .execute "SET b" [.int 2] fun rows => .done (rows.map fun _ => result.isOk)

theorem transaction_abandoned_recovered :
    let call := (⟨0, none⟩ : Executor).transaction [] 1 {} recovered.work
    let w : World Unit Memory := ⟨(), fun _ => { endpoint := {} }⟩
    let w' := (call.startExpiring 4 12 w).2
    ((w'.lines 0).history.map fun entry => entry.command.entry) =
        ["begin", "savepoint dbkit_sp_1", "savepoint dbkit_sp_2", "exec SET a",
          "rollback to dbkit_sp_1", "exec SET b", "commit"] ∧
      (w'.lines 0).endpoint.data.map Prod.fst = ["b"] ∧
      ∃ log, Committed .default recovered false [] log (w'.lines 0) ∧ InTurn [] log ∧
        (w'.lines 0).endpoint.data = performed [] (spared log) := by
  intro call w w'
  have hrest : w.AtRest := fun _ => ⟨rfl, List.forall_mem_nil _⟩
  have hreturned : Reaches (fun _ => 0) (call, w) (.done (.ok false), w') :=
    (Task.startExpiring_reaches 4 12 call w hrest).returns (by decide +kernel)
  obtain ⟨log, hcommitted, hspared, hturns⟩ := @transaction_abandoned Unit Bool ⟨0, none⟩ [] 1
    {} recovered false w w' {} 0 List.not_mem_nil rfl ⟨rfl, rfl⟩ rfl hreturned
  have hturn : InTurn [] log := hturns (by simp [recovered, Plan.TakesTurns])
  exact ⟨by decide +kernel, by decide +kernel, log, hcommitted, hturn, (hspared hturn).2.1⟩

/-- A frame that is given up, and nothing after it. -/
def forsaken : Plan Unit Bool :=
  .limited (.frame (.execute "SET a" [.int 1] fun rows => .done rows) fun result => .done result)
    fun ended => .done (.ok ended.isSome)

theorem abandoned_writes_committed :
    let call := (⟨0, none⟩ : Executor).transaction [] 1 {} forsaken.work
    let w : World Unit Memory := ⟨(), fun _ => { endpoint := {} }⟩
    ∃ w', Reaches (fun _ => 0) (call, w) (.done (.ok false), w') ∧
      ((w'.lines 0).history.map fun entry => entry.command.entry) =
        ["begin", "savepoint dbkit_sp_1", "exec SET a", "commit"] ∧
      ((w'.lines 0).endpoint.committed "a").isSome = true := by
  intro call w
  have hrest : w.AtRest := fun _ => ⟨rfl, List.forall_mem_nil _⟩
  exact ⟨_, (Task.startExpiring_reaches 3 12 call w hrest).returns (by decide +kernel),
    by decide +kernel, by decide +kernel⟩

end Polystore.Transaction
