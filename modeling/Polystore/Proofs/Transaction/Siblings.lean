import Mathlib.Data.List.Infix
import Polystore.Proofs.Transaction.Stacking

/-!
Sibling frames. A body opens frames inside its frame and goes on meanwhile. Main statement: as long as
no two frames are under way side by side, a frame that has ended well keeps its effects and one that
has failed keeps none, whatever the others come to. Side by side they take each other's savepoints,
which have one name.
-/

namespace Polystore.Transaction

variable {σ α : Type} {underway : List Nat} {log : List Sent}

/-- A statement that is sent while frames are under way is taken for one of theirs. -/
def Sent.within (underway : List Nat) (s : Sent) : Sent :=
  if s.entry.command.isStatement then ⟨underway, s.entry⟩ else s

def placed : (underway : List Nat) → List Sent → List Sent
  | _, [] => []
  | underway, s :: rest => s.within underway :: placed (s.within underway).leaves rest

/-- No two frames are under way side by side. Statements from outside of a frame may be sent
meanwhile. -/
def Apart : (underway : List Nat) → List Sent → Prop :=
  Fits fun underway s => (s.within underway).leaves

theorem Sent.within_statement {s : Sent} (h : s.entry.command.isStatement = true)
    (underway : List Nat) : s.within underway = ⟨underway, s.entry⟩ :=
  if_pos h

theorem Sent.within_frame {s : Sent} (h : s.entry.command.isStatement = false)
    (underway : List Nat) : s.within underway = s :=
  if_neg (Bool.eq_false_iff.mp h)

theorem Sent.within_entry (underway : List Nat) (s : Sent) : (s.within underway).entry = s.entry := by
  rw [within]
  split <;> rfl

theorem placed_entries (underway : List Nat) (log : List Sent) :
    (placed underway log).map Sent.entry = log.map Sent.entry := by
  induction log generalizing underway with
  | nil => rfl
  | cons s rest ih => rw [placed, List.map_cons, List.map_cons, ih, Sent.within_entry]

theorem placed_sorted (underway : List Nat)
    (h : log.Pairwise fun a b => a.entry.seat.number < b.entry.seat.number) :
    (placed underway log).Pairwise fun a b => a.entry.seat.number < b.entry.seat.number := by
  have hentries : (log.map Sent.entry).Pairwise fun a b => a.seat.number < b.seat.number := by
    rwa [List.pairwise_map]
  rwa [← placed_entries underway, List.pairwise_map] at hentries

theorem rolledBack_placed (underway : List Nat) (log : List Sent) :
    rolledBack (placed underway log) = rolledBack log := by
  induction log generalizing underway with
  | nil => rfl
  | cons s rest ih =>
    have hfirst : rolledBack [s.within underway] = rolledBack [s] := by
      cases hs : s.entry.command.isStatement with
      | true =>
        obtain ⟨sql, params, hcommand⟩ := Command.execute_of_isStatement hs
        simp [Sent.within_statement hs, rolledBack, hcommand]
      | false => rw [Sent.within_frame hs]
    calc rolledBack (placed underway (s :: rest))
      _ = rolledBack [s.within underway] ++ rolledBack (placed (s.within underway).leaves rest) :=
          rolledBack_append [_] _
      _ = rolledBack [s] ++ rolledBack rest := by rw [hfirst, ih]
      _ = rolledBack (s :: rest) := (rolledBack_append [s] rest).symm

theorem placed_formed (underway : List Nat) (hformed : ∀ s ∈ log, s.Formed []) :
    ∀ s ∈ placed underway log, s.Formed [] := by
  induction log generalizing underway with
  | nil => exact List.forall_mem_nil _
  | cons s rest ih =>
    obtain ⟨hs, hrest⟩ := List.forall_mem_cons.mp hformed
    refine List.forall_mem_cons.mpr ⟨?_, ih _ hrest⟩
    cases hstatement : s.entry.command.isStatement with
    | true =>
      obtain ⟨sql, params, hcommand⟩ := Command.execute_of_isStatement hstatement
      rw [Sent.within_statement hstatement]
      exact .statement hcommand List.nil_suffix
    | false => rwa [Sent.within_frame hstatement]

namespace Apart

/-- A statement has been sent from within its own frames at least. -/
theorem extends_frames (h : Apart underway log) :
    List.Forall₂ (fun s t => t.entry = s.entry ∧ s.frames <:+ t.frames) log (placed underway log) := by
  induction log generalizing underway with
  | nil => exact .nil
  | cons s rest ih =>
    obtain ⟨hneeds, hrest⟩ := h
    refine .cons ⟨Sent.within_entry underway s, ?_⟩ (ih hrest)
    cases hs : s.entry.command.isStatement with
    | true =>
      rw [(Sent.of_statement hs).1] at hneeds
      rwa [Sent.within_statement hs]
    | false => rw [Sent.within_frame hs]

theorem in_turn (h : Apart underway log) : InTurn underway (placed underway log) := by
  induction log generalizing underway with
  | nil => trivial
  | cons s rest ih =>
    obtain ⟨hneeds, hrest⟩ := h
    refine ⟨?_, ih hrest⟩
    cases hs : s.entry.command.isStatement with
    | true =>
      rw [Sent.within_statement hs, (Sent.of_statement (s := ⟨underway, s.entry⟩) hs).1]
    | false => rwa [Sent.within_frame hs]

end Apart

/-- Frames that are sent from in turn are apart, whatever else a body does meanwhile. -/
theorem Plan.Issues.apart {p : Plan σ α} {result : Option (Except Error α)}
    (h : p.Issues [] log result) (hp : p.TakesTurns true) : Apart [] log := by
  apply h.fits ?_ ?_ hp (List.suffix_refl [])
  · intro underway s hneeds
    cases hs : s.entry.command.isStatement with
    | true =>
      rw [(Sent.of_statement hs).1] at hneeds
      rwa [Sent.within_statement hs, (Sent.of_statement hs).2,
        (Sent.of_statement (s := ⟨underway, s.entry⟩) hs).2]
    | false => rw [Sent.within_frame hs]
  · intro _ underway s hs
    rw [Sent.within_statement hs, (Sent.of_statement (s := ⟨underway, s.entry⟩) hs).2]

/-- Which frames statements are said to belong to is nothing to the data. -/
theorem performed_survivors (before : Data) {log log' : List Sent}
    (hentries : log'.map Sent.entry = log.map Sent.entry)
    (hinner : ∀ s ∈ log, s.entry.command.isInner = true)
    (hinner' : ∀ s ∈ log', s.entry.command.isInner = true) :
    performed before (survivors log) = performed before (survivors log') := by
  have hempty : Ledger.Describes ⟨[], []⟩ before { data := before } := ⟨rfl, rfl⟩
  have h := (hempty.replay hinner).data
  have h' := (hempty.replay hinner').data
  rw [hentries] at h'
  exact h.symm.trans h'

/-- **Frames side by side.** A transaction on a connection in memory is committed, whatever its body does
and in whichever order. What it leaves behind is what the surviving statements make of the data before;
if no frame has failed, these are all statements. If no two frames have been under way side by side,
each frame has come to what its body has come to, and a statement survives exactly if none of the frames
that were under way when it was sent has failed, its own among them: what other frames have come to does
not matter. So it is in every run of a body that never does two things at once which both open
frames. -/
theorem transaction_siblings {e : Executor} {held : List Nat} {patience : Nat} {options : Options}
    {p : Plan σ α} {value : α} {w w' : World σ Memory} {m : Memory} {issued : Nat}
    (hheld : e.line ∉ held) (hidle : w.lines e.line = { endpoint := m, issued }) (hm : m.Idle)
    (hrollbacks : m.failingRollbacks = false)
    (h : Reaches (fun _ => 0) (e.transaction held patience options p.work, w) (.done (.ok value), w')) :
    ∃ log, Committed options.isolation p value m.data log (w'.lines e.line) ∧
      (rolledBack log = [] → (w'.lines e.line).endpoint.data = performed m.data (statements log)) ∧
      (Apart [] log →
        (∀ s ∈ log, s.entry.command.isStatement = false → s.entry.reply.outcome = .ok none) ∧
        List.Forall₂ (fun s t => t.entry = s.entry ∧ s.frames <:+ t.frames) log (placed [] log) ∧
        (w'.lines e.line).endpoint.data = performed m.data
          ((statements (placed [] log)).filter (Sent.Outside (rolledBack log)))) ∧
      (p.TakesTurns true → Apart [] log) := by
  obtain ⟨log, hcommitted⟩ := e.transaction_committed hheld hidle hm hrollbacks h
  have hformed := hcommitted.issues.formed
  refine ⟨log, hcommitted, ?_, ?_, hcommitted.issues.apart⟩
  · intro hnone
    rw [hcommitted.data, survivors_of_none hformed hnone]
  · intro hapart
    obtain ⟨start, hstart, hrecorded⟩ := hcommitted.recorded
    have hentries := placed_entries [] log
    have hformed' := placed_formed [] hformed
    have hsorted' := placed_sorted [] hcommitted.sorted
    have hturn := hapart.in_turn
    refine ⟨?_, hapart.extends_frames, ?_⟩
    · intro s hs
      have hentry := List.mem_map_of_mem (f := Sent.entry) hs
      rw [← hentries] at hentry
      obtain ⟨t, ht, hsame⟩ := List.mem_map.mp hentry
      rw [← hentries] at hrecorded
      rw [← hsame]
      exact hturn.answers hformed' hsorted' hstart hrecorded t ht
    · calc (w'.lines e.line).endpoint.data
        _ = performed m.data (survivors log) := hcommitted.data
        _ = performed m.data (survivors (placed [] log)) :=
            performed_survivors m.data hentries (fun s hs => (hformed s hs).isInner)
              fun t ht => (hformed' t ht).isInner
        _ = performed m.data (spared (placed [] log)) := by
            rw [hturn.survivors hformed' hsorted']
        _ = _ := by rw [spared, rolledBack_placed]

/-- A frame that fails, a statement at the same time, and another frame after them. -/
def aside : Plan Unit (Bool × Bool) :=
  .both
    (.frame (.execute "SET a" [.int 1] fun _ => .done (.error .objectNotFound))
      fun result : Except Error Unit => .done result)
    (.execute "SET b" [.int 2] fun rows => .done rows)
    fun first _ => .frame (.execute "SET c" [.int 3] fun rows => .done rows)
      fun last => .done (.ok (first.isOk, last.isOk))

/-- The statement counts as one of the frame that fails. -/
theorem transaction_siblings_aside :
    let call := (⟨0, none⟩ : Executor).transaction [] 1 {} aside.work
    let w : World Unit Memory := ⟨(), fun _ => { endpoint := {} }⟩
    let w' := (call.start 12 w).2
    (w'.lines 0).endpoint.data.map Prod.fst = ["c"] ∧
      ∃ log, Committed .default aside (false, true) [] log (w'.lines 0) ∧ Apart [] log ∧
        (w'.lines 0).endpoint.data =
          performed [] ((statements (placed [] log)).filter (Sent.Outside (rolledBack log))) := by
  intro call w w'
  have hrest : w.AtRest := fun _ => ⟨rfl, List.forall_mem_nil _⟩
  have hreturned : Reaches (fun _ => 0) (call, w) (.done (.ok (false, true)), w') :=
    (Task.start_reaches 12 call w hrest).returns (by decide +kernel)
  obtain ⟨log, hcommitted, -, hspared, hturns⟩ := @transaction_siblings Unit (Bool × Bool) ⟨0, none⟩ [] 1
    {} aside (false, true) w w' {} 0 List.not_mem_nil rfl ⟨rfl, rfl⟩ rfl hreturned
  have hapart : Apart [] log := hturns (by simp [aside, Plan.TakesTurns, Plan.Frameless])
  exact ⟨by decide +kernel, log, hcommitted, hapart, (hspared hapart).2.2⟩

/-- Two frames at once. The first one fails after its statement. -/
def race : Plan Unit (Bool × Bool) :=
  .both
    (.frame (.execute "SET a" [.int 1] fun _ => .done (.error .objectNotFound))
      fun result : Except Error Unit => .done result)
    (.frame (.execute "SET b" [.int 2] fun rows => .done rows) fun result => .done result)
    fun first second => .done (.ok (first.isOk, second.isOk))

theorem sibling_effects_lost :
    let call := (⟨0, none⟩ : Executor).transaction [] 1 {} race.work
    let w : World Unit Memory := ⟨(), fun _ => { endpoint := {} }⟩
    ∃ w', Reaches (fun _ => 0) (call, w) (.done (.ok (false, true)), w') ∧
      ((w'.lines 0).history.map fun entry => entry.command.entry) =
        ["begin", "savepoint dbkit_sp_1", "savepoint dbkit_sp_1", "exec SET a", "exec SET b",
          "rollback to dbkit_sp_1", "release dbkit_sp_1", "commit"] ∧
      (w'.lines 0).endpoint.committed "b" = none := by
  intro call w
  have hrest : w.AtRest := fun _ => ⟨rfl, List.forall_mem_nil _⟩
  exact ⟨_, (Task.start_reaches 12 call w hrest).returns (by decide +kernel), by decide +kernel,
    Option.isNone_iff_eq_none.mp (by decide +kernel)⟩

end Polystore.Transaction
