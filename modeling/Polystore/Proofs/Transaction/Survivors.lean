import Polystore.Proofs.Transaction.Plan
import Polystore.Proofs.Transaction.Retry

/-!
The statements that are in force at the end of a transaction on a connection in memory. A ledger does
with the statements themselves what the connection does with the data. Main statement: in whichever
order the commands of a body have been sent, the data that are committed are what the surviving
statements make of the data before.
-/

namespace Polystore.Transaction

variable {σ α : Type}

/-- What a command makes of the data, other than by putting a copy back. -/
def Command.alter : Command → Data → Data
  | .execute sql params, data => (Memory.execute data sql params).2
  | _, data => data

/-- The data after these statements, one after the other. -/
def performed (before : Data) (statements : List Sent) : Data :=
  statements.foldl (fun data s => s.entry.command.alter data) before

theorem performed_append (before : Data) (earlier later : List Sent) :
    performed before (earlier ++ later) = performed (performed before earlier) later :=
  List.foldl_append

/-- The statements in force, and the copies of them that are kept by the savepoints, the latest
first. -/
structure Ledger where
  kept : List Sent
  copies : List (String × List Sent)

namespace Ledger

/-- The copies from the latest one of a name on. -/
def fromCopy (l : Ledger) (name : String) :
    Option ((String × List Sent) × List (String × List Sent)) :=
  match l.copies.dropWhile fun c => c.1 != name with
  | [] => none
  | found :: earlier => some (found, earlier)

def perform (l : Ledger) (s : Sent) : Ledger :=
  match s.entry.command with
  | .execute _ _ => { l with kept := l.kept ++ [s] }
  | .savepoint name => { l with copies := (name, l.kept) :: l.copies }
  | .release name =>
    match l.fromCopy name with
    | none => l
    | some (_, earlier) => { l with copies := earlier }
  | .rollbackTo name =>
    match l.fromCopy name with
    | none => l
    | some (found, earlier) => ⟨found.2, found :: earlier⟩
  | .begin _ | .commit | .rollback => l

/-- The savepoint of a connection whose data were `before` when the ledger was empty. -/
def copied (before : Data) (copy : String × List Sent) : String × Data :=
  (copy.1, performed before copy.2)

/-- A connection is as a ledger says. -/
structure Describes (l : Ledger) (before : Data) (m : Memory) : Prop where
  data : m.data = performed before l.kept
  savepoints : m.savepoints = l.copies.map (copied before)

namespace Describes

variable {l : Ledger} {before : Data} {m : Memory}

theorem fromSavepoint (h : l.Describes before m) (name : String) :
    m.fromSavepoint name = (l.fromCopy name).map fun (found, earlier) =>
      (copied before found, earlier.map (copied before)) := by
  have hnames : (fun s : String × Data => s.1 != name) ∘ copied before =
      fun c : String × List Sent => c.1 != name := rfl
  rw [Memory.fromSavepoint, h.savepoints, List.dropWhile_map, fromCopy, hnames]
  cases l.copies.dropWhile fun c => c.1 != name with
  | nil => rfl
  | cons found earlier => rfl

/-- A connection finds its savepoint where the ledger finds its copy. -/
theorem answered (h : l.Describes before m) {command : Command} {name : String}
    (hcommand : command = .release name ∨ command = .rollbackTo name)
    (hfound : (l.fromCopy name).isSome = true) :
    (Endpoint.perform command m).1.outcome = .ok none := by
  obtain ⟨⟨found, earlier⟩, hcopy⟩ := Option.isSome_iff_exists.mp hfound
  have hsavepoint : ({ m with log := command :: m.log } : Memory).fromSavepoint name =
      some (copied before found, earlier.map (copied before)) := by
    apply (h.fromSavepoint name).trans
    rw [hcopy]
    rfl
  rcases hcommand with rfl | rfl
  · simp only [Endpoint.perform, Memory.apply, hsavepoint]
  · simp only [Endpoint.perform, Memory.apply, hsavepoint]

theorem perform (h : l.Describes before m) {s : Sent} (hinner : s.entry.command.isInner = true) :
    (l.perform s).Describes before (Endpoint.perform s.entry.command m).2 := by
  have hsavepoint (name : String) :
      ({ m with log := s.entry.command :: m.log } : Memory).fromSavepoint name = _ :=
    h.fromSavepoint name
  cases hcommand : s.entry.command with
  | begin isolation => simp [hcommand, Command.isInner] at hinner
  | commit => simp [hcommand, Command.isInner] at hinner
  | rollback => simp [hcommand, Command.isInner] at hinner
  | execute sql params =>
    simp only [Ledger.perform, hcommand]
    refine ⟨?_, h.savepoints⟩
    rw [performed_append, ← h.data]
    simp only [performed, List.foldl_cons, List.foldl_nil, hcommand]
    rfl
  | savepoint name =>
    simp only [Ledger.perform, hcommand]
    refine ⟨h.data, ?_⟩
    rw [List.map_cons, ← h.savepoints, copied, ← h.data]
    rfl
  | release name =>
    simp only [Ledger.perform, hcommand, Endpoint.perform, Memory.apply]
    simp only [hcommand] at hsavepoint
    rw [hsavepoint]
    cases l.fromCopy name with
    | none => exact ⟨h.data, h.savepoints⟩
    | some copy => exact ⟨h.data, rfl⟩
  | rollbackTo name =>
    simp only [Ledger.perform, hcommand, Endpoint.perform, Memory.apply]
    simp only [hcommand] at hsavepoint
    rw [hsavepoint]
    cases l.fromCopy name with
    | none => exact ⟨h.data, h.savepoints⟩
    | some copy => exact ⟨rfl, rfl⟩

end Describes

end Ledger

/-- The statements that are in force after these commands. -/
def survivors (log : List Sent) : List Sent :=
  (log.foldl Ledger.perform ⟨[], []⟩).kept

theorem Ledger.Describes.replay {l : Ledger} {before : Data} {m : Memory} {log : List Sent}
    (h : l.Describes before m) (hinner : ∀ s ∈ log, s.entry.command.isInner = true) :
    (log.foldl Ledger.perform l).Describes before (Line.replay m (log.map Sent.entry)) := by
  induction log generalizing l m with
  | nil => exact h
  | cons s rest ih =>
    apply ih (h.perform (hinner s List.mem_cons_self))
    intro other hother
    exact hinner other (List.mem_cons_of_mem s hother)

/-- A transaction that has been committed, starting from these data: the commands that its body has
issued in the last attempt, in the order in which they have been answered, and what they have left
behind. -/
structure Committed (isolation : Isolation) (p : Plan σ α) (value : α) (before : Data)
    (log : List Sent) (l : Line Memory) : Prop where
  issues : p.Issues [] log (some (.ok value))
  sorted : log.Pairwise fun a b => a.entry.seat.number < b.entry.seat.number
  recorded : ∃ start : Memory, start.Begun before ∧ Line.Recorded start (log.map Sent.entry)
  commands : ∃ earlier, l.history.map Entry.command =
    earlier ++ .begin isolation :: (log.map (fun s => s.entry.command) ++ [.commit])
  data : l.endpoint.data = performed before (survivors log)
  idle : l.endpoint.Idle

/-- Whatever is done side by side in the body, and in whichever order. -/
theorem Executor.transaction_committed {e : Executor} {held : List Nat} {patience : Nat}
    {options : Options} {p : Plan σ α} {value : α} {w w' : World σ Memory} {m : Memory} {issued : Nat}
    (hheld : e.line ∉ held) (hidle : w.lines e.line = { endpoint := m, issued }) (hm : m.Idle)
    (hrollbacks : m.failingRollbacks = false)
    (h : Reaches (fun _ => 0) (e.transaction held patience options p.work, w) (.done (.ok value), w')) :
    ∃ log, Committed options.isolation p value m.data log (w'.lines e.line) := by
  rw [transaction, hold, if_neg (by simpa using hheld)] at h
  have hinner := p.work_inner ⟨e, 0, e.line :: held⟩ e.line issued
  obtain ⟨tried, last, hfollow, hfound, -, -, hresult, -, hdata, hended, hcommands⟩ :=
    hold_attempts_found h hinner hidle hm hrollbacks
  obtain ⟨found, left, result, sent, refusal⟩ := last
  have hruns := hfollow tried.length (by simp)
  rw [List.getElem_concat_length rfl] at hruns
  -- The last attempt has been committed.
  obtain ⟨rfl, rfl⟩ : result = .ok value ∧ refusal = none := by
    cases refusal with
    | some refused => cases hresult
    | none => exact ⟨hresult.symm, rfl⟩
  have hsession : Sessions.enter (fun _ => 0) e.line issued e.line = issued := if_pos rfl
  rw [← hsession] at hinner hfound
  obtain ⟨sent', hsent, hissues⟩ := hruns.body.issues hinner hfound
  obtain rfl : sent = sent' := List.append_cancel_left (hruns.trace.symm.trans hsent)
  have hroot : ([] : List Nat).length = 0 := rfl
  obtain ⟨log, rfl, hissued⟩ :=
    Plan.issues_of_work (f := ⟨e, 0, e.line :: held⟩) hroot hissues
  have hsorted := (hruns.body.inner hinner hfound).1.numbers_sorted
  rw [hruns.trace, List.pairwise_append, List.pairwise_map] at hsorted
  have hdescribes : Ledger.Describes ⟨[], []⟩ m.data (found.lines e.line).endpoint :=
    ⟨hruns.begun.data, hruns.begun.savepoints⟩
  have hlog : ∀ s ∈ log, s.entry.command.isInner = true := by
    intro s hs
    exact hruns.inner s.entry (List.mem_map_of_mem hs)
  refine ⟨log, {
    issues := hissued
    sorted := hsorted.2.1
    recorded := ⟨_, hruns.begun, hruns.recorded⟩
    commands := ⟨tried.flatMap (Attempt.commands options.isolation), ?_⟩
    data := hdata.trans (hdescribes.replay hlog).data
    idle := hended }⟩
  rw [hcommands, List.flatMap_append, List.flatMap_singleton, Attempt.commands, List.map_map]
  rfl

end Polystore.Transaction
