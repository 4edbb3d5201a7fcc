import Polystore.Proofs.Transaction.Memory
import Polystore.Proofs.Transaction.Survivors
import Polystore.Proofs.Transaction.Turns

/-!
What savepoints hold while frames take turns. A savepoint is found by the depth of its frame alone. As
long as frames take turns, what lies above the savepoint of a frame under way belongs to deeper frames,
so that it is found again. Main statement: the statements that survive are those that have not been
rolled back, and all of them.
-/

namespace Polystore.Transaction

namespace Sent

/-- None of the frames that a command has been sent from within is one of these. -/
def Outside (ids : List Nat) (s : Sent) : Prop :=
  ∀ id ∈ s.frames, id ∉ ids

instance (ids : List Nat) : DecidablePred (Outside ids) :=
  fun s => inferInstanceAs (Decidable (∀ id ∈ s.frames, id ∉ ids))

theorem outside_append {ids ids' : List Nat} {s : Sent} :
    s.Outside (ids ++ ids') ↔ s.Outside ids ∧ s.Outside ids' := by
  simp only [Outside, List.mem_append, not_or]
  exact forall₂_and

end Sent

/-- The frames that have been rolled back. -/
def rolledBack (log : List Sent) : List Nat :=
  log.filterMap fun s =>
    match s.entry.command with
    | .rollbackTo _ => s.frames.head?
    | _ => none

def statements (log : List Sent) : List Sent :=
  log.filter fun s => s.entry.command.isStatement

theorem rolledBack_append (earlier later : List Sent) :
    rolledBack (earlier ++ later) = rolledBack earlier ++ rolledBack later :=
  List.filterMap_append

theorem statements_append (earlier later : List Sent) :
    statements (earlier ++ later) = statements earlier ++ statements later :=
  List.filter_append ..

/-- The statements that no frame has been rolled back around. -/
def spared (log : List Sent) : List Sent :=
  (statements log).filter fun s => s.Outside (rolledBack log)

/-- If nothing is rolled back, all is kept, in whichever order it is sent. -/
theorem Ledger.kept_of_none {l : Ledger} {log : List Sent} (hformed : ∀ s ∈ log, s.Formed [])
    (hnone : rolledBack log = []) : (log.foldl Ledger.perform l).kept = l.kept ++ statements log := by
  induction log generalizing l with
  | nil => exact (List.append_nil _).symm
  | cons s rest ih =>
    obtain ⟨hs, hformed⟩ := List.forall_mem_cons.mp hformed
    rw [← List.singleton_append, rolledBack_append, List.append_eq_nil_iff] at hnone
    rw [List.foldl_cons, ih hformed hnone.2, ← List.singleton_append, statements_append,
      ← List.append_assoc]
    apply congrArg (· ++ statements rest)
    cases hs with
    | statement hcommand => simp [perform, statements, Command.isStatement, hcommand]
    | opening hcommand => simp [perform, statements, Command.isStatement, hcommand]
    | release hcommand =>
      simp only [perform, statements, hcommand]
      cases l.fromCopy _ <;> simp [Command.isStatement, hcommand]
    | rollback hcommand => simp [rolledBack, hcommand] at hnone

theorem survivors_of_none {log : List Sent} (hformed : ∀ s ∈ log, s.Formed [])
    (hnone : rolledBack log = []) : survivors log = statements log :=
  Ledger.kept_of_none hformed hnone

section

variable {underway : List Nat} {log : List Sent} {number : Nat}

/-- Copies with those of the frames under way among them, the innermost first. Above the copy of a frame
there are only copies of deeper frames. A copy has all that is in force but what has been sent from
within its frame. -/
inductive Stacked (kept : List Sent) : List Nat → List (String × List Sent) → Prop where
  | root (copies : List (String × List Sent)) : Stacked kept [] copies
  | frame {id : Nat} {outer : List Nat} {stale below : List (String × List Sent)}
      (hstale : ∀ c ∈ stale, ∃ d, outer.length + 1 < d ∧ c.1 = Frame.savepoint d)
      (h : Stacked kept outer below) :
      Stacked kept (id :: outer)
        (stale ++ (Frame.savepoint (outer.length + 1), kept.filter (Sent.Outside [id])) :: below)

namespace Stacked

variable {kept kept' : List Sent} {copies stale : List (String × List Sent)}

theorem push (h : Stacked kept underway copies)
    (hstale : ∀ c ∈ stale, ∃ d, underway.length < d ∧ c.1 = Frame.savepoint d) :
    Stacked kept underway (stale ++ copies) := by
  cases h with
  | root => exact .root _
  | frame hdeeper h =>
    rw [← List.append_assoc]
    exact .frame (List.forall_mem_append.mpr ⟨hstale, hdeeper⟩) h

theorem tail {id : Nat} {outer : List Nat} (h : Stacked kept (id :: outer) copies) :
    Stacked kept outer copies := by
  cases h with
  | @frame _ _ stale below hstale h =>
    rw [List.append_cons]
    apply h.push
    intro c hc
    rcases List.mem_append.mp hc with hc | hc
    · obtain ⟨d, hd, hname⟩ := hstale c hc
      exact ⟨d, Nat.lt_of_succ_lt hd, hname⟩
    · rw [List.mem_singleton.mp hc]
      exact ⟨outer.length + 1, Nat.lt_succ_self _, rfl⟩

theorem of_suffix {outer : List Nat} (h : Stacked kept underway copies) (houter : outer <:+ underway) :
    Stacked kept outer copies := by
  obtain ⟨inner, rfl⟩ := houter
  induction inner with
  | nil => exact h
  | cons id inner ih => exact ih h.tail

/-- Copies stay right as long as nothing changes but what has been sent from within their frames. -/
theorem congr (h : Stacked kept underway copies)
    (hkept : ∀ id ∈ underway, kept'.filter (Sent.Outside [id]) = kept.filter (Sent.Outside [id])) :
    Stacked kept' underway copies := by
  induction h with
  | root copies => exact .root copies
  | @frame id outer stale below hstale _ ih =>
    rw [← hkept id List.mem_cons_self]
    apply Stacked.frame hstale
    apply ih
    intro other hother
    exact hkept other (List.mem_cons_of_mem id hother)

/-- The innermost frame finds its copy. -/
theorem fromCopy {l : Ledger} {id : Nat} {outer : List Nat} (h : Stacked kept (id :: outer) l.copies) :
    ∃ below, l.fromCopy (Frame.savepoint (outer.length + 1)) =
      some ((Frame.savepoint (outer.length + 1), kept.filter (Sent.Outside [id])), below) ∧
      Stacked kept outer below := by
  rw [Ledger.fromCopy]
  generalize l.copies = copies at h ⊢
  cases h with
  | @frame _ _ stale below hstale h =>
    refine ⟨below, ?_, h⟩
    have hpassed : ∀ c ∈ stale, (c.1 != Frame.savepoint (outer.length + 1)) = true := by
      intro c hc
      obtain ⟨d, hd, hname⟩ := hstale c hc
      rw [bne_iff_ne, hname]
      intro heq
      exact Nat.ne_of_gt hd (Frame.savepoint_injective heq)
    rw [List.dropWhile_append_of_pos hpassed]
    simp

end Stacked

namespace Ledger

/-- A ledger while these frames are under way. The seats from a number on have not been given out. -/
structure Follows (l : Ledger) (underway : List Nat) (number : Nat) : Prop where
  stacked : Stacked l.kept underway l.copies
  /-- What has been sent from within a frame under way has been sent from within those around it. -/
  nested : ∀ s ∈ l.kept, ∀ id outer, id :: outer <:+ underway → id ∈ s.frames → outer ⊆ s.frames
  distinct : underway.Nodup
  earlier : ∀ id ∈ underway, id < number
  kept : ∀ s ∈ l.kept, ∀ id ∈ s.frames, id < number

namespace Follows

variable {l : Ledger}

theorem initial (number : Nat) : Follows ⟨[], []⟩ [] number where
  stacked := .root []
  nested := List.forall_mem_nil _
  distinct := List.nodup_nil
  earlier := List.forall_mem_nil _
  kept := List.forall_mem_nil _

theorem of_suffix (h : l.Follows underway number) {outer : List Nat} (houter : outer <:+ underway) :
    l.Follows outer number where
  stacked := h.stacked.of_suffix houter
  nested s hs id inner hid := h.nested s hs id inner (hid.trans houter)
  distinct := h.distinct.sublist houter.sublist
  earlier id hid := h.earlier id (houter.subset hid)
  kept := h.kept

theorem later (h : l.Follows underway number) {number' : Nat} (hnumber : number ≤ number') :
    l.Follows underway number' where
  stacked := h.stacked
  nested := h.nested
  distinct := h.distinct
  earlier id hid := Nat.lt_of_lt_of_le (h.earlier id hid) hnumber
  kept s hs id hid := Nat.lt_of_lt_of_le (h.kept s hs id hid) hnumber

theorem execute (h : l.Follows underway number) {s : Sent} (hframes : s.frames = underway) :
    Follows { l with kept := l.kept ++ [s] } underway number where
  stacked := by
    apply h.stacked.congr
    intro id hid
    rw [← hframes] at hid
    have hinside : ¬ s.Outside [id] := fun hout => hout id hid List.mem_cons_self
    rw [List.filter_append, List.filter_singleton, decide_eq_false hinside]
    exact List.append_nil _
  nested t ht id outer hid hmem := by
    rcases List.mem_append.mp ht with ht | ht
    · exact h.nested t ht id outer hid hmem
    · rw [List.mem_singleton.mp ht, hframes]
      exact List.Subset.trans (List.suffix_cons id outer).subset hid.subset
  distinct := h.distinct
  earlier := h.earlier
  kept t ht := by
    rcases List.mem_append.mp ht with ht | ht
    · exact h.kept t ht
    · rw [List.mem_singleton.mp ht, hframes]
      exact h.earlier

/-- A frame that is opened takes a copy of all that is in force. -/
theorem opening (h : l.Follows underway number) :
    Follows { l with copies := (Frame.savepoint (underway.length + 1), l.kept) :: l.copies }
      (number :: underway) (number + 1) where
  stacked := by
    have hall : l.kept.filter (Sent.Outside [number]) = l.kept := by
      apply List.filter_eq_self.mpr
      intro s hs
      apply decide_eq_true
      intro id hid
      rw [List.mem_singleton]
      exact Nat.ne_of_lt (h.kept s hs id hid)
    have hstacked : Stacked l.kept (number :: underway) ([] ++
        (Frame.savepoint (underway.length + 1), l.kept.filter (Sent.Outside [number])) :: l.copies) :=
      .frame (List.forall_mem_nil _) h.stacked
    rwa [hall] at hstacked
  nested s hs id outer hid hmem := by
    rcases List.suffix_cons_iff.mp hid with heq | hid
    · obtain ⟨rfl, -⟩ := List.cons.inj heq
      exact absurd (h.kept s hs _ hmem) (Nat.lt_irrefl _)
    · exact h.nested s hs id outer hid hmem
  distinct := by
    refine List.nodup_cons.mpr ⟨?_, h.distinct⟩
    intro hmem
    exact Nat.lt_irrefl number (h.earlier number hmem)
  earlier id hid := by
    rcases List.mem_cons.mp hid with rfl | hid
    · exact Nat.lt_succ_self id
    · exact Nat.lt_succ_of_lt (h.earlier id hid)
  kept s hs id hid := Nat.lt_succ_of_lt (h.kept s hs id hid)

variable {id : Nat}

/-- A frame that is released leaves what is in force alone. -/
theorem release (h : l.Follows (id :: underway) number) :
    ∃ found below, l.fromCopy (Frame.savepoint (underway.length + 1)) = some (found, below) ∧
      Follows { l with copies := below } underway number := by
  obtain ⟨below, hcopy, hbelow⟩ := h.stacked.fromCopy
  exact ⟨_, below, hcopy, { h.of_suffix (List.suffix_cons id underway) with stacked := hbelow }⟩

/-- A frame that is rolled back puts away what has been sent from within it. -/
theorem rollback (h : l.Follows (id :: underway) number) :
    ∃ found below, l.fromCopy (Frame.savepoint (underway.length + 1)) = some (found, below) ∧
      found.2 = l.kept.filter (Sent.Outside [id]) ∧
      Follows ⟨found.2, found :: below⟩ underway number := by
  obtain ⟨below, hcopy, hbelow⟩ := h.stacked.fromCopy
  have houter := h.of_suffix (List.suffix_cons id underway)
  refine ⟨_, below, hcopy, rfl, {
    stacked := ?_
    nested := fun s hs => houter.nested s (List.mem_of_mem_filter hs)
    distinct := houter.distinct
    earlier := houter.earlier
    kept := fun s hs => houter.kept s (List.mem_of_mem_filter hs) }⟩
  have hpushed : Stacked l.kept underway
      ([(Frame.savepoint (underway.length + 1), l.kept.filter (Sent.Outside [id]))] ++ below) := by
    apply hbelow.push
    intro c hc
    rw [List.mem_singleton.mp hc]
    exact ⟨underway.length + 1, Nat.lt_succ_self _, rfl⟩
  apply hpushed.congr
  intro other hother
  rw [List.filter_filter]
  apply List.filter_congr
  intro s hs
  -- What has been sent from outside of a frame has been sent from outside of those in it.
  have hinside : s.Outside [other] → s.Outside [id] := by
    intro hout inner hinner heq
    rw [List.mem_singleton.mp heq] at hinner
    have hother := h.nested s hs id underway (List.suffix_refl _) hinner hother
    exact hout other hother List.mem_cons_self
  rw [← Bool.decide_and, decide_eq_decide]
  exact and_iff_left_of_imp hinside

/-- What one command does to a ledger. -/
theorem perform (h : l.Follows underway number) {s : Sent} (hs : s.Formed [])
    (hneeds : s.needs <:+ underway) (hnumber : number ≤ s.entry.seat.number) :
    (l.perform s).Follows s.leaves (s.entry.seat.number + 1) ∧
      (∀ name, s.entry.command = .release name ∨ s.entry.command = .rollbackTo name →
        (l.fromCopy name).isSome = true) ∧
      (l.perform s).kept = (l.kept ++ statements [s]).filter (Sent.Outside (rolledBack [s])) := by
  have hfollows := (h.of_suffix hneeds).later hnumber
  have hnext := Nat.le_succ s.entry.seat.number
  cases hs with
  | @statement entry frames sql params hcommand =>
    simp only [Sent.needs, Sent.leaves, Ledger.perform, statements, rolledBack, hcommand] at hfollows ⊢
    refine ⟨(hfollows.execute rfl).later hnext, by simp, ?_⟩
    simp [Command.isStatement, Sent.Outside, hcommand]
  | @opening entry outer hcommand =>
    simp only [Sent.needs, Sent.leaves, Ledger.perform, statements, rolledBack, hcommand] at hfollows ⊢
    refine ⟨hfollows.opening, by simp, ?_⟩
    simp [Command.isStatement, Sent.Outside, hcommand]
  | @release entry id outer hcommand =>
    simp only [Sent.needs, Sent.leaves, Ledger.perform, statements, rolledBack, hcommand] at hfollows ⊢
    obtain ⟨found, below, hcopy, hreleased⟩ := hfollows.release
    simp only [hcopy]
    refine ⟨hreleased.later hnext, ?_, ?_⟩
    · rintro name (hname | hname)
      · cases hname
        rw [hcopy]
        rfl
      · cases hname
    · simp [Command.isStatement, Sent.Outside, hcommand]
  | @rollback entry id outer hcommand =>
    simp only [Sent.needs, Sent.leaves, Ledger.perform, statements, rolledBack, hcommand] at hfollows ⊢
    obtain ⟨found, below, hcopy, hfound, hrolled⟩ := hfollows.rollback
    simp only [hcopy]
    refine ⟨hrolled.later hnext, ?_, ?_⟩
    · rintro name (hname | hname)
      · cases hname
      · cases hname
        rw [hcopy]
        rfl
    · simp [Command.isStatement, hcommand, hfound]

/-- Nothing is sent any more from within a frame that has been rolled back. -/
theorem rest_outside (h : l.Follows underway number) {s : Sent} (hs : s.Formed [])
    (hneeds : s.needs <:+ underway) (hnumber : number ≤ s.entry.seat.number) {rest : List Sent}
    (hturn : InTurn s.leaves rest) (hformed : ∀ t ∈ rest, t.Formed [])
    (hlater : ∀ t ∈ rest, s.entry.seat.number < t.entry.seat.number) :
    ∀ t ∈ rest, t.Outside (rolledBack [s]) := by
  intro t ht id hid hback
  cases hs with
  | statement hcommand => simp [rolledBack, hcommand] at hback
  | opening hcommand => simp [rolledBack, hcommand] at hback
  | release hcommand => simp [rolledBack, hcommand] at hback
  | @rollback entry ended outer hcommand =>
    simp only [Sent.needs, Sent.leaves, hcommand] at hneeds hturn
    obtain rfl : id = ended := by simpa [rolledBack, hcommand, eq_comm] using hback
    have hdistinct := h.distinct.sublist hneeds.sublist
    rcases hturn.opened_of_mem hformed ht hid with hunderway | ⟨o, ho, hopened, -⟩
    · exact (List.nodup_cons.mp hdistinct).1 hunderway
    · have hearlier := h.earlier id (hneeds.subset List.mem_cons_self)
      have hafter := hlater o ho
      rw [hopened] at hafter
      exact Nat.lt_irrefl id (Nat.lt_trans (Nat.lt_of_lt_of_le hearlier hnumber) hafter)

/-- What is in force after a run. -/
theorem run (h : l.Follows underway number) (hturn : InTurn underway log)
    (hformed : ∀ s ∈ log, s.Formed [])
    (hsorted : log.Pairwise fun a b => a.entry.seat.number < b.entry.seat.number)
    (hnumber : ∀ s ∈ log, number ≤ s.entry.seat.number) :
    (log.foldl Ledger.perform l).kept =
      (l.kept ++ statements log).filter (Sent.Outside (rolledBack log)) := by
  induction log generalizing l underway number with
  | nil => simp [statements, rolledBack, Sent.Outside]
  | cons s rest ih =>
    obtain ⟨hneeds, hrest⟩ := hturn
    obtain ⟨hlater, hsorted⟩ := List.pairwise_cons.mp hsorted
    have hs := hformed s List.mem_cons_self
    have hformed' : ∀ t ∈ rest, t.Formed [] := fun t ht => hformed t (List.mem_cons_of_mem s ht)
    have hfirst := hnumber s List.mem_cons_self
    obtain ⟨hfollows, -, hkept⟩ := h.perform hs hneeds hfirst
    have houtside := h.rest_outside hs hneeds hfirst hrest hformed' hlater
    have hrest' : (statements rest).filter (Sent.Outside (rolledBack [s])) = statements rest := by
      apply List.filter_eq_self.mpr
      intro t ht
      exact decide_eq_true (houtside t (List.mem_of_mem_filter ht))
    have hlog : s :: rest = [s] ++ rest := rfl
    calc ((s :: rest).foldl Ledger.perform l).kept
      _ = ((l.kept ++ statements [s]).filter (Sent.Outside (rolledBack [s])) ++
            statements rest).filter (Sent.Outside (rolledBack rest)) := by
          rw [List.foldl_cons, ih hfollows hrest hformed' hsorted hlater, hkept]
      _ = ((l.kept ++ statements (s :: rest)).filter (Sent.Outside (rolledBack [s]))).filter
            (Sent.Outside (rolledBack rest)) := by
          rw [hlog, statements_append, ← List.append_assoc, List.filter_append (_ ++ _), hrest']
      _ = (l.kept ++ statements (s :: rest)).filter (Sent.Outside (rolledBack (s :: rest))) := by
          rw [List.filter_filter]
          apply List.filter_congr
          intro t _
          rw [hlog, rolledBack_append, ← Bool.decide_and, decide_eq_decide, Sent.outside_append,
            and_comm]

/-- Frames are opened and ended without failure. -/
theorem answers {before : Data} {m : Memory} (h : l.Follows underway number)
    (hm : l.Describes before m) (hturn : InTurn underway log) (hformed : ∀ s ∈ log, s.Formed [])
    (hsorted : log.Pairwise fun a b => a.entry.seat.number < b.entry.seat.number)
    (hnumber : ∀ s ∈ log, number ≤ s.entry.seat.number)
    (hrecorded : Line.Recorded m (log.map Sent.entry)) :
    ∀ s ∈ log, s.entry.command.isStatement = false → s.entry.reply.outcome = .ok none := by
  induction log generalizing l underway number m with
  | nil => exact List.forall_mem_nil _
  | cons s rest ih =>
    obtain ⟨hneeds, hrest⟩ := hturn
    obtain ⟨hlater, hsorted⟩ := List.pairwise_cons.mp hsorted
    obtain ⟨hreply, hrecorded⟩ := hrecorded
    obtain ⟨hs, hformed⟩ := List.forall_mem_cons.mp hformed
    have hfirst := hnumber s List.mem_cons_self
    obtain ⟨hfollows, hfound, -⟩ := h.perform hs hneeds hfirst
    intro t ht hstatement
    rcases List.mem_cons.mp ht with rfl | ht
    · rw [hreply]
      cases hs with
      | statement hcommand => simp [Command.isStatement, hcommand] at hstatement
      | opening hcommand =>
        rw [hcommand]
        rfl
      | release hcommand => exact hm.answered (.inl hcommand) (hfound _ (.inl hcommand))
      | rollback hcommand => exact hm.answered (.inr hcommand) (hfound _ (.inr hcommand))
    · exact ih hfollows (hm.perform hs.isInner) hrest hformed hsorted hlater hrecorded t ht hstatement

end Follows

end Ledger

theorem InTurn.survivors (h : InTurn [] log) (hformed : ∀ s ∈ log, s.Formed [])
    (hsorted : log.Pairwise fun a b => a.entry.seat.number < b.entry.seat.number) :
    survivors log = spared log :=
  (Ledger.Follows.initial 0).run h hformed hsorted fun _ _ => Nat.zero_le _

theorem InTurn.answers (h : InTurn [] log) (hformed : ∀ s ∈ log, s.Formed [])
    (hsorted : log.Pairwise fun a b => a.entry.seat.number < b.entry.seat.number) {before : Data}
    {start : Memory} (hstart : start.Begun before)
    (hrecorded : Line.Recorded start (log.map Sent.entry)) :
    ∀ s ∈ log, s.entry.command.isStatement = false → s.entry.reply.outcome = .ok none :=
  (Ledger.Follows.initial 0).answers ⟨hstart.data, hstart.savepoints⟩ h hformed hsorted
    (fun _ _ => Nat.zero_le _) hrecorded

end

end Polystore.Transaction
