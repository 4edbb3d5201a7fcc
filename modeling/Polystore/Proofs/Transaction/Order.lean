import Mathlib.Data.List.Perm.Basic
import Polystore.Proofs.Transaction.Interleaving

/-!
A line in order. Whoever holds the session is first in its queue, commands are sent on behalf of the
holder only, and no session has a seat on the lane ahead of an earlier one. Every step keeps a line
in order.
-/

namespace Polystore.Transaction

variable {σ κ : Type}

def Stage.granted? {τ : Type} : Stage τ → Option τ
  | .granted ticket => some ticket
  | _ => none

/-- The seat of a command under way. -/
def Job.seat? (job : Job) : Option Seat :=
  job.stage.granted?

/-- The session that is kept until a rollback is over. -/
def Job.kept? (job : Job) : Option Nat :=
  if job.isUndo then some job.session else none

/-- How far a job has come has no bearing on the sessions that are kept. -/
theorem filterMap_kept? (before after : List Job) (job : Job) (stage : Stage Seat) :
    (before ++ { job with stage } :: after).filterMap Job.kept? =
      (before ++ job :: after).filterMap Job.kept? := by
  rw [List.filterMap_append, List.filterMap_append, List.filterMap_cons, List.filterMap_cons]
  rfl

/-- The one seat comes before the other on the lane. -/
def Seat.Before (a b : Seat) : Prop :=
  a.session ≤ b.session ∧ a.number < b.number

namespace Line

/-- The seats of the commands under way. -/
def running (l : Line κ) : List Seat :=
  l.jobs.filterMap Job.seat?

/-- The sessions that are kept until a rollback is over. -/
def undoing (l : Line κ) : List Nat :=
  l.jobs.filterMap Job.kept?

/-- The seats of all commands so far, of the one under way, and of those in the queue. -/
def seats (l : Line κ) : List Seat :=
  l.history.map Entry.seat ++ (l.lane.owner.toList ++ l.lane.waiting)

/-- The holder of the session and those who wait for it. -/
def queue (l : Line κ) : List Nat :=
  l.session.owner.toList ++ l.session.waiting

variable [Endpoint κ]

/-- What commands make of a connection. -/
def replay (start : κ) (history : List Entry) : κ :=
  history.foldl (fun endpoint entry => (Endpoint.perform entry.command endpoint).2) start

theorem replay_append (start : κ) (earlier later : List Entry) :
    replay start (earlier ++ later) = replay (replay start earlier) later :=
  List.foldl_append

/-- Every reply is the one that the connection has given at that time. -/
def Recorded : κ → List Entry → Prop
  | _, [] => True
  | endpoint, entry :: rest =>
    entry.reply = (Endpoint.perform entry.command endpoint).1 ∧
      Recorded (Endpoint.perform entry.command endpoint).2 rest

theorem recorded_append {start : κ} {earlier later : List Entry} :
    Recorded start (earlier ++ later) ↔
      Recorded start earlier ∧ Recorded (replay start earlier) later := by
  induction earlier generalizing start with
  | nil => simp [Recorded, replay]
  | cons entry rest ih =>
    rw [List.cons_append, Recorded, Recorded, ih, and_assoc]
    rfl

/-- A line in order, when callers have got these sessions. -/
structure Ordered (start : κ) (held : List Nat) (l : Line κ) : Prop where
  owner : (held ++ l.undoing).Perm l.session.owner.toList
  running : l.running = l.lane.owner.toList
  queue : l.queue.Pairwise (· < ·)
  seats : l.seats.Pairwise Seat.Before
  owned : ∀ seat ∈ l.seats, ∀ t ∈ l.session.owner, seat.session ≤ t
  waited : ∀ seat ∈ l.seats, ∀ t ∈ l.session.waiting, seat.session < t
  tickets : ∀ t ∈ l.queue, t < l.issued
  numbers : ∀ seat ∈ l.seats, seat.session < l.issued ∧ seat.number < l.issued
  replay : l.endpoint = replay start l.history
  recorded : Recorded start l.history

namespace Ordered

variable {start : κ} {held held' : List Nat} {l : Line κ}

theorem perm (h : l.Ordered start held) (hp : held.Perm held') : l.Ordered start held' :=
  { h with owner := (hp.symm.append_right _).trans h.owner }

theorem owner_of_mem (h : l.Ordered start held) {t : Nat} (ht : t ∈ held) :
    l.session.owner = some t := by
  have hmem : t ∈ l.session.owner.toList := h.owner.subset (List.mem_append_left _ ht)
  simpa using hmem

theorem owner_of_undoing (h : l.Ordered start held) {t : Nat} (ht : t ∈ l.undoing) :
    l.session.owner = some t := by
  have hmem : t ∈ l.session.owner.toList := h.owner.subset (List.mem_append_right _ ht)
  simpa using hmem

/-- Nobody holds a session that is free. -/
theorem held_of_free (h : l.Ordered start held) (hfree : l.session.owner = none) :
    held = [] ∧ l.undoing = [] := by
  have hnil := h.owner
  rw [hfree, Option.toList_none, List.perm_nil] at hnil
  exact List.append_eq_nil_iff.mp hnil

theorem held_eq (h : l.Ordered start held) {t : Nat} (hp : held.Perm (t :: held')) :
    l.session.owner = some t ∧ held' = [] ∧ l.undoing = [] := by
  have howner := h.owner_of_mem (hp.mem_iff.mpr List.mem_cons_self)
  have hone := (hp.symm.append_right l.undoing).trans h.owner
  rw [howner, Option.toList_some, List.cons_append, List.perm_cons, List.perm_nil] at hone
  exact ⟨howner, List.append_eq_nil_iff.mp hone⟩

theorem running_length (h : l.Ordered start held) : l.running.length ≤ 1 := by
  rw [h.running]
  cases l.lane.owner <;> simp

theorem history_sorted (h : l.Ordered start held) :
    l.history.Pairwise fun a b => a.seat.session ≤ b.seat.session :=
  (List.pairwise_map.mp (List.pairwise_append.mp h.seats).1).imp fun hbefore => hbefore.1

theorem idle {endpoint : κ} {issued : Nat} :
    Line.Ordered endpoint [] ({ endpoint, issued } : Line κ) where
  owner := List.Perm.nil
  running := rfl
  queue := List.Pairwise.nil
  seats := List.Pairwise.nil
  owned := by simp [Line.seats]
  waited := by simp [Line.seats]
  tickets := by simp [Line.queue]
  numbers := by simp [Line.seats]
  replay := rfl
  recorded := trivial

theorem mark (h : l.Ordered start held) (isOpen : Bool) : (l.mark isOpen).Ordered start held :=
  { h with }

theorem askSession (h : l.Ordered start held) : l.askSession.Ordered start held := by
  have hqueue : l.askSession.queue = l.queue ++ [l.issued] := by
    simp [Line.queue, Line.askSession, Lock.ask]
  refine { h with queue := ?_, waited := ?_, tickets := ?_, numbers := ?_ }
  · rw [hqueue, List.pairwise_append]
    refine ⟨h.queue, List.pairwise_singleton _ _, ?_⟩
    simpa using h.tickets
  · intro seat hseat t ht
    rcases List.mem_append.mp ht with ht | ht
    · exact h.waited seat hseat t ht
    · rw [List.mem_singleton.mp ht]
      exact (h.numbers seat hseat).1
  · intro t ht
    rw [hqueue] at ht
    rcases List.mem_append.mp ht with ht | ht
    · exact Nat.lt_succ_of_lt (h.tickets t ht)
    · rw [List.mem_singleton.mp ht]
      exact Nat.lt_succ_self _
  · intro seat hseat
    exact ⟨Nat.lt_succ_of_lt (h.numbers seat hseat).1, Nat.lt_succ_of_lt (h.numbers seat hseat).2⟩

theorem grantSession (h : l.Ordered start held) {t : Nat} (hnext : l.session.isNext t) :
    (l.grantSession t).Ordered start (t :: held) := by
  obtain ⟨hfree, rest, hrest⟩ := Lock.isNext_iff.mp hnext
  obtain ⟨rfl, hundoing⟩ := h.held_of_free hfree
  have hqueue : (l.grantSession t).queue = l.queue := by
    simp [Line.queue, Line.grantSession, Lock.grant, hfree, hrest]
  refine { h with owner := ?_, queue := ?_, owned := ?_, waited := ?_, tickets := ?_ }
  · change ([t] ++ l.undoing).Perm [t]
    rw [hundoing]
    exact List.Perm.refl _
  · rw [hqueue]
    exact h.queue
  · intro seat hseat u hu
    obtain rfl : t = u := by simpa [Line.grantSession, Lock.grant] using hu
    exact Nat.le_of_lt (h.waited seat hseat t (by simp [hrest]))
  · intro seat hseat u hu
    exact h.waited seat hseat u (List.mem_of_mem_tail hu)
  · rw [hqueue]
    exact h.tickets

theorem withdrawSession (h : l.Ordered start held) (t : Nat) :
    ({ l with session := l.session.withdraw t } : Line κ).Ordered start held := by
  have hwaiting : (l.session.withdraw t).waiting.Sublist l.session.waiting := List.erase_sublist
  have hqueue := hwaiting.append_left l.session.owner.toList
  exact { h with
    queue := h.queue.sublist hqueue
    waited := fun seat hseat u hu => h.waited seat hseat u (hwaiting.subset hu)
    tickets := fun u hu => h.tickets u (hqueue.subset hu) }

theorem freeSession {t : Nat} (h : l.Ordered start (t :: held)) :
    ({ l with session := l.session.release } : Line κ).Ordered start held := by
  obtain ⟨-, rfl, hundoing⟩ := h.held_eq (List.Perm.refl _)
  have hqueue : (l.session.release.owner.toList ++ l.session.release.waiting).Sublist l.queue :=
    List.sublist_append_right _ _
  exact { h with
    owner := by
      change ([] ++ l.undoing).Perm []
      rw [hundoing]
      exact List.Perm.refl _
    queue := h.queue.sublist hqueue
    owned := by simp [Lock.release]
    tickets := fun u hu => h.tickets u (hqueue.subset hu) }

theorem leaveSession {t : Nat} (h : l.Ordered start (t :: held)) :
    (l.leaveSession t).Ordered start held := by
  rw [Line.leaveSession]
  split
  · refine { h with owner := ?_, running := ?_ }
    · refine List.Perm.trans ?_ h.owner
      simp only [Line.undoing, List.filterMap_append, ← List.append_assoc]
      exact List.perm_append_singleton t _
    · rw [← h.running]
      simp [Line.running, Job.seat?, Stage.granted?]
  · exact h.freeSession

theorem quitSession {stage : Stage Nat} (h : l.Ordered start (stage.granted?.toList ++ held)) :
    (l.quitSession stage).Ordered start held := by
  cases stage with
  | fresh => exact h
  | queued t => exact h.withdrawSession t
  | granted t => exact h.leaveSession

theorem askLane (h : l.Ordered start held) {t : Nat} (howner : l.session.owner = some t) :
    (l.askLane t).Ordered start held := by
  have hseats : (l.askLane t).seats = l.seats ++ [l.nextSeat t] := by
    simp [Line.seats, Line.askLane, Lock.ask]
  have hqueue : ∀ u ∈ l.session.waiting, t < u := by
    have hpairs := h.queue
    rw [Line.queue, howner, Option.toList_some, List.singleton_append, List.pairwise_cons] at hpairs
    exact hpairs.1
  have hissued : t < l.issued := h.tickets t (by simp [Line.queue, howner])
  refine { h with seats := ?_, owned := ?_, waited := ?_, tickets := ?_, numbers := ?_ }
  · rw [hseats, List.pairwise_append]
    refine ⟨h.seats, List.pairwise_singleton _ _, fun a ha b hb => ?_⟩
    rw [List.mem_singleton.mp hb]
    exact ⟨h.owned a ha t howner, (h.numbers a ha).2⟩
  · intro seat hseat u hu
    rw [hseats] at hseat
    rcases List.mem_append.mp hseat with hseat | hseat
    · exact h.owned seat hseat u hu
    · obtain rfl : t = u := Option.some.inj (howner.symm.trans hu)
      rw [List.mem_singleton.mp hseat]
      exact Nat.le_refl _
  · intro seat hseat u hu
    rw [hseats] at hseat
    rcases List.mem_append.mp hseat with hseat | hseat
    · exact h.waited seat hseat u hu
    · rw [List.mem_singleton.mp hseat]
      exact hqueue u hu
  · exact fun u hu => Nat.lt_succ_of_lt (h.tickets u hu)
  · intro seat hseat
    rw [hseats] at hseat
    rcases List.mem_append.mp hseat with hseat | hseat
    · have hlt := h.numbers seat hseat
      exact ⟨Nat.lt_succ_of_lt hlt.1, Nat.lt_succ_of_lt hlt.2⟩
    · rw [List.mem_singleton.mp hseat]
      exact ⟨Nat.lt_succ_of_lt hissued, Nat.lt_succ_self _⟩

/-- A command whose turn it is gets the lane. The seats are the same ones as before. -/
theorem grantLane (h : l.Ordered start held) {seat : Seat} {jobs : List Job}
    (hnext : l.lane.isNext seat)
    (hrunning : l.running = [] → ({ l with jobs } : Line κ).running = [seat])
    (hundoing : ({ l with jobs } : Line κ).undoing = l.undoing) :
    ({ l with lane := l.lane.grant seat, jobs } : Line κ).Ordered start held := by
  obtain ⟨hfree, rest, hrest⟩ := Lock.isNext_iff.mp hnext
  have hidle : l.running = [] := by rw [h.running, hfree, Option.toList_none]
  have hseats : ({ l with lane := l.lane.grant seat, jobs } : Line κ).seats = l.seats := by
    simp [Line.seats, Lock.grant, hfree, hrest]
  exact { h with
    owner := by
      change (held ++ ({ l with jobs } : Line κ).undoing).Perm l.session.owner.toList
      rw [hundoing]
      exact h.owner
    running := hrunning hidle
    seats := hseats ▸ h.seats
    owned := hseats ▸ h.owned
    waited := hseats ▸ h.waited
    numbers := hseats ▸ h.numbers }

theorem dispatch (h : l.Ordered start held) {seat : Seat} {command : Command}
    (hnext : l.lane.isNext seat) : (l.dispatch seat command).Ordered start held := by
  refine h.grantLane hnext (fun hidle => ?_) ?_
  · rw [Line.running] at hidle ⊢
    rw [List.filterMap_append, hidle]
    rfl
  · simp [Line.undoing, Job.kept?]

theorem withdrawLane (h : l.Ordered start held) (seat : Seat) :
    ({ l with lane := l.lane.withdraw seat } : Line κ).Ordered start held := by
  have hseats : ({ l with lane := l.lane.withdraw seat } : Line κ).seats.Sublist l.seats :=
    (List.erase_sublist.append_left _).append_left _
  exact { h with
    seats := h.seats.sublist hseats
    owned := fun s hs => h.owned s (hseats.subset hs)
    waited := fun s hs => h.waited s (hseats.subset hs)
    numbers := fun s hs => h.numbers s (hseats.subset hs) }

theorem quitLane (h : l.Ordered start held) (stage : Stage Seat) :
    (l.quitLane stage).Ordered start held := by
  cases stage with
  | fresh => exact h
  | queued seat => exact h.withdrawLane seat
  | granted seat => exact h

/-- A command has been performed: its seat, which was that of the lane, is now the last one of the
history. A session that has been kept for it is held by nobody else. -/
theorem perform (h : l.Ordered start held) {before after : List Job} {job : Job} {seat : Seat}
    (hjobs : l.jobs = before ++ job :: after) (hstage : job.stage = .granted seat) :
    ({ (l.perform seat job.command).2 with
        lane := l.lane.release
        jobs := before ++ after } : Line κ).Ordered start (job.kept?.toList ++ held) := by
  have hseat : job.seat? = some seat := by rw [Job.seat?, hstage]; rfl
  have howner : l.lane.owner = some seat ∧ (before ++ after).filterMap Job.seat? = [] := by
    have hrunning := h.running
    rw [Line.running, hjobs, List.filterMap_append, List.filterMap_cons_some hseat] at hrunning
    cases ho : l.lane.owner with
    | none => simp [ho] at hrunning
    | some other =>
      rw [ho, Option.toList_some, List.append_eq_singleton_iff] at hrunning
      simp only [reduceCtorEq, and_false, or_false, List.cons.injEq] at hrunning
      obtain ⟨hbefore, rfl, hafter⟩ := hrunning
      exact ⟨rfl, by rw [List.filterMap_append, hbefore, hafter, List.append_nil]⟩
  have hseats : ({ (l.perform seat job.command).2 with
      lane := l.lane.release
      jobs := before ++ after } : Line κ).seats = l.seats := by
    simp [Line.seats, Line.perform, Lock.release, howner.1]
  have hundoing : (job.kept?.toList ++ (before ++ after).filterMap Job.kept?).Perm l.undoing := by
    rw [Line.undoing, hjobs, List.filterMap_append, List.filterMap_append]
    cases hkept : job.kept? with
    | none =>
      rw [List.filterMap_cons_none hkept]
      exact List.Perm.refl _
    | some t =>
      rw [List.filterMap_cons_some hkept, Option.toList_some, List.singleton_append]
      exact List.perm_middle.symm
  refine { h with
    owner := ?_
    running := howner.2
    seats := hseats ▸ h.seats
    owned := hseats ▸ h.owned
    waited := hseats ▸ h.waited
    numbers := hseats ▸ h.numbers
    replay := ?_
    recorded := ?_ }
  · refine List.Perm.trans ?_ h.owner
    refine List.Perm.trans ?_ (hundoing.append_left held)
    rw [← List.append_assoc]
    exact List.perm_append_comm.append_right _
  · change (Endpoint.perform job.command l.endpoint).2 = Line.replay start (l.history ++ [_])
    rw [replay_append, ← h.replay]
    rfl
  · refine recorded_append.mpr ⟨h.recorded, ?_, trivial⟩
    rw [← h.replay]
    rfl

theorem works (h : l.Ordered start held) {l' : Line κ} (hworks : l.Works l') :
    l'.Ordered start held := by
  cases hworks with
  | @askLane before after job hjobs hundo hstage =>
    have hkept : job.kept? = some job.session := by rw [Job.kept?, if_pos hundo]
    have howner : l.session.owner = some job.session := by
      refine h.owner_of_undoing ?_
      rw [Line.undoing, hjobs, List.mem_filterMap]
      exact ⟨job, by simp, hkept⟩
    have hasked := h.askLane howner
    refine { hasked with owner := ?_, running := ?_ }
    · refine List.Perm.trans (List.Perm.of_eq ?_) h.owner
      rw [Line.undoing, Line.undoing, hjobs, filterMap_kept?]
    · rw [← hasked.running, Line.running, Line.running, List.filterMap_append]
      change _ = l.jobs.filterMap Job.seat?
      have hfresh : job.seat? = none := by rw [Job.seat?, hstage]; rfl
      rw [hjobs, List.filterMap_append, List.filterMap_cons_none hfresh,
        List.filterMap_cons_none rfl]
  | @grantLane before after job seat hjobs hundo hstage hnext =>
    refine h.grantLane hnext (fun hidle => ?_) ?_
    · have hseat : job.seat? = none := by rw [Job.seat?, hstage]; rfl
      simp only [Line.running, hjobs, List.filterMap_append, List.filterMap_cons_none hseat,
        List.append_eq_nil_iff] at hidle
      simp [Line.running, Job.seat?, Stage.granted?, hidle]
    · rw [Line.undoing, Line.undoing, hjobs, filterMap_kept?]
  | @perform before after job seat hjobs hstage =>
    have hdone := h.perform hjobs hstage
    rw [Job.kept?] at hdone
    split
    · next hundo =>
      rw [if_pos hundo] at hdone
      exact hdone.freeSession
    · next hundo =>
      rw [if_neg hundo] at hdone
      exact hdone

end Ordered

end Line

end Polystore.Transaction
