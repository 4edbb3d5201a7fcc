import Polystore.Proofs.Transaction.Interleaving

/-!
Taking turns is one of the interleavings. What tasks come to when they are played turn by turn, they
may come to as well when their steps and those of their jobs are taken in any order. So whatever
holds after every interleaving holds of a task that is played.
-/

namespace Polystore.Transaction

variable {σ κ α β γ : Type}

/-- Nobody is on the lane, and there are no jobs apart from rollbacks that have not been started. -/
structure Line.AtRest (l : Line κ) : Prop where
  lane : l.lane = {}
  jobs : ∀ job ∈ l.jobs, job.isUndo = true ∧ job.command = .rollback ∧ job.stage = .fresh

namespace Line.AtRest

variable {l : Line κ}

theorem mark (h : l.AtRest) (isOpen : Bool) : (l.mark isOpen).AtRest :=
  { h with }

theorem leaveSession (h : l.AtRest) (ticket : Nat) : (l.leaveSession ticket).AtRest := by
  rw [Line.leaveSession]
  split
  · refine { h with jobs := fun job hjob => ?_ }
    rcases List.mem_append.mp hjob with hjob | hjob
    · exact h.jobs job hjob
    · rw [List.mem_singleton.mp hjob]
      exact ⟨rfl, rfl, rfl⟩
  · exact { h with }

theorem approach (h : l.AtRest) {stage reached : Stage Nat} {l' : Line κ}
    (hstage : l.approach stage = (reached, l')) : l'.AtRest := by
  suffices hrest : (l.approach stage).2.AtRest by rwa [hstage] at hrest
  cases stage with
  | granted ticket => exact h
  | fresh =>
    rw [Line.approach]
    split <;> exact { h with }
  | queued ticket =>
    rw [Line.approach]
    split <;> exact { h with }

theorem quitSession (h : l.AtRest) (stage : Stage Nat) : (l.quitSession stage).AtRest := by
  cases stage with
  | fresh => exact h
  | queued ticket => exact { h with }
  | granted ticket => exact h.leaveSession ticket

theorem quitLane (h : l.AtRest) (stage : Stage Seat) : (l.quitLane stage).AtRest := by
  cases stage with
  | fresh => exact h
  | queued seat =>
    refine { h with lane := ?_ }
    change ({ l.lane with waiting := l.lane.waiting.erase seat } : Lock Seat) = {}
    rw [h.lane]
    rfl
  | granted seat => exact h

end Line.AtRest

/-- Every line of a world is at rest. -/
def World.AtRest (w : World σ κ) : Prop :=
  ∀ line, (w.lines line).AtRest

theorem World.AtRest.onLine {w : World σ κ} (h : w.AtRest) {line : Nat} {f : Line κ → Line κ}
    (hf : (f (w.lines line)).AtRest) : (w.onLine line f).AtRest := by
  intro n
  rw [onLine_lines]
  split
  · next hn => exact hn ▸ hf
  · exact h n

namespace Task

theorem quit_atRest (line : Nat) (t : Task σ α) {l : Line κ} (h : l.AtRest) :
    (t.quit line l).AtRest := by
  induction t generalizing l with
  | sending n stage command next ih =>
    rw [quit]
    split
    · exact h.quitLane stage
    · exact h
  | holding n stage work next ihwork ihnext =>
    rw [quit]
    split
    · exact (ihwork h).quitSession stage
    · exact ihwork h
  | both left right next ihleft ihright ihnext => exact ihright (ihleft h)
  | limited work next ihwork ihnext => exact ihwork h
  | _ => exact h

theorem settle_atRest (sessions : Sessions) (t : Task σ α) (w : World σ κ) (h : w.AtRest) :
    (t.settle sessions w).2.AtRest := by
  fun_induction settle sessions t w with
  | case1 _ sessions change next w ih => exact ih h
  | case2 _ sessions line isOpen next w ih => exact ih (h.onLine ((h line).mark isOpen))
  | case3 _ sessions _ line stage work next w l v ticket b u hwork hstage ihwork ihnext =>
    have hin := ihwork (h.onLine ((h line).approach hstage))
    rw [hwork] at hin
    exact ihnext (hin.onLine ((hin line).leaveSession ticket))
  | case4 _ sessions _ line stage work next w l v ticket t u hnot hwork hstage ihwork =>
    have hin := ihwork (h.onLine ((h line).approach hstage))
    rw [hwork] at hin
    exact hin
  | case5 _ sessions _ line stage work next w l v reached hnot hstage =>
    exact h.onLine (f := fun _ => l) ((h line).approach hstage)
  | case6 _ sessions _ _ left right next w u v b c hleft hright ihleft ihright ihnext =>
    have hmid := ihleft h
    rw [hleft] at hmid
    have hlast := ihright hmid
    rw [hright] at hlast
    exact ihnext hlast
  | case7 _ sessions _ _ left right next w u v t t' hnot hleft hright ihleft ihright =>
    have hmid := ihleft h
    rw [hleft] at hmid
    have hlast := ihright hmid
    rw [hright] at hlast
    exact hlast
  | case8 _ sessions _ work next w b u hwork ihwork ihnext =>
    have hin := ihwork h
    rw [hwork] at hin
    exact ihnext hin
  | case9 _ sessions _ work next w t u hnot hwork ihwork =>
    have hin := ihwork h
    rw [hwork] at hin
    exact hin
  | case10 => exact h

end Task

variable [Endpoint κ]

theorem Line.AtRest.roundTrip {l l' : Line κ} (h : l.AtRest) {session : Nat} {command : Command}
    {reply : Reply} (hreply : l.roundTrip session command = (reply, l')) : l'.AtRest := by
  suffices hrest : (l.roundTrip session command).2.AtRest by rwa [hreply] at hrest
  exact { h with }

theorem Task.turn_atRest (sessions : Sessions) (t : Task σ α) (w : World σ κ) (h : w.AtRest) :
    (t.turn sessions w).2.AtRest := by
  fun_induction turn sessions t w with
  | case1 _ sessions line command next w reply l hreply =>
    exact settle_atRest _ _ _ (h.onLine ((h line).roundTrip hreply))
  | case2 _ sessions _ line ticket work next w b u hwork ihwork =>
    have hin := ihwork h
    rw [hwork] at hin
    exact settle_atRest _ _ _ (hin.onLine ((hin line).leaveSession ticket))
  | case3 _ sessions _ line ticket work next w t u hnot hwork ihwork =>
    have hin := ihwork h
    rw [hwork] at hin
    exact hin
  | case4 _ sessions _ _ left right next w u v b c hleft hright ihleft ihright =>
    have hmid := ihleft h
    rw [hleft] at hmid
    have hlast := ihright hmid
    rw [hright] at hlast
    exact settle_atRest _ _ _ hlast
  | case5 _ sessions _ _ left right next w u v t t' hnot hleft hright ihleft ihright =>
    have hmid := ihleft h
    rw [hleft] at hmid
    have hlast := ihright hmid
    rw [hright] at hlast
    exact hlast
  | case6 _ sessions _ work next w b u hwork ihwork =>
    have hin := ihwork h
    rw [hwork] at hin
    exact settle_atRest _ _ _ hin
  | case7 _ sessions _ work next w t u hnot hwork ihwork =>
    have hin := ihwork h
    rw [hwork] at hin
    exact hin
  | case8 _ sessions w t => exact settle_atRest sessions t w h

/-- A command on its way, with nobody else on the lane, is performed. -/
theorem Line.works_roundTrip {l : Line κ} (session : Nat) (command : Command) (hlane : l.lane = {}) :
    ((l.askLane session).dispatch (l.nextSeat session) command).Works
      (l.roundTrip session command).2 := by
  obtain ⟨endpoint, lock, lane, issued, isOpen, jobs, history⟩ := l
  obtain rfl : lane = {} := hlane
  have hjobs : jobs ++ [⟨session, command, .granted ⟨session, issued⟩, false⟩] =
      jobs ++ ⟨session, command, .granted ⟨session, issued⟩, false⟩ :: [] := rfl
  have hworks := Line.Works.perform (l := (Line.mk endpoint lock {} issued isOpen jobs history
    |>.askLane session |>.dispatch ⟨session, issued⟩ command)) jobs [] hjobs rfl
  rw [List.append_nil] at hworks
  exact hworks

namespace Reaches

variable {sessions : Sessions} {w w' : World σ κ}

theorem single {t t' : Task σ α} (h : t.Moves sessions w t' w') :
    Reaches sessions (t, w) (t', w') :=
  Relation.ReflTransGen.single (.task h)

theorem inside (sessions : Sessions) (line ticket : Nat) {work work' : Task σ β} (next : β → Task σ α)
    (h : Reaches (sessions.enter line ticket) (work, w) (work', w')) :
    Reaches sessions (.holding line (.granted ticket) work next, w)
      (.holding line (.granted ticket) work' next, w') := by
  refine h.lift (fun s => (Task.holding line (.granted ticket) s.1 next, s.2)) fun s s' hstep => ?_
  cases hstep with
  | task h => exact .task (.inside h)
  | job h => exact .job h

theorem left {t t' : Task σ β} (right : Task σ γ) (next : β → γ → Task σ α)
    (h : Reaches sessions (t, w) (t', w')) :
    Reaches sessions (.both t right next, w) (.both t' right next, w') := by
  refine h.lift (fun s => (Task.both s.1 right next, s.2)) fun s s' hstep => ?_
  cases hstep with
  | task h => exact .task (.left h)
  | job h => exact .job h

theorem right (left : Task σ β) {t t' : Task σ γ} (next : β → γ → Task σ α)
    (h : Reaches sessions (t, w) (t', w')) :
    Reaches sessions (.both left t next, w) (.both left t' next, w') := by
  refine h.lift (fun s => (Task.both left s.1 next, s.2)) fun s s' hstep => ?_
  cases hstep with
  | task h => exact .task (.right h)
  | job h => exact .job h

theorem within {work work' : Task σ β} (next : Option β → Task σ α)
    (h : Reaches sessions (work, w) (work', w')) :
    Reaches sessions (.limited work next, w) (.limited work' next, w') := by
  refine h.lift (fun s => (Task.limited s.1 next, s.2)) fun s s' hstep => ?_
  cases hstep with
  | task h => exact .task (.within h)
  | job h => exact .job h

/-- A command goes from its sending to its reply if nobody else is on the lane. -/
theorem roundTrip (sessions : Sessions) {line : Nat} (command : Command)
    (next : Reply → Task σ α) (hlane : (w.lines line).lane = {}) :
    Reaches sessions (.sending line .fresh command next, w)
      (next ((w.lines line).roundTrip (sessions line) command).1,
        w.onLine line fun _ => ((w.lines line).roundTrip (sessions line) command).2) := by
  have hnext : ((w.onLine line (.askLane (sessions line))).lines line).lane.isNext
      ((w.lines line).nextSeat (sessions line)) := by
    simp [Lock.isNext_iff, Line.askLane, Lock.ask, hlane]
  have hworks := Line.works_roundTrip (sessions line) command hlane
  let sent := (w.onLine line (.askLane (sessions line))).onLine line
    (.dispatch ((w.lines line).nextSeat (sessions line)) command)
  have hsent : (sent.lines line).Works ((w.lines line).roundTrip (sessions line) command).2 := by
    simpa [sent] using hworks
  refine .head (.task .askLane) (.head (.task (.dispatch hnext)) (.head (.job hsent) ?_))
  rw [World.onLine_onLine, World.onLine_onLine]
  have hanswered : (⟨(w.lines line).nextSeat (sessions line), command,
      ((w.lines line).roundTrip (sessions line) command).1⟩ : Entry) ∈
        ((w.onLine line fun _ => ((w.lines line).roundTrip (sessions line) command).2).lines
          line).history := by
    simp [Line.roundTrip, Line.perform]
  exact .single (.task (.collect hanswered rfl))

/-- A caller comes as far as it can: into the queue, and to the session if it is free. -/
theorem approach (sessions : Sessions) (w : World σ κ) (line : Nat) (stage : Stage Nat)
    (work : Task σ β) (next : β → Task σ α) :
    Reaches sessions (.holding line stage work next, w)
      (.holding line ((w.lines line).approach stage).1 work next,
        w.onLine line fun _ => ((w.lines line).approach stage).2) := by
  cases stage with
  | fresh =>
    rw [Line.approach]
    split
    · next hfree =>
      have hnext : ((w.onLine line .askSession).lines line).session.isNext (w.lines line).issued := by
        simpa using hfree
      have hgranted : Reaches sessions (.holding line (.queued _) work next, _) (_, _) :=
        .single (.grantSession hnext)
      rw [World.onLine_onLine] at hgranted
      exact .head (.task .askSession) hgranted
    · exact Relation.ReflTransGen.single (.task .askSession)
  | queued ticket =>
    rw [Line.approach]
    split
    · next hfree => exact Relation.ReflTransGen.single (.task (.grantSession hfree))
    · rw [World.onLine_self]
  | granted ticket => rw [Line.approach, World.onLine_self]

end Reaches

namespace Task

/-- Tasks come to their next commands by steps of their own. -/
theorem settle_reaches (sessions : Sessions) (t : Task σ α) (w : World σ κ) :
    Reaches sessions (t, w) (t.settle sessions w) := by
  fun_induction settle sessions t w with
  | case1 _ sessions change next w ih => exact .head (.task .note) ih
  | case2 _ sessions line isOpen next w ih => exact .head (.task .mark) ih
  | case3 _ sessions _ line stage work next w l v ticket b u hwork hstage ihwork ihnext =>
    have hin := Reaches.approach sessions w line stage work next
    rw [hstage] at hin
    rw [hwork] at ihwork
    have hthrough := hin.trans (ihwork.inside sessions line ticket next)
    exact hthrough.trans (.head (.task .leaveSession) ihnext)
  | case4 _ sessions _ line stage work next w l v ticket t u hnot hwork hstage ihwork =>
    have hin := Reaches.approach sessions w line stage work next
    rw [hstage] at hin
    rw [hwork] at ihwork
    exact hin.trans (ihwork.inside sessions line ticket next)
  | case5 _ sessions _ line stage work next w l v reached hnot hstage =>
    have hin := Reaches.approach sessions w line stage work next
    rw [hstage] at hin
    exact hin
  | case6 _ sessions _ _ left right next w u v b c hleft hright ihleft ihright ihnext =>
    rw [hleft] at ihleft
    rw [hright] at ihright
    have hthrough := (ihleft.left right next).trans (ihright.right (.done b) next)
    exact hthrough.trans (.head (.task .join) ihnext)
  | case7 _ sessions _ _ left right next w u v t t' hnot hleft hright ihleft ihright =>
    rw [hleft] at ihleft
    rw [hright] at ihright
    exact (ihleft.left right next).trans (ihright.right t next)
  | case8 _ sessions _ work next w b u hwork ihwork ihnext =>
    rw [hwork] at ihwork
    exact (ihwork.within next).trans (.head (.task .finish) ihnext)
  | case9 _ sessions _ work next w t u hnot hwork ihwork =>
    rw [hwork] at ihwork
    exact ihwork.within next
  | case10 => exact .refl

theorem turn_reaches (sessions : Sessions) (t : Task σ α) (w : World σ κ) (h : w.AtRest) :
    Reaches sessions (t, w) (t.turn sessions w) := by
  fun_induction turn sessions t w with
  | case1 _ sessions line command next w reply l hreply =>
    have hthrough := Reaches.roundTrip sessions command next (h line).lane
    rw [hreply] at hthrough
    exact hthrough.trans (settle_reaches _ _ _)
  | case2 _ sessions _ line ticket work next w b u hwork ihwork =>
    have hin := ihwork h
    rw [hwork] at hin
    have hthrough := hin.inside sessions line ticket next
    exact hthrough.trans (.head (.task .leaveSession) (settle_reaches _ _ _))
  | case3 _ sessions _ line ticket work next w t u hnot hwork ihwork =>
    have hin := ihwork h
    rw [hwork] at hin
    exact hin.inside sessions line ticket next
  | case4 _ sessions _ _ left right next w u v b c hleft hright ihleft ihright =>
    have hmid := turn_atRest sessions left w h
    rw [hleft] at hmid
    have hfirst := ihleft h
    have hsecond := ihright hmid
    rw [hleft] at hfirst
    rw [hright] at hsecond
    have hthrough := (hfirst.left right next).trans (hsecond.right (.done b) next)
    exact hthrough.trans (.head (.task .join) (settle_reaches _ _ _))
  | case5 _ sessions _ _ left right next w u v t t' hnot hleft hright ihleft ihright =>
    have hmid := turn_atRest sessions left w h
    rw [hleft] at hmid
    have hfirst := ihleft h
    have hsecond := ihright hmid
    rw [hleft] at hfirst
    rw [hright] at hsecond
    exact (hfirst.left right next).trans (hsecond.right t next)
  | case6 _ sessions _ work next w b u hwork ihwork =>
    have hin := ihwork h
    rw [hwork] at hin
    exact (hin.within next).trans (.head (.task .finish) (settle_reaches _ _ _))
  | case7 _ sessions _ work next w t u hnot hwork ihwork =>
    have hin := ihwork h
    rw [hwork] at hin
    exact hin.within next
  | case8 _ sessions w t => exact settle_reaches sessions t w

theorem run_atRest (sessions : Sessions) (turns : Nat) (t : Task σ α) (w : World σ κ)
    (h : w.AtRest) : (t.run sessions turns w).2.AtRest := by
  induction turns generalizing t w with
  | zero => exact h
  | succ turns ih =>
    rw [run]
    split
    · exact ih _ _ (turn_atRest _ t w h)
    · exact h

theorem run_reaches (sessions : Sessions) (turns : Nat) (t : Task σ α) (w : World σ κ)
    (h : w.AtRest) : Reaches sessions (t, w) (t.run sessions turns w) := by
  induction turns generalizing t w with
  | zero => exact .refl
  | succ turns ih =>
    rw [run]
    split
    · exact (turn_reaches _ t w h).trans (ih _ _ (turn_atRest _ t w h))
    · exact .refl

theorem start_atRest (turns : Nat) (t : Task σ α) (w : World σ κ) (h : w.AtRest) :
    (t.start turns w).2.AtRest :=
  run_atRest _ turns _ _ (settle_atRest _ t w h)

/-- What a task comes to when it is played turn by turn, it may come to by steps in any order. -/
theorem start_reaches (turns : Nat) (t : Task σ α) (w : World σ κ) (h : w.AtRest) :
    Reaches (fun _ => 0) (t, w) (t.start turns w) :=
  (settle_reaches _ t w).trans (run_reaches _ turns _ _ (settle_atRest _ t w h))

end Task

theorem Line.works_undo {l : Line κ} {job : Job} {rest : List Job} (h : l.AtRest)
    (hjobs : l.jobs = job :: rest) :
    Relation.ReflTransGen Line.Works l (({ l with jobs := rest } : Line κ).undo job.session) := by
  obtain ⟨hundo, hcommand, hstage⟩ := h.jobs job (by rw [hjobs]; exact List.mem_cons_self)
  obtain ⟨session, command, stage, isUndo⟩ := job
  obtain ⟨endpoint, lock, lane, issued, isOpen, jobs, history⟩ := l
  obtain rfl : lane = {} := h.lane
  subst hundo hcommand hstage hjobs
  let seat : Seat := ⟨session, issued⟩
  let left : Line κ :=
    ⟨endpoint, lock, {}, issued, isOpen, ⟨session, .rollback, .fresh, true⟩ :: rest, history⟩
  let asked : Line κ :=
    ⟨endpoint, lock, ⟨none, [seat]⟩, issued + 1, isOpen,
      ⟨session, .rollback, .queued seat, true⟩ :: rest, history⟩
  let sent : Line κ :=
    ⟨endpoint, lock, ⟨some seat, []⟩, issued + 1, isOpen,
      ⟨session, .rollback, .granted seat, true⟩ :: rest, history⟩
  have hfresh : left.jobs = [] ++ ⟨session, .rollback, .fresh, true⟩ :: rest := rfl
  have hasked : left.Works asked := .askLane [] rest hfresh rfl rfl
  have hqueued : asked.jobs = [] ++ ⟨session, .rollback, .queued seat, true⟩ :: rest := rfl
  have hsent : asked.Works sent :=
    .grantLane [] rest hqueued rfl rfl (by simp [Lock.isNext_iff, asked])
  have hgranted : sent.jobs = [] ++ ⟨session, .rollback, .granted seat, true⟩ :: rest := rfl
  exact .head hasked (.head hsent (.single (.perform [] rest hgranted rfl)))

theorem Line.AtRest.undo {l : Line κ} (h : l.AtRest) (session : Nat) : (l.undo session).AtRest :=
  { h with }

/-- Jobs can do all that callers who have gone away have left to do. -/
theorem Line.works_cleanUp {l : Line κ} (h : l.AtRest) :
    Relation.ReflTransGen Line.Works l l.cleanUp := by
  suffices hall : ∀ jobs, ∀ l : Line κ, l.AtRest → l.jobs = jobs →
      Relation.ReflTransGen Line.Works l
        ((jobs.map Job.session).foldl Line.undo { l with jobs := [] }) from hall l.jobs l h rfl
  intro jobs
  induction jobs with
  | nil =>
    intro l _ hjobs
    obtain ⟨endpoint, lock, lane, issued, isOpen, jobs, history⟩ := l
    obtain rfl : jobs = [] := hjobs
    exact .refl
  | cons job rest ih =>
    intro l h hjobs
    have hrest : ({ l with jobs := rest } : Line κ).AtRest :=
      { h with jobs := fun other hother => h.jobs other (by simp [hjobs, hother]) }
    exact (Line.works_undo h hjobs).trans (ih _ (hrest.undo job.session) rfl)

theorem Line.AtRest.cleanUp {l : Line κ} (h : l.AtRest) : l.cleanUp.AtRest := by
  suffices hall : ∀ sessions : List Nat, ∀ l : Line κ, l.AtRest → (sessions.foldl Line.undo l).AtRest from
    hall _ _ { h with jobs := List.forall_mem_nil _ }
  intro sessions
  induction sessions with
  | nil => exact fun _ h => h
  | cons session rest ih => exact fun l h => ih _ (h.undo session)

theorem Reaches.cleanUp {sessions : Sessions} {t : Task σ α} {w : World σ κ} (h : w.AtRest)
    (line : Nat) : Reaches sessions (t, w) (t, w.onLine line Line.cleanUp) := by
  have hworks := Line.works_cleanUp (h line)
  change Reaches sessions (t, w) (t, w.onLine line fun _ => (w.lines line).cleanUp)
  generalize (w.lines line).cleanUp = cleaned at hworks ⊢
  induction hworks with
  | refl =>
    rw [World.onLine_self]
  | @tail l l' _ hwork ih =>
    have hjob : ((w.onLine line fun _ => l).lines line).Works l' := by simpa using hwork
    have hstep := Relation.ReflTransGen.tail ih (.job hjob)
    rwa [World.onLine_onLine] at hstep

theorem Task.abandon_atRest (turns : Nat) (t : Task σ α) (w : World σ κ) (lines : List Nat)
    (h : w.AtRest) :
    (lines.foldl (fun w line => w.onLine line Line.cleanUp)
      ((t.start turns w).1.drop (t.start turns w).2)).AtRest := by
  suffices hclean : ∀ w : World σ κ, w.AtRest →
      (lines.foldl (fun w line => w.onLine line Line.cleanUp) w).AtRest from
    hclean _ fun n => quit_atRest n _ (start_atRest turns t w h n)
  induction lines with
  | nil => exact fun _ h => h
  | cons line rest ih => exact fun w h => ih _ (h.onLine (h line).cleanUp)

/-- A caller who goes away while playing turn by turn, and the clearing up on some of the lines after
that, is one of the interleavings as well. -/
theorem Task.abandon_reaches (turns : Nat) (t : Task σ α) (w : World σ κ) (lines : List Nat)
    (h : w.AtRest) :
    Reaches (fun _ => 0) (t.limit, w)
      (.done none, lines.foldl (fun w line => w.onLine line Line.cleanUp)
        ((t.start turns w).1.drop (t.start turns w).2)) := by
  have hdrop : ((t.start turns w).1.drop (t.start turns w).2).AtRest := fun n =>
    quit_atRest n _ (start_atRest turns t w h n)
  have hplayed := (start_reaches turns t w h).within Task.done
  have hclean : ∀ w : World σ κ, w.AtRest → Reaches (fun _ => 0) (.done (none : Option α), w)
      (.done none, lines.foldl (fun w line => w.onLine line Line.cleanUp) w) := by
    induction lines with
    | nil => exact fun _ _ => .refl
    | cons line rest ih =>
      exact fun w h => (Reaches.cleanUp h line).trans (ih _ (h.onLine (h line).cleanUp))
  exact (hplayed.tail (.task .giveUp)).trans (hclean _ hdrop)

end Polystore.Transaction
