import Polystore.Proofs.Transaction.Conformance

/-!
Runs taken apart. A run of one thing after the other is a run of the first and a run of the second,
whatever jobs do in between. Inside a session, a command that has been answered is the last one of
the trace, and a body adds its own commands to the trace.
-/

namespace Polystore.Transaction

variable {σ κ α β γ : Type}

theorem Task.bind_assoc (t : Task σ α) (f : α → Task σ β) (g : β → Task σ γ) :
    (t.bind f).bind g = t.bind fun a => (f a).bind g := by
  induction t with
  | done a => rfl
  | pending => rfl
  | noting change next ih => exact congrArg (Task.noting change) (funext fun notes => ih notes f)
  | marking n isOpen next ih => exact congrArg (Task.marking n isOpen) (ih f)
  | sending n stage command next ih =>
    exact congrArg (Task.sending n stage command) (funext fun reply => ih reply f)
  | holding n stage work next ihwork ihnext =>
    exact congrArg (Task.holding n stage work) (funext fun b => ihnext b f)
  | both left right next ihleft ihright ihnext =>
    exact congrArg (Task.both left right) (funext fun b => funext fun c => ihnext b c f)
  | limited work next ihwork ihnext =>
    exact congrArg (Task.limited work) (funext fun b => ihnext b f)

theorem Task.Moves.of_bind {sessions : Sessions} {t : Task σ α} {f : α → Task σ β} {u : Task σ β}
    {w w' : World σ κ} (h : (t.bind f).Moves sessions w u w') (hnot : ∀ a, t ≠ .done a) :
    ∃ t', t.Moves sessions w t' w' ∧ u = t'.bind f := by
  cases t with
  | done a => exact absurd rfl (hnot a)
  | pending => cases h
  | noting change next =>
    cases h
    exact ⟨_, .note, rfl⟩
  | marking n isOpen next =>
    cases h
    exact ⟨_, .mark, rfl⟩
  | sending n stage command next =>
    cases h with
    | askLane => exact ⟨_, .askLane, rfl⟩
    | dispatch hnext => exact ⟨_, .dispatch hnext, rfl⟩
    | collect hentry hseat => exact ⟨_, .collect hentry hseat, rfl⟩
  | holding n stage work next =>
    cases h with
    | askSession => exact ⟨_, .askSession, rfl⟩
    | grantSession hnext => exact ⟨_, .grantSession hnext, rfl⟩
    | inside h => exact ⟨_, .inside h, rfl⟩
    | leaveSession => exact ⟨_, .leaveSession, rfl⟩
  | both left right next =>
    cases h with
    | left h => exact ⟨_, .left h, rfl⟩
    | right h => exact ⟨_, .right h, rfl⟩
    | join => exact ⟨_, .join, rfl⟩
  | limited work next =>
    cases h with
    | within h => exact ⟨_, .within h, rfl⟩
    | finish => exact ⟨_, .finish, rfl⟩
    | giveUp => exact ⟨_, .giveUp, rfl⟩

variable [Endpoint κ]

/-- A run of one thing after the other is a run of the first and then one of the second. -/
theorem Reaches.of_bind {sessions : Sessions} {t : Task σ α} {f : α → Task σ β} {b : β}
    {w w' : World σ κ} (h : Reaches sessions (t >>= f, w) (.done b, w')) :
    ∃ a v, Reaches sessions (t, w) (.done a, v) ∧ Reaches sessions (f a, v) (.done b, w') := by
  suffices hinv : ∀ state, Reaches sessions state (.done b, w') → ∀ t : Task σ α,
      state.1 = t.bind f → ∃ a v, Reaches sessions (t, state.2) (.done a, v) ∧
        Reaches sessions (f a, v) (.done b, w') from hinv (t >>= f, w) h t rfl
  intro state hreach
  -- From the end of the run, so that what is still to be done tells how far the first has come.
  induction hreach using Relation.ReflTransGen.head_induction_on with
  | refl =>
    intro t ht
    cases t with
    | done a =>
      have hnext : Task.done b = f a := ht
      exact ⟨a, w', .refl, hnext ▸ .refl⟩
    | _ => cases ht
  | @head state next hstep hrest ih =>
    intro t ht
    obtain ⟨u, v⟩ := state
    obtain rfl : u = t.bind f := ht
    by_cases hdone : ∃ a, t = .done a
    · obtain ⟨a, rfl⟩ := hdone
      exact ⟨a, v, .refl, .head hstep hrest⟩
    · cases hstep with
      | task hmove =>
        obtain ⟨t', hmove', rfl⟩ := hmove.of_bind fun a ha => hdone ⟨a, ha⟩
        obtain ⟨a, v', hfirst, hsecond⟩ := ih t' rfl
        exact ⟨a, v', .head (.task hmove') hfirst, hsecond⟩
      | job hworks =>
        obtain ⟨a, v', hfirst, hsecond⟩ := ih t rfl
        exact ⟨a, v', .head (.job hworks) hfirst, hsecond⟩

namespace Line

/-- Nothing is under way on a line, and nothing is left to be rolled back. -/
structure Still (l : Line κ) : Prop where
  running : l.running = []
  undoing : l.undoing = []

omit [Endpoint κ] in
theorem Still.mark {l : Line κ} (h : l.Still) (isOpen : Bool) : (l.mark isOpen).Still :=
  ⟨h.running, h.undoing⟩

theorem Still.not_works {l l' : Line κ} (h : l.Still) : ¬ l.Works l' := by
  intro hworks
  cases hworks with
  | @askLane before after job hjobs hundo hstage =>
    exact absurd (h.undoing ▸ mem_undoing (by simp [hjobs]) hundo) List.not_mem_nil
  | @grantLane before after job seat hjobs hundo hstage hnext =>
    exact absurd (h.undoing ▸ mem_undoing (by simp [hjobs]) hundo) List.not_mem_nil
  | @perform before after job seat hjobs hstage =>
    have hseat : seat ∈ l.running :=
      List.mem_filterMap.mpr ⟨job, by simp [hjobs], by rw [Job.seat?, hstage]; rfl⟩
    exact absurd (h.running ▸ hseat) List.not_mem_nil

theorem Still.works_eq {l l' : Line κ} (h : l.Still) (hworks : Relation.ReflTransGen Works l l') :
    l' = l := by
  induction hworks with
  | refl => rfl
  | tail _ hlast ih =>
    rw [ih] at hlast
    exact absurd hlast h.not_works

theorem Works.frees {l l' : Line κ} (h : l.Works l') (hnone : l.undoing = []) :
    l'.lane.owner = none := by
  cases h with
  | @askLane before after job hjobs hundo hstage =>
    exact absurd (hnone ▸ mem_undoing (by simp [hjobs]) hundo) List.not_mem_nil
  | @grantLane before after job seat hjobs hundo hstage hnext =>
    exact absurd (hnone ▸ mem_undoing (by simp [hjobs]) hundo) List.not_mem_nil
  | perform before after hjobs hstage => rfl

theorem Still.trace_eq {l : Line κ} (h : l.Still) : l.trace = l.history := by
  rw [trace, underway_nil h.running, List.append_nil]

namespace Ordered

variable {start : κ} {held : List Nat} {l : Line κ}

theorem undoing_nil {ticket : Nat} (h : l.Ordered start [ticket]) : l.undoing = [] :=
  (h.held_eq (List.Perm.refl _)).2.2

theorem endpoint_eq (h : l.Ordered start held) (hstill : l.Still) :
    l.endpoint = Line.replay start l.trace := by
  rw [hstill.trace_eq]
  exact h.replay

theorem recorded_trace (h : l.Ordered start held) : Line.Recorded start l.trace := by
  rw [Line.trace, recorded_append, ← h.replay]
  refine ⟨h.recorded, ?_⟩
  have hlength := h.running_length
  rw [← underway_seats, List.length_map] at hlength
  cases hunderway : l.underway with
  | nil => trivial
  | cons entry rest =>
    rw [hunderway, List.length_cons] at hlength
    obtain rfl : rest = [] := List.length_eq_zero_iff.mp (by omega)
    have hentry : entry ∈ l.underway := by simp [hunderway]
    obtain ⟨job, -, hjob⟩ := List.mem_filterMap.mp hentry
    obtain ⟨seat, -, rfl⟩ := Option.map_eq_some_iff.mp hjob
    exact ⟨rfl, trivial⟩

/-- The last command has been performed on what the others have made of the connection. -/
theorem last (h : l.Ordered start held) (hstill : l.Still) {log : List Entry} {entry : Entry}
    (htrace : l.trace = log ++ [entry]) :
    entry.reply = (Endpoint.perform entry.command (Line.replay start log)).1 ∧
      l.endpoint = (Endpoint.perform entry.command (Line.replay start log)).2 := by
  have hrecorded := h.recorded_trace
  rw [htrace, recorded_append] at hrecorded
  rw [h.endpoint_eq hstill, htrace, replay_append]
  exact ⟨hrecorded.2.1, rfl⟩

/-- A command whose seat is the only one on the lane is not under way any more once it is answered. -/
theorem running_nil (h : l.Ordered start held) {entry : Entry} (hentry : entry ∈ l.history)
    (howner : ∀ seat ∈ l.lane.owner, seat = entry.seat) : l.running = [] := by
  rw [h.running]
  cases hlane : l.lane.owner with
  | none => rfl
  | some seat =>
    -- The seat would be there twice, before itself.
    have hseats := (List.pairwise_append.mp h.seats).2.2 entry.seat (List.mem_map_of_mem hentry) seat
      (by simp [hlane])
    rw [howner seat hlane] at hseats
    exact absurd hseats.2 (Nat.lt_irrefl _)

end Ordered

end Line

/-- Inside a session of a line, everything that is in order keeps the line in order. -/
theorem Reaches.ordered_inside {start : κ} {line : Nat} {sessions : Sessions} {t t' : Task σ α}
    {w w' : World σ κ} (h : Reaches sessions (t, w) (t', w')) (ho : t.Starts line true)
    (hl : (w.lines line).Ordered start [sessions line]) :
    (w'.lines line).Ordered start (t'.holders line ++ [sessions line]) := by
  suffices hinv : ∀ state, Reaches sessions (t, w) state → state.1.Orderly line true ∧
      (state.2.lines line).Ordered start (state.1.holders line ++ [sessions line]) from
    (hinv (t', w') h).2
  intro state hreach
  induction hreach with
  | refl =>
    refine ⟨ho.1, ?_⟩
    rw [ho.2]
    exact hl
  | tail _ hstep ih =>
    cases hstep with
    | task hmove =>
      refine hmove.ordered ih.1 (fun _ => ?_) ih.2
      exact ih.2.owner_of_mem (List.mem_append_right _ (List.mem_singleton_self _))
    | @job u v n l hworks =>
      refine ⟨ih.1, ?_⟩
      rw [World.onLine_lines]
      split
      · next hn =>
        subst hn
        exact ih.2.works hworks
      · exact ih.2

theorem Line.InnerStep.trace {start : κ} {held : List Nat} {session : Nat} {l l' : Line κ}
    (h : l.InnerStep session l') (ho : l.Ordered start held) :
    l'.isOpen = l.isOpen ∧ ∃ sent, l'.trace = l.trace ++ sent ∧
      ∀ entry ∈ sent, entry.command.isInner = true := by
  cases h with
  | same hsame =>
    exact ⟨hsame.isOpen, [], hsame.trace.trans (List.append_nil _).symm, List.forall_mem_nil _⟩
  | @dispatch seat command hnext hseat hinner =>
    refine ⟨rfl, _, ho.trace_dispatch command hnext, ?_⟩
    intro entry hentry
    rw [List.mem_singleton.mp hentry]
    exact hinner

/-- What is done on its behalf inside a transaction is added to the trace of a line. -/
theorem Reaches.inner {start : κ} {line : Nat} {sessions : Sessions} {t t' : Task σ α}
    {w w' : World σ κ} (h : Reaches sessions (t, w) (t', w')) (ht : t.Inner line (sessions line))
    (hl : (w.lines line).Ordered start [sessions line]) :
    (w'.lines line).Ordered start [sessions line] ∧
      (w'.lines line).isOpen = (w.lines line).isOpen ∧
      ∃ sent, (w'.lines line).trace = (w.lines line).trace ++ sent ∧
        ∀ entry ∈ sent, entry.command.isInner = true := by
  suffices hinv : ∀ state, Reaches sessions (t, w) state →
      state.1.Inner line (sessions line) ∧ (state.2.lines line).Ordered start [sessions line] ∧
        (state.2.lines line).isOpen = (w.lines line).isOpen ∧
        ∃ sent, (state.2.lines line).trace = (w.lines line).trace ++ sent ∧
          ∀ entry ∈ sent, entry.command.isInner = true from (hinv (t', w') h).2
  intro state hreach
  induction hreach with
  | refl => exact ⟨ht, hl, rfl, [], (List.append_nil _).symm, List.forall_mem_nil _⟩
  | @tail before after hbefore hstep ih =>
    obtain ⟨hinner, hordered, hopen, sent, htrace, hsent⟩ := ih
    have hordered' := Reaches.ordered_inside (hbefore.tail hstep) ⟨ht.orderly, ht.holders⟩ hl
    cases hstep with
    | task hmove =>
      obtain ⟨hinner', hline⟩ := hinner.moves hmove
      rw [hinner'.holders] at hordered'
      obtain ⟨hkept, more, hmore, hcommands⟩ := hline.trace hordered
      refine ⟨hinner', hordered', hkept.trans hopen, sent ++ more, ?_, ?_⟩
      · rw [hmore, htrace, List.append_assoc]
      · intro entry hentry
        rcases List.mem_append.mp hentry with hentry | hentry
        · exact hsent entry hentry
        · exact hcommands entry hentry
    | @job u v n l hworks =>
      rw [hinner.holders] at hordered'
      refine ⟨hinner, hordered', ?_⟩
      rw [World.onLine_lines]
      split
      · next hn =>
        subst hn
        obtain ⟨hsame, hkept⟩ := hworks.same hordered hordered.undoing_nil
        exact ⟨hkept.trans hopen, sent, hsame.trans htrace, hsent⟩
      · exact ⟨hopen, sent, htrace, hsent⟩

theorem Reaches.marked {line : Nat} {isOpen : Bool} {sessions : Sessions} {u : Unit}
    {w w' : World σ κ} (h : Reaches sessions (Task.mark line isOpen, w) (.done u, w'))
    (hstill : (w.lines line).Still) :
    w'.lines line = (w.lines line).mark isOpen ∧ w'.notes = w.notes := by
  suffices hinv : ∀ state, Reaches sessions (Task.mark line isOpen, w) state →
      state.2.notes = w.notes ∧
        ((state.1 = Task.mark line isOpen ∧ state.2.lines line = w.lines line) ∨
          (state.1 = .done () ∧ state.2.lines line = (w.lines line).mark isOpen)) by
    obtain ⟨hnotes, ⟨htask, -⟩ | ⟨-, hline⟩⟩ := hinv (.done u, w') h
    · cases htask
    · exact ⟨hline, hnotes⟩
  intro state hreach
  induction hreach with
  | refl => exact ⟨rfl, .inl ⟨rfl, rfl⟩⟩
  | tail _ hstep ih =>
    obtain ⟨hnotes, hline⟩ := ih
    cases hstep with
    | task hmove =>
      rcases hline with ⟨rfl, hline⟩ | ⟨rfl, hline⟩
      · cases hmove
        refine ⟨hnotes, .inr ⟨rfl, ?_⟩⟩
        rw [World.onLine_lines, if_pos rfl, hline]
      · cases hmove
    | @job t v n l hworks =>
      have hother : line ≠ n := by
        rintro rfl
        rcases hline with ⟨-, hline⟩ | ⟨-, hline⟩
        · exact hstill.not_works (hline ▸ hworks)
        · exact (hstill.mark isOpen).not_works (hline ▸ hworks)
      rw [World.onLine_lines, if_neg hother]
      exact ⟨hnotes, hline⟩

theorem Reaches.ended {line : Nat} {sessions : Sessions} {a b : α} {w w' : World σ κ}
    (h : Reaches sessions (.done a, w) (.done b, w')) (hstill : (w.lines line).Still) :
    b = a ∧ w'.lines line = w.lines line ∧ w'.notes = w.notes := by
  suffices hinv : ∀ state, Reaches sessions (.done a, w) state → state.1 = .done a ∧
      state.2.lines line = w.lines line ∧ state.2.notes = w.notes by
    obtain ⟨hdone, hline, hnotes⟩ := hinv (.done b, w') h
    cases hdone
    exact ⟨rfl, hline, hnotes⟩
  intro state hreach
  induction hreach with
  | refl => exact ⟨rfl, rfl, rfl⟩
  | tail _ hstep ih =>
    obtain ⟨hdone, hline, hnotes⟩ := ih
    cases hstep with
    | task hmove =>
      obtain rfl := hdone
      cases hmove
    | @job t v n l hworks =>
      have hother : line ≠ n := by
        rintro rfl
        exact hstill.not_works (hline ▸ hworks)
      rw [World.onLine_lines, if_neg hother]
      exact ⟨hdone, hline, hnotes⟩

/-- A task that has been played to its end has returned. -/
theorem Reaches.returns {sessions : Sessions} {t : Task σ α} {a : α} {w : World σ κ}
    {played : Task σ α × World σ κ} (h : Reaches sessions (t, w) played)
    (hresult : played.1.result? = some a) : Reaches sessions (t, w) (.done a, played.2) := by
  obtain ⟨t', w'⟩ := played
  cases t' with
  | done b =>
    cases hresult
    exact h
  | _ => cases hresult

theorem Reaches.not_pending {sessions : Sessions} {b : α} {w w' : World σ κ} :
    ¬ Reaches sessions (.pending, w) (.done b, w') := by
  suffices hinv : ∀ state, Reaches sessions (.pending, w) state → state.1 = (.pending : Task σ α) from
    fun h => nomatch hinv (.done b, w') h
  intro state hreach
  induction hreach with
  | refl => rfl
  | tail _ hstep ih =>
    cases hstep with
    | task hmove =>
      obtain rfl := ih
      cases hmove
    | job hworks => exact ih

/-- How far a command has come that is sent after others, which the trace has told before. -/
inductive Task.Sends (line : Nat) (command : Command) (log : List Entry) :
    Task σ Reply → Line κ → Prop where
  | fresh {l : Line κ} (htrace : l.trace = log) :
      Sends line command log (.sending line .fresh command .done) l
  | queued {l : Line κ} {seat : Seat} (htrace : l.trace = log) :
      Sends line command log (.sending line (.queued seat) command .done) l
  | granted {l : Line κ} {seat : Seat} {reply : Reply}
      (htrace : l.trace = log ++ [⟨seat, command, reply⟩]) (hnew : ∀ entry ∈ log, entry.seat ≠ seat)
      (howner : ∀ other ∈ l.lane.owner, other = seat) :
      Sends line command log (.sending line (.granted seat) command .done) l
  | answered {l : Line κ} {seat : Seat} {reply : Reply}
      (htrace : l.trace = log ++ [⟨seat, command, reply⟩]) (hstill : l.Still) :
      Sends line command log (.done reply) l

namespace Task.Sends

variable {start : κ} {line session : Nat} {command : Command} {log : List Entry}

theorem works {t : Task σ Reply} {l l' : Line κ} (h : t.Sends line command log l)
    (ho : l.Ordered start [session]) (hworks : l.Works l') : t.Sends line command log l' := by
  obtain ⟨hsame, -⟩ := hworks.same ho ho.undoing_nil
  cases h with
  | fresh htrace => exact .fresh (hsame.trans htrace)
  | queued htrace => exact .queued (hsame.trans htrace)
  | granted htrace hnew howner =>
    refine .granted (hsame.trans htrace) hnew fun other hother => ?_
    rw [hworks.frees ho.undoing_nil] at hother
    cases hother
  | answered htrace hstill => exact absurd hworks hstill.not_works

theorem moves {sessions : Sessions} {t t' : Task σ Reply} {w w' : World σ κ}
    (h : t.Sends line command log (w.lines line)) (ho : (w.lines line).Ordered start [session])
    (hmove : t.Moves sessions w t' w') :
    t'.Sends line command log (w'.lines line) ∧
      (w'.lines line).isOpen = (w.lines line).isOpen ∧ w'.notes = w.notes := by
  generalize hl : w.lines line = l at h ho
  cases h with
  | fresh htrace =>
    cases hmove
    rw [World.onLine_lines, if_pos rfl, hl]
    exact ⟨.queued htrace, rfl, rfl⟩
  | @queued _ seat htrace =>
    cases hmove with
    | dispatch hnext =>
      rw [hl] at hnext
      rw [World.onLine_lines, if_pos rfl, hl]
      have htrace' := ho.trace_dispatch command hnext
      rw [htrace] at htrace'
      refine ⟨.granted htrace' (fun entry hentry => ?_) ?_, rfl, rfl⟩
      · exact ho.seat_unused hnext (htrace ▸ hentry)
      · rintro other ⟨⟩
        rfl
  | granted htrace hnew howner =>
    cases hmove with
    | @collect _ _ _ _ _ _ _ entry hentry hseat =>
      rw [hl] at hentry ⊢
      have hmem : entry ∈ l.trace := List.mem_append_left _ hentry
      rw [htrace] at hmem
      rcases List.mem_append.mp hmem with hlog | hlast
      · exact absurd hseat (hnew entry hlog)
      · have hrunning := ho.running_nil hentry fun other hother =>
          (howner other hother).trans hseat.symm
        rw [List.mem_singleton.mp hlast]
        exact ⟨.answered htrace ⟨hrunning, ho.undoing_nil⟩, rfl, rfl⟩
  | answered htrace hstill => cases hmove

end Task.Sends

/-- A command that has been answered is the last one of the trace, and is not under way any more. -/
theorem Reaches.answered {start : κ} {line : Nat} {command : Command} {reply : Reply}
    {sessions : Sessions} {w w' : World σ κ}
    (h : Reaches sessions (Task.send line command, w) (.done reply, w'))
    (hl : (w.lines line).Ordered start [sessions line]) :
    (w'.lines line).Ordered start [sessions line] ∧ (w'.lines line).Still ∧
      (w'.lines line).isOpen = (w.lines line).isOpen ∧ w'.notes = w.notes ∧
      ∃ seat, (w'.lines line).trace = (w.lines line).trace ++ [⟨seat, command, reply⟩] := by
  have hstarts : (Task.send line command : Task σ Reply).Starts line true :=
    Task.starts_send fun _ => rfl
  suffices hinv : ∀ state, Reaches sessions (Task.send line command, w) state →
      state.1.Sends line command (w.lines line).trace (state.2.lines line) ∧
        state.1.holders line = [] ∧
        (state.2.lines line).isOpen = (w.lines line).isOpen ∧ state.2.notes = w.notes by
    obtain ⟨hsends, -, hopen, hnotes⟩ := hinv (.done reply, w') h
    have hordered := h.ordered_inside hstarts hl
    cases hsends with
    | @answered _ seat _ htrace hstill => exact ⟨hordered, hstill, hopen, hnotes, seat, htrace⟩
  intro state hreach
  induction hreach with
  | refl => exact ⟨.fresh rfl, rfl, rfl, rfl⟩
  | @tail before after hbefore hstep ih =>
    obtain ⟨hsends, hholders, hopen, hnotes⟩ := ih
    have hordered := Reaches.ordered_inside hbefore hstarts hl
    rw [hholders] at hordered
    cases hstep with
    | task hmove =>
      obtain ⟨hsends', hopen', hnotes'⟩ := hsends.moves hordered hmove
      refine ⟨hsends', ?_, hopen'.trans hopen, hnotes'.trans hnotes⟩
      generalize World.lines _ line = l at hsends'
      cases hsends' <;> rfl
    | @job u v n l hworks =>
      rw [World.onLine_lines]
      split
      · next hn =>
        subst hn
        obtain ⟨-, hkept⟩ := hworks.same hordered hordered.undoing_nil
        exact ⟨hsends.works hordered hworks, hholders, hkept.trans hopen, hnotes⟩
      · exact ⟨hsends, hholders, hopen, hnotes⟩

/-- How far work has come that holds the session of a line which has been free. -/
inductive Task.Holds (sessions : Sessions) (line : Nat) (work : Task σ α) (w : World σ κ) :
    Task σ α → World σ κ → Prop where
  | fresh {v : World σ κ} (hline : v.lines line = w.lines line) (hnotes : v.notes = w.notes) :
      Holds sessions line work w (.holding line .fresh work .done) v
  | queued {v : World σ κ} (hline : v.lines line = (w.lines line).askSession)
      (hnotes : v.notes = w.notes) :
      Holds sessions line work w (.holding line (.queued (w.lines line).issued) work .done) v
  | granted {work' : Task σ α} {entered v : World σ κ}
      (hnext : (w.lines line).askSession.session.isNext (w.lines line).issued)
      (hline : entered.lines line = (w.lines line).askSession.grantSession (w.lines line).issued)
      (hnotes : entered.notes = w.notes)
      (hwork : Reaches (sessions.enter line (w.lines line).issued) (work, entered) (work', v)) :
      Holds sessions line work w (.holding line (.granted (w.lines line).issued) work' .done) v
  | left {a : α} {entered last v : World σ κ}
      (hnext : (w.lines line).askSession.session.isNext (w.lines line).issued)
      (hline : entered.lines line = (w.lines line).askSession.grantSession (w.lines line).issued)
      (hnotes : entered.notes = w.notes)
      (hwork : Reaches (sessions.enter line (w.lines line).issued) (work, entered) (.done a, last))
      (hworks : Relation.ReflTransGen Line.Works
        ((last.lines line).leaveSession (w.lines line).issued) (v.lines line))
      (hleft : v.notes = last.notes) : Holds sessions line work w (.done a) v

theorem Task.Holds.step {sessions : Sessions} {line : Nat} {work t t' : Task σ α}
    {w v v' : World σ κ} (h : Holds sessions line work w t v) (hstill : (w.lines line).Still)
    (hstep : Steps sessions (t, v) (t', v')) : Holds sessions line work w t' v' := by
  cases h with
  | fresh hline hnotes =>
    cases hstep with
    | task hmove =>
      cases hmove
      rw [hline]
      refine .queued ?_ hnotes
      rw [World.onLine_lines, if_pos rfl, hline]
    | @job _ _ n l hworks =>
      have hother : line ≠ n := by
        rintro rfl
        exact hstill.not_works (hline ▸ hworks)
      refine .fresh ?_ hnotes
      rw [World.onLine_lines, if_neg hother, hline]
  | queued hline hnotes =>
    cases hstep with
    | task hmove =>
      cases hmove with
      | grantSession hnext =>
        have hentered : (v.onLine line (.grantSession (w.lines line).issued)).lines line =
            (w.lines line).askSession.grantSession (w.lines line).issued := by
          rw [World.onLine_lines, if_pos rfl, hline]
        exact .granted (hline ▸ hnext) hentered hnotes .refl
    | @job _ _ n l hworks =>
      have hother : line ≠ n := by
        rintro rfl
        have hasked : (w.lines line).askSession.Still := ⟨hstill.running, hstill.undoing⟩
        exact hasked.not_works (hline ▸ hworks)
      refine .queued ?_ hnotes
      rw [World.onLine_lines, if_neg hother, hline]
  | granted hnext hline hnotes hwork =>
    cases hstep with
    | task hmove =>
      cases hmove with
      | inside hmove => exact .granted hnext hline hnotes (hwork.tail (.task hmove))
      | leaveSession =>
        refine .left hnext hline hnotes hwork ?_ rfl
        rw [World.onLine_lines, if_pos rfl]
    | job hworks => exact .granted hnext hline hnotes (hwork.tail (.job hworks))
  | left hnext hline hnotes hwork hlast hleft =>
    cases hstep with
    | task hmove => cases hmove
    | @job _ _ n l hworks =>
      refine .left hnext hline hnotes hwork ?_ hleft
      rw [World.onLine_lines]
      split
      · next hn =>
        subst hn
        exact hlast.tail hworks
      · exact hlast

/-- Work that holds the session of a free line runs from the line as it is entered. -/
theorem Reaches.held {sessions : Sessions} {line : Nat} {work : Task σ α} {a : α}
    {w w' : World σ κ} (h : Reaches sessions (Task.hold line work, w) (.done a, w'))
    (hstill : (w.lines line).Still) :
    ∃ entered last, (w.lines line).askSession.session.isNext (w.lines line).issued = true ∧
      entered.lines line = (w.lines line).askSession.grantSession (w.lines line).issued ∧
      entered.notes = w.notes ∧
      Reaches (sessions.enter line (w.lines line).issued) (work, entered) (.done a, last) ∧
      Relation.ReflTransGen Line.Works ((last.lines line).leaveSession (w.lines line).issued)
        (w'.lines line) ∧
      w'.notes = last.notes := by
  suffices hinv : ∀ state, Reaches sessions (Task.hold line work, w) state →
      Task.Holds sessions line work w state.1 state.2 by
    cases hinv (.done a, w') h with
    | left hnext hline hnotes hwork hworks hleft =>
      exact ⟨_, _, hnext, hline, hnotes, hwork, hworks, hleft⟩
  intro state hreach
  induction hreach with
  | refl => exact .fresh rfl rfl
  | tail _ hstep ih => exact ih.step hstill hstep

end Polystore.Transaction
