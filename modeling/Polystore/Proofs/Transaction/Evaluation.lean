import Polystore.Proofs.Transaction.Schedule

/-!
A caller who is alone. It does one thing after the other, and every session it asks for is free. Main
statement: what such a caller comes to is what it comes to when it is played for long enough.
-/

namespace Polystore.Transaction

variable {σ κ α β : Type}

theorem Line.approach_free {l : Line κ} (hfree : l.session = {}) :
    l.approach .fresh = (.granted l.issued, l.askSession.grantSession l.issued) := by
  rw [Line.approach, if_pos]
  simp [Line.askSession, Lock.ask, Lock.isNext_iff, hfree]

namespace Task

/-- A session with the work in it, however far the work has come. -/
def within (sessions : Sessions) (line ticket : Nat) (next : β → Task σ α) :
    Task σ β × World σ κ → Task σ α × World σ κ
  | (.done b, w) => settle sessions (next b) (w.onLine line (.leaveSession ticket))
  | (work, w) => (.holding line (.granted ticket) work next, w)

theorem settle_holding {sessions : Sessions} {line ticket : Nat} {l : Line κ} {work : Task σ β}
    {next : β → Task σ α} {w : World σ κ}
    (hfree : (w.lines line).approach .fresh = (.granted ticket, l)) :
    settle sessions (.holding line .fresh work next) w =
      within sessions line ticket next
        (settle (sessions.enter line ticket) work (w.onLine line fun _ => l)) := by
  rw [settle, hfree]
  dsimp only
  generalize settle (sessions.enter line ticket) work (w.onLine line fun _ => l) = p
  obtain ⟨work, v⟩ := p
  cases work <;> rfl

theorem within_of_canMove {sessions : Sessions} {line ticket : Nat} {work : Task σ β}
    {next : β → Task σ α} {w : World σ κ} (hmove : work.canMove w = true) :
    within sessions line ticket next (work, w) = (.holding line (.granted ticket) work next, w) := by
  cases work with
  | done b => cases hmove
  | _ => rfl

/-- One thing and then another, however far the first has come. -/
def followed (sessions : Sessions) (f : α → Task σ β) : Task σ α × World σ κ → Task σ β × World σ κ
  | (.done a, w) => settle sessions (f a) w
  | (t, w) => (t.bind f, w)

theorem settle_bind (sessions : Sessions) (t : Task σ α) (f : α → Task σ β) (w : World σ κ) :
    settle sessions (t.bind f) w = followed sessions f (settle sessions t w) := by
  fun_induction settle sessions t w with
  | case1 _ sessions change next w ih => exact ih f
  | case2 _ sessions line isOpen next w ih => exact ih f
  | case3 _ sessions _ line stage work next w l v ticket b u hwork hstage ihwork ihnext =>
    rw [Task.bind, settle, hstage]
    dsimp only
    rw [hwork]
    exact ihnext f
  | case4 _ sessions _ line stage work next w l v ticket t u hnot hwork hstage ihwork =>
    rw [Task.bind, settle, hstage]
    dsimp only
    rw [hwork]
    cases t with
    | done b => exact absurd rfl (hnot b)
    | _ => rfl
  | case5 _ sessions _ line stage work next w l v reached hnot hstage =>
    rw [Task.bind, settle, hstage]
    cases reached with
    | granted ticket => exact absurd rfl (hnot ticket)
    | _ => rfl
  | case6 _ sessions _ _ left right next w u v b c hleft hright ihleft ihright ihnext =>
    rw [Task.bind, settle, hleft]
    dsimp only
    rw [hright]
    exact ihnext f
  | case7 _ sessions _ _ left right next w u v t t' hnot hleft hright ihleft ihright =>
    rw [Task.bind, settle, hleft]
    dsimp only
    rw [hright]
    cases t with
    | done b =>
      cases t' with
      | done c => exact absurd rfl (hnot b c rfl)
      | _ => rfl
    | _ => rfl
  | case8 _ sessions _ work next w b u hwork ihwork ihnext =>
    rw [Task.bind, settle, hwork]
    exact ihnext f
  | case9 _ sessions _ work next w t u hnot hwork ihwork =>
    rw [Task.bind, settle, hwork]
    cases t with
    | done b => exact absurd rfl (hnot b)
    | _ => rfl
  | case10 _ sessions w t hnoting hmarking hholding hboth hlimited =>
    cases t with
    | noting change next => exact absurd rfl (hnoting _ _)
    | marking line isOpen next => exact absurd rfl (hmarking _ _ _)
    | holding line stage work next => exact absurd rfl (hholding _ _ _ _ _)
    | both left right next => exact absurd rfl (hboth _ _ _ _ _)
    | limited work next => exact absurd rfl (hlimited _ _ _)
    | done a => rfl
    | pending => rfl
    | sending line stage command next => rfl

theorem canMove_bind {t : Task σ α} {w : World σ κ} (hmove : t.canMove w = true)
    (f : α → Task σ β) : (t.bind f).canMove w = true := by
  cases t with
  | done a => cases hmove
  | sending line stage command next => cases stage <;> exact hmove
  | holding line stage work next => cases stage <;> exact hmove
  | _ => exact hmove

end Task

variable [Endpoint κ]

namespace World

/-- What a command is answered. -/
def reply (w : World σ κ) (line session : Nat) (command : Command) : Reply :=
  ((w.lines line).roundTrip session command).1

/-- The world after a command. -/
def sent (w : World σ κ) (line session : Nat) (command : Command) : World σ κ :=
  w.onLine line fun l => (l.roundTrip session command).2

theorem AtRest.sent {w : World σ κ} (h : w.AtRest) (line session : Nat) (command : Command) :
    (w.sent line session command).AtRest :=
  h.onLine ((h line).roundTrip (Prod.eta _).symm)

theorem reply_eq (w : World σ κ) (line session : Nat) (command : Command) :
    w.reply line session command = (Endpoint.perform command (w.lines line).endpoint).1 :=
  rfl

@[simp]
theorem sent_endpoint (w : World σ κ) (line session : Nat) (command : Command) :
    ((w.sent line session command).lines line).endpoint =
      (Endpoint.perform command (w.lines line).endpoint).2 := by
  rw [sent, onLine_lines, if_pos rfl]
  rfl

omit [Endpoint κ] in
@[simp]
theorem mark_endpoint (w : World σ κ) (line : Nat) (isOpen : Bool) :
    ((w.onLine line (.mark isOpen)).lines line).endpoint = (w.lines line).endpoint := by
  rw [onLine_lines, if_pos rfl]
  rfl

omit [Endpoint κ] in
@[simp]
theorem leaveSession_endpoint (w : World σ κ) (line ticket : Nat) :
    ((w.onLine line (.leaveSession ticket)).lines line).endpoint = (w.lines line).endpoint := by
  rw [onLine_lines, if_pos rfl, Line.leaveSession]
  split <;> rfl

end World

namespace Task

/-- What a task comes to that never has to wait, and what it makes of the world. -/
inductive Ends : {α : Type} → Sessions → Task σ α → World σ κ → α → World σ κ → Prop where
  | done {α : Type} {sessions : Sessions} {a : α} {w : World σ κ} : Ends sessions (.done a) w a w
  | noting {α : Type} {sessions : Sessions} {change : σ → σ} {next : σ → Task σ α} {a : α}
      {w w' : World σ κ} (hnext : Ends sessions (next w.notes) { w with notes := change w.notes } a w') :
      Ends sessions (.noting change next) w a w'
  | marking {α : Type} {sessions : Sessions} {line : Nat} {isOpen : Bool} {next : Task σ α} {a : α}
      {w w' : World σ κ} (hnext : Ends sessions next (w.onLine line (.mark isOpen)) a w') :
      Ends sessions (.marking line isOpen next) w a w'
  | sending {α : Type} {sessions : Sessions} {line : Nat} {command : Command}
      {next : Reply → Task σ α} {a : α} {w w' : World σ κ}
      (hnext : Ends sessions (next (w.reply line (sessions line) command))
        (w.sent line (sessions line) command) a w') :
      Ends sessions (.sending line .fresh command next) w a w'
  /-- The session is free, and is kept until the work is done. -/
  | holding {α β : Type} {sessions : Sessions} {line ticket : Nat} {l : Line κ} {work : Task σ β}
      {next : β → Task σ α} {a : α} {b : β} {w v w' : World σ κ}
      (hfree : (w.lines line).approach .fresh = (.granted ticket, l))
      (hwork : Ends (sessions.enter line ticket) work (w.onLine line fun _ => l) b v)
      (hnext : Ends sessions (next b) (v.onLine line (.leaveSession ticket)) a w') :
      Ends sessions (.holding line .fresh work next) w a w'

namespace Ends

variable {sessions : Sessions} {t : Task σ α} {f : α → Task σ β} {a : α} {b : β} {w v w' : World σ κ}

theorem pure : Ends sessions (Pure.pure a : Task σ α) w a w :=
  .done

protected theorem bind (h : Ends sessions t w a v) (hf : Ends sessions (f a) v b w') :
    Ends sessions (t >>= f) w b w' := by
  change Ends sessions (t.bind f) w b w'
  induction h with
  | done => exact hf
  | noting hnext ih => exact .noting (ih hf)
  | marking hnext ih => exact .marking (ih hf)
  | sending hnext ih => exact .sending (ih hf)
  | holding hfree hwork hnext ihwork ihnext => exact .holding hfree hwork (ihnext hf)

theorem update (change : σ → σ) :
    Ends sessions (Task.update change) w w.notes { w with notes := change w.notes } :=
  .noting .done

theorem mark (line : Nat) (isOpen : Bool) :
    Ends sessions (Task.mark line isOpen) w () (w.onLine line (.mark isOpen)) :=
  .marking .done

theorem send (line : Nat) (command : Command) :
    Ends sessions (Task.send line command) w (w.reply line (sessions line) command)
      (w.sent line (sessions line) command) :=
  .sending .done

end Ends

theorem run_done (sessions : Sessions) (turns : Nat) (a : α) (w : World σ κ) :
    run sessions turns (.done a : Task σ α) w = (.done a, w) := by
  cases turns with
  | zero => rfl
  | succ turns => rfl

theorem run_of_canMove {t : Task σ α} {w : World σ κ} (hmove : t.canMove w = true)
    (sessions : Sessions) (turns : Nat) :
    run sessions (turns + 1) t w = run sessions turns (turn sessions t w).1 (turn sessions t w).2 := by
  rw [run, if_pos hmove]

theorem run_of_stuck {t : Task σ α} {w : World σ κ} (hstuck : t.canMove w = false)
    (sessions : Sessions) (turns : Nat) : run sessions turns t w = (t, w) := by
  cases turns with
  | zero => rfl
  | succ turns => rw [run, hstuck, if_neg Bool.false_ne_true]

/-- Played for long enough, a task comes to this and stays so. -/
def Leads (sessions : Sessions) (p q : Task σ α × World σ κ) : Prop :=
  ∃ n, ∀ turns, n ≤ turns → run sessions turns p.1 p.2 = q

theorem Leads.of_stuck {t : Task σ α} {w : World σ κ} (hstuck : t.canMove w = false)
    (sessions : Sessions) : Leads sessions (t, w) (t, w) :=
  ⟨0, fun turns _ => run_of_stuck hstuck sessions turns⟩

theorem Leads.turn {sessions : Sessions} {t : Task σ α} {w : World σ κ}
    {q : Task σ α × World σ κ} (hmove : t.canMove w = true)
    (h : Leads sessions (t.turn sessions w) q) : Leads sessions (t, w) q := by
  obtain ⟨n, hn⟩ := h
  refine ⟨n + 1, fun turns hturns => ?_⟩
  obtain ⟨turns, rfl⟩ := Nat.exists_eq_add_of_le' (Nat.le_of_add_left_le hturns)
  rw [run_of_canMove hmove]
  exact hn turns (Nat.le_of_add_le_add_right hturns)

/-- Played for long enough, a task comes to its end. -/
def Finishes (sessions : Sessions) (p : Task σ α × World σ κ) (a : α) (w : World σ κ) : Prop :=
  ∃ n, ∀ turns, n ≤ turns → run sessions turns p.1 p.2 = (.done a, w)

namespace Finishes

variable {sessions : Sessions} {a : α} {b : β} {w v w' : World σ κ}

theorem done : Finishes sessions (.done a, w) a w :=
  ⟨0, fun turns _ => run_done sessions turns a w⟩

theorem turn {t : Task σ α} (hmove : t.canMove w = true)
    (h : Finishes sessions (t.turn sessions w) a w') : Finishes sessions (t, w) a w' :=
  Leads.turn hmove h

end Finishes

theorem turn_holding (sessions : Sessions) (line ticket : Nat) (work : Task σ β)
    (next : β → Task σ α) (w : World σ κ) :
    turn sessions (.holding line (.granted ticket) work next) w =
      within sessions line ticket next (turn (sessions.enter line ticket) work w) := by
  rw [turn]
  generalize turn (sessions.enter line ticket) work w = p
  obtain ⟨work, v⟩ := p
  cases work <;> rfl

theorem turn_bind {t : Task σ α} {w : World σ κ} (hmove : t.canMove w = true) (sessions : Sessions)
    (f : α → Task σ β) :
    turn sessions (t.bind f) w = followed sessions f (turn sessions t w) := by
  cases t with
  | sending line stage command next =>
    cases stage with
    | fresh => exact settle_bind _ _ f _
    | _ => cases hmove
  | holding line stage work next =>
    cases stage with
    | fresh => cases hmove
    | queued ticket => exact settle_bind sessions (.holding line (.queued ticket) work next) f w
    | granted ticket =>
      rw [Task.bind, turn_holding, turn_holding]
      generalize turn (sessions.enter line ticket) work w = p
      obtain ⟨work, v⟩ := p
      cases work with
      | done b => exact settle_bind _ _ f _
      | _ => rfl
  | both left right next =>
    rw [Task.bind, turn, turn]
    generalize turn sessions left w = p
    obtain ⟨left, v⟩ := p
    dsimp only
    generalize turn sessions right v = p
    obtain ⟨right, u⟩ := p
    cases left with
    | done b =>
      cases right with
      | done c => exact settle_bind _ _ f _
      | _ => rfl
    | _ => rfl
  | limited work next =>
    rw [Task.bind, turn, turn]
    generalize turn sessions work w = p
    obtain ⟨work, v⟩ := p
    cases work with
    | done b => exact settle_bind _ _ f _
    | _ => rfl
  | _ => cases hmove

/-- Work goes on in its session as it does without. -/
theorem Leads.within {sessions : Sessions} {line ticket : Nat} {next : β → Task σ α}
    {p q : Task σ β × World σ κ} {r : Task σ α × World σ κ}
    (hwork : Leads (sessions.enter line ticket) p q)
    (h : Leads sessions (within sessions line ticket next q) r) :
    Leads sessions (within sessions line ticket next p) r := by
  obtain ⟨n, hn⟩ := hwork
  replace hn := hn n (Nat.le_refl n)
  -- By the turns that the work still takes; what it holds outside makes no difference to it.
  induction n generalizing p with
  | zero =>
    obtain rfl : p = q := hn
    exact h
  | succ n ih =>
    obtain ⟨work, w⟩ := p
    cases hmove : work.canMove w with
    | true =>
      rw [run_of_canMove hmove] at hn
      rw [within_of_canMove hmove]
      refine .turn hmove ?_
      rw [turn_holding]
      exact ih hn
    | false =>
      rw [run_of_stuck hmove] at hn
      rwa [hn]

/-- Work comes to its end in its session as it does without, and what follows comes after it. -/
theorem Finishes.within {sessions : Sessions} {line ticket : Nat} {next : β → Task σ α} {a : α}
    {b : β} {v w' : World σ κ} {p : Task σ β × World σ κ}
    (hwork : Finishes (sessions.enter line ticket) p b v)
    (hnext : Finishes sessions (settle sessions (next b) (v.onLine line (.leaveSession ticket))) a w') :
    Finishes sessions (within sessions line ticket next p) a w' :=
  Leads.within hwork hnext

/-- What comes first comes to its end as it does alone, and the other comes after it. -/
theorem Finishes.followed {sessions : Sessions} {f : α → Task σ β} {a : α} {b : β}
    {v w' : World σ κ} {p : Task σ α × World σ κ} (hfirst : Finishes sessions p a v)
    (hsecond : Finishes sessions (settle sessions (f a) v) b w') :
    Finishes sessions (followed sessions f p) b w' := by
  obtain ⟨n, hn⟩ := hfirst
  replace hn := hn n (Nat.le_refl n)
  induction n generalizing p with
  | zero =>
    obtain rfl : p = (.done a, v) := hn
    exact hsecond
  | succ n ih =>
    obtain ⟨t, w⟩ := p
    rw [run] at hn
    split at hn
    · next hmove =>
      have hnot : Task.followed sessions f (t, w) = (t.bind f, w) := by
        cases t with
        | done a => cases hmove
        | _ => rfl
      rw [hnot]
      refine .turn (canMove_bind hmove f) ?_
      rw [turn_bind hmove]
      exact ih hn
    · cases hn
      exact hsecond

theorem Finishes.bind {sessions : Sessions} {t : Task σ α} {f : α → Task σ β} {a : α} {b : β}
    {w v w' : World σ κ} (hfirst : Finishes sessions (settle sessions t w) a v)
    (hsecond : Finishes sessions (settle sessions (f a) v) b w') :
    Finishes sessions (settle sessions (t >>= f) w) b w' := by
  change Finishes sessions (settle sessions (t.bind f) w) b w'
  rw [settle_bind]
  exact hfirst.followed hsecond

/-- What a task that never has to wait comes to is what it comes to when it is played. -/
theorem Ends.finishes {sessions : Sessions} {t : Task σ α} {w w' : World σ κ} {a : α}
    (h : Ends sessions t w a w') : Finishes sessions (settle sessions t w) a w' := by
  induction h with
  | done => exact .done
  | noting hnext ih => exact ih
  | marking hnext ih => exact ih
  | sending hnext ih => exact .turn rfl ih
  | holding hfree hwork hnext ihwork ihnext =>
    rw [settle_holding hfree]
    exact ihwork.within ihnext

/-- Played from its beginning, it has that result from some number of turns on. -/
theorem Ends.start {t : Task σ α} {w w' : World σ κ} {a : α} (h : Ends (fun _ => 0) t w a w') :
    ∃ n, ∀ turns, n ≤ turns → t.start turns w = (.done a, w') :=
  h.finishes

/-- What a task comes to when it is played, it may come to in one of its interleavings. -/
theorem Finishes.reaches {sessions : Sessions} {t : Task σ α} {w w' : World σ κ} {a : α}
    (h : Finishes sessions (settle sessions t w) a w') (hrest : w.AtRest) :
    Reaches sessions (t, w) (.done a, w') ∧ w'.AtRest := by
  obtain ⟨n, hn⟩ := h
  have hplayed := hn n (Nat.le_refl n)
  have hsettled := settle_atRest sessions t w hrest
  have hreaches := (settle_reaches sessions t w).trans (run_reaches sessions n _ _ hsettled)
  have hend := run_atRest sessions n (settle sessions t w).1 _ hsettled
  rw [hplayed] at hreaches hend
  exact ⟨hreaches, hend⟩

end Task

end Polystore.Transaction
