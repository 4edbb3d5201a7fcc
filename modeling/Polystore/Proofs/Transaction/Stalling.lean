import Polystore.Proofs.Transaction.Evaluation

/-!
A caller who is alone and may run out of patience. Main statement: what such a caller comes to, or the
world in which it waits for ever, is what playing it for long enough comes to.
-/

namespace Polystore.Transaction.Task

variable {σ κ α β : Type} [Endpoint κ]

/-- A task that never has to wait for a session, and comes to wait for something that never comes. -/
inductive Stalls : {α : Type} → Sessions → Task σ α → World σ κ → World σ κ → Prop where
  | pending {α : Type} {sessions : Sessions} {w : World σ κ} :
      Stalls sessions (.pending : Task σ α) w w
  | noting {α : Type} {sessions : Sessions} {change : σ → σ} {next : σ → Task σ α}
      {w w' : World σ κ} (hnext : Stalls sessions (next w.notes) { w with notes := change w.notes } w') :
      Stalls sessions (.noting change next) w w'
  | marking {α : Type} {sessions : Sessions} {line : Nat} {isOpen : Bool} {next : Task σ α}
      {w w' : World σ κ} (hnext : Stalls sessions next (w.onLine line (.mark isOpen)) w') :
      Stalls sessions (.marking line isOpen next) w w'
  | sending {α : Type} {sessions : Sessions} {line : Nat} {command : Command}
      {next : Reply → Task σ α} {w w' : World σ κ}
      (hnext : Stalls sessions (next (w.reply line (sessions line) command))
        (w.sent line (sessions line) command) w') :
      Stalls sessions (.sending line .fresh command next) w w'
  | inside {α β : Type} {sessions : Sessions} {line ticket : Nat} {l : Line κ} {work : Task σ β}
      {next : β → Task σ α} {w w' : World σ κ}
      (hfree : (w.lines line).approach .fresh = (.granted ticket, l))
      (hwork : Stalls (sessions.enter line ticket) work (w.onLine line fun _ => l) w') :
      Stalls sessions (.holding line .fresh work next) w w'
  | after {α β : Type} {sessions : Sessions} {line ticket : Nat} {l : Line κ} {work : Task σ β}
      {next : β → Task σ α} {b : β} {w v w' : World σ κ}
      (hfree : (w.lines line).approach .fresh = (.granted ticket, l))
      (hwork : Ends (sessions.enter line ticket) work (w.onLine line fun _ => l) b v)
      (hnext : Stalls sessions (next b) (v.onLine line (.leaveSession ticket)) w') :
      Stalls sessions (.holding line .fresh work next) w w'

/-- What a task comes to that never has to wait for a session: its result, if it has one, and the
world. -/
def Comes (sessions : Sessions) (t : Task σ α) (w : World σ κ) : Option α → World σ κ → Prop
  | some a, w' => Ends sessions t w a w'
  | none, w' => Stalls sessions t w w'

section

variable {sessions : Sessions} {t : Task σ α} {f : α → Task σ β} {a : α} {o : Option β}
  {w v w' : World σ κ}

theorem Stalls.bind (h : Stalls sessions t w w') (f : α → Task σ β) :
    Stalls sessions (t >>= f) w w' := by
  change Stalls sessions (t.bind f) w w'
  induction h with
  | pending => exact .pending
  | noting hnext ih => exact .noting (ih f)
  | marking hnext ih => exact .marking (ih f)
  | sending hnext ih => exact .sending (ih f)
  | inside hfree hwork ih => exact .inside hfree hwork
  | after hfree hwork hnext ih => exact .after hfree hwork (ih f)

theorem Ends.bind_stalls (h : Ends sessions t w a v) (hf : Stalls sessions (f a) v w') :
    Stalls sessions (t >>= f) w w' := by
  change Stalls sessions (t.bind f) w w'
  induction h with
  | done => exact hf
  | noting hnext ih => exact .noting (ih hf)
  | marking hnext ih => exact .marking (ih hf)
  | sending hnext ih => exact .sending (ih hf)
  | holding hfree hwork hnext ihwork ihnext => exact .after hfree hwork (ihnext hf)

theorem Ends.bind_comes (h : Ends sessions t w a v) (hf : Comes sessions (f a) v o w') :
    Comes sessions (t >>= f) w o w' := by
  cases o with
  | some b => exact Ends.bind h hf
  | none => exact h.bind_stalls hf

theorem Comes.hold {line ticket : Nat} {l : Line κ} {work : Task σ α} {o : Option α}
    (hfree : (w.lines line).approach .fresh = (.granted ticket, l))
    (hwork : Comes (sessions.enter line ticket) work (w.onLine line fun _ => l) o v) :
    Comes sessions (Task.hold line work) w o
      (if o.isSome then v.onLine line (.leaveSession ticket) else v) := by
  cases o with
  | some a => exact .holding hfree hwork .done
  | none => exact .inside hfree hwork

end

/-- Played for long enough, a task comes to wait for ever. -/
def Hangs (sessions : Sessions) (p : Task σ α × World σ κ) (w : World σ κ) : Prop :=
  ∃ t, t.result? = none ∧ t.canMove w = false ∧ Leads sessions p (t, w)

theorem Hangs.of_stuck {sessions : Sessions} {t : Task σ α} {w : World σ κ}
    (hresult : t.result? = none) (hstuck : t.canMove w = false) : Hangs sessions (t, w) w :=
  ⟨t, hresult, hstuck, .of_stuck hstuck sessions⟩

theorem Hangs.turn {sessions : Sessions} {t : Task σ α} {w w' : World σ κ}
    (hmove : t.canMove w = true) (h : Hangs sessions (t.turn sessions w) w') :
    Hangs sessions (t, w) w' := by
  obtain ⟨t', hresult, hstuck, hleads⟩ := h
  exact ⟨t', hresult, hstuck, hleads.turn hmove⟩

/-- What waits for ever behind some work in its session. -/
theorem Hangs.behind {sessions : Sessions} {line ticket : Nat} {next : β → Task σ α}
    {p q : Task σ β × World σ κ} {w : World σ κ}
    (hwork : Leads (sessions.enter line ticket) p q)
    (h : Hangs sessions (within sessions line ticket next q) w) :
    Hangs sessions (within sessions line ticket next p) w := by
  obtain ⟨t, hresult, hstuck, hleads⟩ := h
  exact ⟨t, hresult, hstuck, hwork.within hleads⟩

/-- Work that waits for ever in its session keeps it. -/
theorem Hangs.within {sessions : Sessions} {line ticket : Nat} {next : β → Task σ α}
    {p : Task σ β × World σ κ} {w : World σ κ} (h : Hangs (sessions.enter line ticket) p w) :
    Hangs sessions (within sessions line ticket next p) w := by
  obtain ⟨t, hresult, hstuck, hleads⟩ := h
  refine .behind hleads ?_
  cases t with
  | done b => cases hresult
  | _ => exact .of_stuck rfl hstuck

theorem Stalls.hangs {sessions : Sessions} {t : Task σ α} {w w' : World σ κ}
    (h : Stalls sessions t w w') : Hangs sessions (settle sessions t w) w' := by
  induction h with
  | pending => exact .of_stuck rfl rfl
  | noting hnext ih => exact ih
  | marking hnext ih => exact ih
  | sending hnext ih => exact .turn rfl ih
  | inside hfree hwork ih =>
    rw [settle_holding hfree]
    exact ih.within
  | after hfree hwork hnext ih =>
    rw [settle_holding hfree]
    exact .behind hwork.finishes ih

/-- From some number of turns on, the task has the result that it comes to, or has none and can do
nothing any more. -/
theorem Comes.played {sessions : Sessions} {t : Task σ α} {o : Option α} {w w' : World σ κ}
    (h : Comes sessions t w o w') :
    ∃ t', t'.result? = o ∧ t'.canMove w' = false ∧ Leads sessions (settle sessions t w) (t', w') := by
  cases o with
  | none => exact h.hangs
  | some a => exact ⟨.done a, rfl, rfl, Ends.finishes h⟩

end Polystore.Transaction.Task
