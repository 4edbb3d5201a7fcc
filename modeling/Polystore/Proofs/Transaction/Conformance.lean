import Polystore.Proofs.Transaction.Protocol

/-!
The calls of an executor keep to the protocol: a statement is one command, a transaction is attempts
one after the other, and what its body does through its frame neither begins nor ends a transaction.
So does everything that is made of such calls.
-/

namespace Polystore.Transaction

variable {σ α β τ : Type}

namespace Task

/-- A task that keeps to the protocol on a line and has not been started. -/
def Conforms (κ : Type) [Endpoint κ] (line : Nat) (t : Task σ α) : Prop :=
  (∀ l : Line κ, t.Lawful line l) ∧ t.holders line = []

section Inner

variable {line session : Nat}

theorem inner_pure (a : α) : (pure a : Task σ α).Inner line session :=
  trivial

theorem Inner.bind {t : Task σ α} {f : α → Task σ β} (ht : t.Inner line session)
    (hf : ∀ a, (f a).Inner line session) : (t >>= f).Inner line session := by
  change (t.bind f).Inner line session
  induction t with
  | done a => exact hf a
  | pending => trivial
  | noting change next ih => exact fun notes => ih notes (ht notes) hf
  | marking n isOpen next ih => exact ⟨ht.1, ih ht.2 hf⟩
  | sending n stage command next ih => exact ⟨ht.1, fun reply => ih reply (ht.2 reply) hf⟩
  | holding n stage work next ihwork ihnext =>
    exact ⟨ht.1, ht.2.1, fun b => ihnext b (ht.2.2 b) hf⟩
  | both left right next ihleft ihright ihnext =>
    exact ⟨ht.1, ht.2.1, fun b c => ihnext b c (ht.2.2 b c) hf⟩
  | limited work next ihwork ihnext => exact ⟨ht.1, fun b => ihnext b (ht.2 b) hf⟩

theorem inner_send {n : Nat} {command : Command} (h : line = n → command.isInner = true) :
    (Task.send n command : Task σ Reply).Inner line session :=
  ⟨fun hn => ⟨h hn, nofun⟩, fun _ => trivial⟩

theorem inner_mark {n : Nat} (h : line ≠ n) (isOpen : Bool) :
    (Task.mark n isOpen : Task σ Unit).Inner line session :=
  ⟨h, trivial⟩

theorem Inner.hold {n : Nat} {work : Task σ α} (hn : line ≠ n) (h : work.Inner line session) :
    (Task.hold n work).Inner line session :=
  ⟨hn, h, fun _ => trivial⟩

theorem Inner.limit {work : Task σ α} (h : work.Inner line session) :
    work.limit.Inner line session :=
  ⟨h, fun _ => trivial⟩

/-- A session that is inside a transaction goes on with what follows on the body. -/
theorem Inner.follows_bind {t : Task σ α} {f : α → Task σ β} (ht : t.Inner line session)
    (hf : ∀ a, (f a).Follows line session .begun true) :
    (t >>= f).Follows line session .begun true := by
  change (t.bind f).Follows line session .begun true
  induction t with
  | done a => exact hf a
  | pending => trivial
  | noting change next ih => exact fun notes => ih notes (ht notes) hf
  | marking n isOpen next ih =>
    rw [Task.bind, Follows, if_neg ht.1]
    exact ih ht.2 hf
  | sending n stage command next ih =>
    rw [Task.bind, Follows]
    split
    · next hn =>
      obtain ⟨hinner, hseat⟩ := ht.1 hn
      refine ⟨fun _ _ => ⟨rfl, hinner⟩, hseat, fun reply => ?_, fun reply => ?_⟩
      · rw [Phase.next_inner hinner]
        decide
      · rw [Phase.next_inner hinner]
        exact ih reply (ht.2 reply) hf
    · exact fun reply => ih reply (ht.2 reply) hf
  | holding n stage work next ihwork ihnext =>
    exact ⟨ht.1, rfl, rfl, ht.2.1, fun b => ihnext b (ht.2.2 b) hf⟩
  | both left right next ihleft ihright ihnext =>
    exact ⟨rfl, rfl, ht.1, ht.2.1, fun b c => ihnext b c (ht.2.2 b c) hf⟩
  | limited work next ihwork ihnext =>
    exact ⟨rfl, rfl, ht.1, fun b => ihnext b (ht.2 b) hf⟩

end Inner

section Follows

variable {line session : Nat} {p : Phase} {isOpen : Bool}

theorem follows_mark {f : Unit → Task σ α} {noted : Bool} (hfits : p.Fits noted)
    (h : (f ()).Follows line session p noted) :
    (Task.mark line noted >>= f).Follows line session p isOpen := by
  change (Task.marking line noted (f ())).Follows line session p isOpen
  rw [Follows, if_pos rfl]
  exact ⟨hfits, h⟩

theorem follows_send {f : Reply → Task σ α} {command : Command} (hallows : p.Allows isOpen command)
    (h : ∀ reply, (f reply).Follows line session (p.next command reply) isOpen) :
    (Task.send line command >>= f).Follows line session p isOpen := by
  change (Task.sending line .fresh command f).Follows line session p isOpen
  rw [Follows, if_pos rfl]
  refine ⟨fun seat hseat => ?_, fun seat hseat => ?_, hallows, h⟩ <;> cases hseat

end Follows

end Task

namespace Executor

variable {e : Executor} {session : Nat} {options : Options} {body : Task σ (Except Error α)}

theorem commit_follows {result : Except Error α} {f : Except Error α → Task σ β}
    (hok : ∀ value, (f (.ok value)).Follows e.line session .committed true)
    (herror : ∀ failure, (f (.error failure)).Follows e.line session .begun true) :
    (e.commit result >>= f).Follows e.line session .begun true := by
  cases result with
  | error failure => exact herror failure
  | ok value =>
    change (Task.send e.line .commit >>= fun reply =>
      f (reply.outcome.map fun _ => value)).Follows e.line session .begun true
    have hcommit (reply : Reply) : Phase.begun.next .commit reply =
        if reply.outcome.isOk then .committed else .begun := rfl
    refine Task.follows_send (fun reply => ?_) fun reply => ?_
    · rw [hcommit]
      split <;> decide
    · rw [hcommit]
      cases reply.outcome with
      | error failure => exact herror failure
      | ok count => exact hok value

/-- One attempt after the other, from a session that has no transaction open. -/
theorem attempts_follows {p : Phase} {isOpen : Bool} {patience made : Nat}
    (hp : p = .fresh ∨ p = .idle) (hbody : body.Inner e.line session) :
    (e.attempts options body patience made).Follows e.line session p isOpen := by
  induction patience generalizing p isOpen made with
  | zero => trivial
  | succ patience ih =>
    rw [attempts]
    have hmark : p.Fits true := by rcases hp with rfl | rfl <;> decide
    have hbegin (reply : Reply) : p.next (.begin options.isolation) reply =
        if reply.outcome.isOk then .begun else .idle := by
      rcases hp with rfl | rfl <;> rfl
    refine Task.follows_mark hmark (Task.follows_send (fun reply => ?_) fun reply => ?_)
    · rw [hbegin]
      split <;> decide
    · rw [hbegin]
      cases reply.outcome with
      | error refused => exact Task.follows_mark (Phase.idle_fits false) trivial
      | ok _ =>
        refine hbody.follows_bind fun result => commit_follows (fun value => ?_) fun failure => ?_
        · exact Task.follows_mark (Phase.committed_fits false) trivial
        · refine Task.follows_send (fun reply => Phase.idle_fits true) fun reply => ?_
          refine Task.follows_mark (Phase.idle_fits false) ?_
          split
          · exact ih (.inr rfl)
          · trivial

/-- A call that is refused, or that goes to another line, does not end a transaction. -/
theorem hold_inner {line : Nat} {held : List Nat} {work : Task σ (Except Error α)}
    (hheld : e.line = line → line ∈ held) (hwork : line ≠ e.line → work.Inner line session) :
    (e.hold held work).Inner line session := by
  rw [hold]
  split
  · trivial
  · next hnot =>
    have hn : line ≠ e.line := by
      rintro rfl
      exact hnot (List.contains_iff_mem.mpr (hheld rfl))
    exact (hwork hn).hold hn

theorem commit_inner {line : Nat} (hn : line ≠ e.line) (result : Except Error α) :
    (e.commit result : Task σ _).Inner line session := by
  cases result with
  | error failure => trivial
  | ok value => exact (Task.inner_send (absurd · hn)).bind fun _ => trivial

theorem attempts_inner {line patience made : Nat} (hn : line ≠ e.line)
    (hbody : body.Inner line session) :
    (e.attempts options body patience made).Inner line session := by
  induction patience generalizing made with
  | zero => trivial
  | succ patience ih =>
    rw [attempts]
    refine (Task.inner_mark hn _).bind fun _ => (Task.inner_send (absurd · hn)).bind fun reply => ?_
    cases reply.outcome with
    | error refused => exact (Task.inner_mark hn _).bind fun _ => trivial
    | ok _ =>
      refine hbody.bind fun result => (commit_inner hn result).bind fun ended => ?_
      cases ended with
      | ok value => exact (Task.inner_mark hn _).bind fun _ => trivial
      | error failure =>
        refine (Task.inner_send (absurd · hn)).bind fun undo => (Task.inner_mark hn _).bind fun _ => ?_
        split
        · exact ih
        · trivial

end Executor

namespace Frame

variable {f : Frame} {line session : Nat} {sql : String} {params : List Value}
  {consume : τ → Row → Except Error τ} {first : τ}

theorem execute_inner : (f.execute sql params : Task σ _).Inner line session :=
  (Task.inner_send fun _ => rfl).bind fun _ => trivial

theorem stream_inner : (f.stream sql params consume first : Task σ _).Inner line session :=
  (Task.inner_send fun _ => rfl).bind fun _ => trivial

theorem nested_inner {body : Frame → Task σ (Except Error α)}
    (hbody : (body { f with depth := f.depth + 1 }).Inner line session) :
    (f.nested body).Inner line session := by
  refine (Task.inner_send fun _ => rfl).bind fun reply => ?_
  cases reply.outcome with
  | error refused => trivial
  | ok _ =>
    refine hbody.bind fun result => ?_
    cases result <;> exact (Task.inner_send fun _ => rfl).bind fun _ => trivial

end Frame

/-- What is done inside a transaction neither begins nor ends it. -/
theorem Task.Calls.inner {line : Nat} {inside : Bool} {t : Task σ α} (h : t.Calls line inside)
    (hinside : inside = true) (session : Nat) : t.Inner line session := by
  induction h with
  | pure a => exact Task.inner_pure a
  | pending => trivial
  | update change => exact fun _ => trivial
  | bind ht hf iht ihf => exact (iht hinside).bind fun a => ihf a hinside
  | both hleft hright hnext ihleft ihright ihnext =>
    exact ⟨ihleft hinside, ihright hinside, fun b c => ihnext b c hinside⟩
  | limit hwork ih => exact (ih hinside).limit
  | execute hheld =>
    refine Executor.hold_inner (fun heq => hheld heq hinside) fun hn => ?_
    exact (Task.inner_send (absurd · hn)).bind fun _ => trivial
  | stream hheld =>
    refine Task.Inner.bind (Executor.hold_inner (fun heq => hheld heq hinside) fun hn => ?_)
      fun _ => trivial
    exact (Task.inner_send (absurd · hn)).bind fun _ => trivial
  | transaction hheld hbody ih =>
    refine Executor.hold_inner (fun heq => hheld heq hinside) fun hn => ?_
    exact Executor.attempts_inner hn (ih (by rw [hinside, Bool.true_or]))
  | statement hframe => exact Frame.execute_inner
  | rows hframe => exact Frame.stream_inner
  | nested hframe hbody ih => exact Frame.nested_inner (ih hinside)

namespace Task

variable {κ : Type} [Endpoint κ] {line : Nat}

theorem conforms_pure (a : α) : (pure a : Task σ α).Conforms κ line :=
  ⟨fun _ => trivial, rfl⟩

theorem conforms_pending : (.pending : Task σ α).Conforms κ line :=
  ⟨fun _ => trivial, rfl⟩

theorem conforms_update (change : σ → σ) : (Task.update change).Conforms κ line :=
  ⟨fun _ _ => ⟨trivial, rfl⟩, rfl⟩

theorem conforms_mark {n : Nat} (hn : line ≠ n) (isOpen : Bool) :
    (Task.mark n isOpen : Task σ Unit).Conforms κ line :=
  ⟨fun _ => ⟨hn, trivial, rfl⟩, rfl⟩

theorem conforms_send {n : Nat} (hn : line ≠ n) (command : Command) :
    (Task.send n command : Task σ Reply).Conforms κ line :=
  ⟨fun _ => ⟨hn, fun _ => ⟨trivial, rfl⟩⟩, rfl⟩

theorem bind_holders {t : Task σ α} {f : α → Task σ β} (ht : t.holders line = [])
    (hf : ∀ a, (f a).holders line = []) : (t.bind f).holders line = [] := by
  cases t with
  | done a => exact hf a
  | holding n stage work next => exact ht
  | both left right next => exact ht
  | limited work next => exact ht
  | _ => rfl

theorem Conforms.bind {t : Task σ α} {f : α → Task σ β} (ht : t.Conforms κ line)
    (hf : ∀ a, (f a).Conforms κ line) : (t >>= f).Conforms κ line := by
  change (t.bind f).Conforms κ line
  have hnone := fun a => (hf a).2
  refine ⟨fun l => ?_, bind_holders ht.2 hnone⟩
  replace ht := ht.1 l
  induction t with
  | done a => exact (hf a).1 l
  | pending => trivial
  | noting change next ih =>
    exact fun notes => ⟨ih notes hf hnone (ht notes).1, bind_holders (ht notes).2 hnone⟩
  | marking n isOpen next ih =>
    exact ⟨ht.1, ih hf hnone ht.2.1, bind_holders ht.2.2 hnone⟩
  | sending n stage command next ih =>
    obtain ⟨hn, hnext⟩ := ht
    exact ⟨hn, fun reply => ⟨ih reply hf hnone (hnext reply).1, bind_holders (hnext reply).2 hnone⟩⟩
  | holding n stage work next ihwork ihnext =>
    obtain ⟨hwork, hnext⟩ := ht
    exact ⟨hwork, fun b => ⟨ihnext b hf hnone (hnext b).1, bind_holders (hnext b).2 hnone⟩⟩
  | both left right next ihleft ihright ihnext =>
    obtain ⟨hleft, hright, hnext⟩ := ht
    exact ⟨hleft, hright,
      fun b c => ⟨ihnext b c hf hnone (hnext b c).1, bind_holders (hnext b c).2 hnone⟩⟩
  | limited work next ihwork ihnext =>
    obtain ⟨hwork, hnext⟩ := ht
    exact ⟨hwork, fun b => ⟨ihnext b hf hnone (hnext b).1, bind_holders (hnext b).2 hnone⟩⟩

theorem Conforms.limit {work : Task σ α} (h : work.Conforms κ line) : work.limit.Conforms κ line :=
  ⟨fun l => ⟨h.1 l, fun _ => ⟨trivial, rfl⟩⟩, h.2⟩

theorem Conforms.both {γ : Type} {left : Task σ β} {right : Task σ γ} {next : β → γ → Task σ α}
    (hleft : left.Conforms κ line) (hright : right.Conforms κ line)
    (hnext : ∀ b c, (next b c).Conforms κ line) : (Task.both left right next).Conforms κ line := by
  refine ⟨fun l => ⟨hleft.1 l, hright.1 l, fun b c => ⟨(hnext b c).1 l, (hnext b c).2⟩⟩, ?_⟩
  rw [holders, hleft.2, hright.2, List.append_nil]

theorem conforms_all {ts : List (Task σ α)} (h : ∀ t ∈ ts, t.Conforms κ line) :
    (Task.all ts).Conforms κ line := by
  induction ts with
  | nil => exact conforms_pure []
  | cons t rest ih =>
    have hrest := ih fun u hu => h u (List.mem_cons_of_mem t hu)
    exact (h t List.mem_cons_self).both hrest fun a as => conforms_pure (a :: as)

theorem conforms_hold {work : Task σ α}
    (h : ∀ session, work.Follows line session .fresh false) : (Task.hold line work).Conforms κ line := by
  refine ⟨fun l => ⟨?_, fun _ => ⟨trivial, rfl⟩⟩, ?_⟩
  · rw [if_pos rfl]
    exact h
  · change (if line = line then [] else []) ++ work.holders line = []
    rw [ite_self, (h 0).holders, List.append_nil]

theorem Conforms.hold {n : Nat} {work : Task σ α} (hn : line ≠ n) (h : work.Conforms κ line) :
    (Task.hold n work).Conforms κ line := by
  refine ⟨fun l => ⟨?_, fun _ => ⟨trivial, rfl⟩⟩, ?_⟩
  · rw [if_neg hn]
    exact h.1 l
  · change (if line = n then [] else []) ++ work.holders line = []
    rw [ite_self, h.2, List.append_nil]

end Task

section Calls

variable {κ : Type} [Endpoint κ] {e : Executor} {line : Nat} {held : List Nat} {options : Options}

namespace Executor

theorem hold_conforms {work : Task σ (Except Error α)}
    (hhere : line = e.line → ∀ session, work.Follows line session .fresh false)
    (hthere : line ≠ e.line → work.Conforms κ line) : (e.hold held work).Conforms κ line := by
  rw [hold]
  split
  · exact Task.conforms_pure _
  · by_cases hn : line = e.line
    · subst hn
      exact Task.conforms_hold (hhere rfl)
    · exact (hthere hn).hold hn

/-- A statement is the one command of its session. -/
theorem send_conforms {f : Reply → Except Error α} {sql : String} {params : List Value} :
    (e.hold held (e.send sql params >>= fun reply => pure (f reply)) : Task σ _).Conforms κ line := by
  refine hold_conforms ?_ fun hn => (Task.conforms_send hn _).bind fun _ => Task.conforms_pure _
  rintro rfl session
  exact Task.follows_send (fun _ => Phase.stated_fits) fun _ => trivial

theorem commit_conforms (hn : line ≠ e.line) (result : Except Error α) :
    (e.commit result : Task σ _).Conforms κ line := by
  cases result with
  | error failure => exact Task.conforms_pure _
  | ok value => exact (Task.conforms_send hn _).bind fun _ => Task.conforms_pure _

theorem attempts_conforms {body : Task σ (Except Error α)} {patience made : Nat}
    (hn : line ≠ e.line) (hbody : body.Conforms κ line) :
    (e.attempts options body patience made).Conforms κ line := by
  induction patience generalizing made with
  | zero => exact Task.conforms_pending
  | succ patience ih =>
    rw [attempts]
    refine (Task.conforms_mark hn _).bind fun _ => (Task.conforms_send hn _).bind fun reply => ?_
    cases reply.outcome with
    | error refused => exact (Task.conforms_mark hn _).bind fun _ => Task.conforms_pure _
    | ok _ =>
      refine hbody.bind fun result => (commit_conforms hn result).bind fun ended => ?_
      cases ended with
      | ok value => exact (Task.conforms_mark hn _).bind fun _ => Task.conforms_pure _
      | error failure =>
        refine (Task.conforms_send hn _).bind fun undo => (Task.conforms_mark hn _).bind fun _ => ?_
        split
        · exact ih
        · exact Task.conforms_pure _

theorem transaction_conforms {patience : Nat} {body : Frame → Task σ (Except Error α)}
    (hhere : line = e.line → ∀ session, (body ⟨e, 0, e.line :: held⟩).Inner line session)
    (hthere : line ≠ e.line → (body ⟨e, 0, e.line :: held⟩).Conforms κ line) :
    (e.transaction held patience options body).Conforms κ line := by
  refine hold_conforms ?_ fun hn => attempts_conforms hn (hthere hn)
  rintro rfl session
  exact attempts_follows (.inl rfl) (hhere rfl session)

end Executor

theorem Frame.nested_conforms {f : Frame} {body : Frame → Task σ (Except Error α)}
    (hn : line ≠ f.executor.line)
    (hbody : (body { f with depth := f.depth + 1 }).Conforms κ line) :
    (f.nested body).Conforms κ line := by
  refine (Task.conforms_send hn _).bind fun reply => ?_
  cases reply.outcome with
  | error refused => exact Task.conforms_pure _
  | ok _ =>
    refine hbody.bind fun result => ?_
    cases result <;> exact (Task.conforms_send hn _).bind fun _ => Task.conforms_pure _

/-- Whatever callers make of the calls of executors keeps to the protocol. -/
theorem Task.Calls.conforms {inside : Bool} {t : Task σ α} (h : t.Calls line inside)
    (houtside : inside = false) : t.Conforms κ line := by
  induction h with
  | pure a => exact Task.conforms_pure a
  | pending => exact Task.conforms_pending
  | update change => exact Task.conforms_update change
  | bind ht hf iht ihf => exact (iht houtside).bind fun a => ihf a houtside
  | both hleft hright hnext ihleft ihright ihnext =>
    exact (ihleft houtside).both (ihright houtside) fun b c => ihnext b c houtside
  | limit hwork ih => exact (ih houtside).limit
  | execute hheld => exact Executor.send_conforms
  | stream hheld => exact Executor.send_conforms.bind fun _ => Task.conforms_pure _
  | transaction hheld hbody ih =>
    refine Executor.transaction_conforms ?_ fun hn => ih ?_
    · rintro rfl session
      exact hbody.inner (by simp) session
    · simp [houtside, hn]
  | statement hframe =>
    have hn := fun heq => Bool.false_ne_true (houtside.symm.trans (hframe heq))
    exact (Task.conforms_send hn _).bind fun _ => Task.conforms_pure _
  | rows hframe =>
    have hn := fun heq => Bool.false_ne_true (houtside.symm.trans (hframe heq))
    exact (Task.conforms_send hn _).bind fun _ => Task.conforms_pure _
  | nested hframe hbody ih =>
    have hn := fun heq => Bool.false_ne_true (houtside.symm.trans (hframe heq))
    exact Frame.nested_conforms hn (ih houtside)

end Calls

end Polystore.Transaction
