import Polystore.Proofs.Transaction.Order
import Polystore.Transaction.Executor

/-!
Callers in order. Through an executor, commands reach a line only from within a session of that
line. As long as callers keep to that, whatever else they do and in whichever order they go on, the
line stays in order.
-/

namespace Polystore.Transaction

variable {σ κ α β γ : Type}

namespace Task

/-- The sessions of a line that a task has got and not left yet. -/
def holders (line : Nat) : {α : Type} → Task σ α → List Nat
  | _, .holding n stage work _ =>
    (if line = n then stage.granted?.toList else []) ++ holders line work
  | _, .both left right _ => holders line left ++ holders line right
  | _, .limited work _ => holders line work
  | _, _ => []

/-- A task sends commands to a line only from within a session of it; `inside` tells whether there
is one around the task. What is still to be started holds no session yet. -/
def Orderly (line : Nat) : {α : Type} → (inside : Bool) → Task σ α → Prop
  | _, _, .done _ => True
  | _, _, .pending => True
  | _, inside, .noting _ next =>
    ∀ notes, Orderly line inside (next notes) ∧ (next notes).holders line = []
  | _, inside, .marking _ _ next => Orderly line inside next ∧ next.holders line = []
  | _, inside, .sending n _ _ next =>
    (line = n → inside = true) ∧
      ∀ reply, Orderly line inside (next reply) ∧ (next reply).holders line = []
  | _, inside, .holding n _ work next =>
    Orderly line (inside || line == n) work ∧
      ∀ b, Orderly line inside (next b) ∧ (next b).holders line = []
  | _, inside, .both left right next =>
    Orderly line inside left ∧ Orderly line inside right ∧
      ∀ b c, Orderly line inside (next b c) ∧ (next b c).holders line = []
  | _, inside, .limited work next =>
    Orderly line inside work ∧ ∀ b, Orderly line inside (next b) ∧ (next b).holders line = []

/-- An orderly task that has not been started. -/
def Starts (line : Nat) (inside : Bool) (t : Task σ α) : Prop :=
  t.Orderly line inside ∧ t.holders line = []

section

variable {line : Nat} {inside : Bool}

theorem starts_pure (a : α) : (pure a : Task σ α).Starts line inside :=
  ⟨trivial, rfl⟩

theorem starts_pending : (.pending : Task σ α).Starts line inside :=
  ⟨trivial, rfl⟩

theorem Starts.bind {t : Task σ α} {f : α → Task σ β} (ht : t.Starts line inside)
    (hf : ∀ a, (f a).Starts line inside) : (t >>= f).Starts line inside := by
  change (t.bind f).Starts line inside
  induction t with
  | done a => exact hf a
  | pending => exact starts_pending
  | noting change next ih => exact ⟨fun notes => ih notes (ht.1 notes) hf, rfl⟩
  | marking n isOpen next ih => exact ⟨ih ht.1 hf, rfl⟩
  | sending n stage command next ih =>
    exact ⟨⟨ht.1.1, fun reply => ih reply (ht.1.2 reply) hf⟩, rfl⟩
  | holding n stage work next ihwork ihnext =>
    exact ⟨⟨ht.1.1, fun b => ihnext b (ht.1.2 b) hf⟩, ht.2⟩
  | both left right next ihleft ihright ihnext =>
    exact ⟨⟨ht.1.1, ht.1.2.1, fun b c => ihnext b c (ht.1.2.2 b c) hf⟩, ht.2⟩
  | limited work next ihwork ihnext =>
    exact ⟨⟨ht.1.1, fun b => ihnext b (ht.1.2 b) hf⟩, ht.2⟩

theorem starts_update (change : σ → σ) : (Task.update change).Starts line inside :=
  ⟨fun _ => ⟨trivial, rfl⟩, rfl⟩

theorem starts_mark (n : Nat) (isOpen : Bool) :
    (Task.mark n isOpen : Task σ Unit).Starts line inside :=
  ⟨⟨trivial, rfl⟩, rfl⟩

theorem starts_send {n : Nat} {command : Command} (h : line = n → inside = true) :
    (Task.send n command : Task σ Reply).Starts line inside :=
  ⟨⟨h, fun _ => ⟨trivial, rfl⟩⟩, rfl⟩

theorem Starts.hold {n : Nat} {work : Task σ α} (h : work.Starts line (inside || line == n)) :
    (Task.hold n work).Starts line inside := by
  refine ⟨⟨h.1, fun _ => ⟨trivial, rfl⟩⟩, ?_⟩
  change (if line = n then [] else []) ++ work.holders line = []
  rw [h.2, ite_self, List.append_nil]

theorem Starts.limit {work : Task σ α} (h : work.Starts line inside) :
    work.limit.Starts line inside :=
  ⟨⟨h.1, fun _ => ⟨trivial, rfl⟩⟩, h.2⟩

theorem Starts.both {left : Task σ β} {right : Task σ γ} {next : β → γ → Task σ α}
    (hleft : left.Starts line inside) (hright : right.Starts line inside)
    (hnext : ∀ b c, (next b c).Starts line inside) :
    (Task.both left right next).Starts line inside := by
  refine ⟨⟨hleft.1, hright.1, hnext⟩, ?_⟩
  rw [holders, hleft.2, hright.2, List.append_nil]

theorem starts_all {ts : List (Task σ α)} (h : ∀ t ∈ ts, t.Starts line inside) :
    (Task.all ts).Starts line inside := by
  induction ts with
  | nil => exact starts_pure []
  | cons t rest ih =>
    have hrest := ih fun u hu => h u (List.mem_cons_of_mem t hu)
    exact (h t List.mem_cons_self).both hrest fun a as => starts_pure (a :: as)

end

variable [Endpoint κ] {line : Nat} {inside : Bool} {start : κ} {rest : List Nat}

theorem quit_ordered {t : Task σ α} {l : Line κ} (h : l.Ordered start (t.holders line ++ rest)) :
    (t.quit line l).Ordered start rest := by
  induction t generalizing l rest with
  | done a => exact h
  | pending => exact h
  | noting change next ih => exact h
  | marking n isOpen next ih => exact h
  | sending n stage command next ih =>
    rw [quit]
    split
    · exact h.quitLane stage
    · exact h
  | holding n stage work next ihwork ihnext =>
    rw [holders, List.append_assoc] at h
    have hwork := ihwork (h.perm (List.perm_append_comm_assoc _ _ _))
    rw [quit]
    split
    · next hn =>
      rw [if_pos hn] at hwork
      exact hwork.quitSession
    · next hn =>
      rw [if_neg hn] at hwork
      exact hwork
  | both left right next ihleft ihright ihnext =>
    rw [holders, List.append_assoc] at h
    exact ihright (ihleft h)
  | limited work next ihwork ihnext => exact ihwork h

theorem Moves.ordered {sessions : Sessions} {t t' : Task σ α} {w w' : World σ κ}
    (h : t.Moves sessions w t' w') (ho : t.Orderly line inside)
    (hinside : inside = true → (w.lines line).session.owner = some (sessions line))
    (hl : (w.lines line).Ordered start (t.holders line ++ rest)) :
    t'.Orderly line inside ∧ (w'.lines line).Ordered start (t'.holders line ++ rest) := by
  induction h generalizing inside rest with
  | @note α sessions w change next =>
    obtain ⟨hnext, hnone⟩ := ho w.notes
    exact ⟨hnext, hnone ▸ hl⟩
  | @mark α sessions w n isOpen next =>
    obtain ⟨hnext, hnone⟩ := ho
    refine ⟨hnext, ?_⟩
    rw [hnone, World.onLine_lines]
    split
    · exact hl.mark isOpen
    · exact hl
  | @askLane α sessions w n command next =>
    refine ⟨ho, ?_⟩
    rw [World.onLine_lines]
    split
    · next hn =>
      subst hn
      exact hl.askLane (hinside (ho.1 rfl))
    · exact hl
  | @dispatch α sessions w n seat command next hnext =>
    refine ⟨ho, ?_⟩
    rw [World.onLine_lines]
    split
    · next hn =>
      subst hn
      exact hl.dispatch hnext
    · exact hl
  | @collect α sessions w n seat command next entry hentry hseat =>
    obtain ⟨hnext, hnone⟩ := ho.2 entry.reply
    exact ⟨hnext, hnone ▸ hl⟩
  | @askSession α β sessions w n work next =>
    refine ⟨ho, ?_⟩
    rw [holders] at hl ⊢
    rw [World.onLine_lines]
    by_cases hn : line = n
    · rw [if_pos hn] at hl ⊢
      rw [if_pos hn]
      exact hl.askSession
    · rw [if_neg hn] at hl ⊢
      rw [if_neg hn]
      exact hl
  | @grantSession α β sessions w n ticket work next hnext =>
    refine ⟨ho, ?_⟩
    rw [holders] at hl ⊢
    rw [World.onLine_lines]
    by_cases hn : line = n
    · subst hn
      rw [if_pos rfl] at hl ⊢
      rw [if_pos rfl]
      exact hl.grantSession hnext
    · rw [if_neg hn] at hl ⊢
      rw [if_neg hn]
      exact hl
  | @inside α β sessions w w' n ticket work work' next h ih =>
    rw [holders, List.append_assoc] at hl
    have hwork := ih ho.1 ?_ (hl.perm (List.perm_append_comm_assoc _ _ _))
    · rw [holders, List.append_assoc]
      exact ⟨⟨hwork.1, ho.2⟩, hwork.2.perm (List.perm_append_comm_assoc _ _ _)⟩
    · intro hin
      by_cases hn : line = n
      · subst hn
        rw [Sessions.enter, if_pos rfl]
        exact hl.owner_of_mem (by simp [Stage.granted?])
      · rw [Sessions.enter, if_neg hn]
        exact hinside (by simpa [hn] using hin)
  | @leaveSession α β sessions w n ticket b next =>
    obtain ⟨hnext, hnone⟩ := ho.2 b
    refine ⟨hnext, ?_⟩
    rw [holders] at hl
    rw [hnone, World.onLine_lines]
    by_cases hn : line = n
    · rw [if_pos hn] at hl ⊢
      exact hl.leaveSession
    · rw [if_neg hn] at hl ⊢
      exact hl
  | @left α β γ sessions w w' t t' right next h ih =>
    rw [holders, List.append_assoc] at hl
    have hleft := ih ho.1 hinside hl
    rw [holders, List.append_assoc]
    exact ⟨⟨hleft.1, ho.2⟩, hleft.2⟩
  | @right α β γ sessions w w' left t t' next h ih =>
    rw [holders, List.append_assoc] at hl
    have hright := ih ho.2.1 hinside (hl.perm (List.perm_append_comm_assoc _ _ _))
    rw [holders, List.append_assoc]
    exact ⟨⟨ho.1, hright.1, ho.2.2⟩, hright.2.perm (List.perm_append_comm_assoc _ _ _)⟩
  | @join α β γ sessions w b c next =>
    obtain ⟨hnext, hnone⟩ := ho.2.2 b c
    exact ⟨hnext, hnone ▸ hl⟩
  | @within α β sessions w w' work work' next h ih =>
    have hwork := ih ho.1 hinside hl
    exact ⟨⟨hwork.1, ho.2⟩, hwork.2⟩
  | @finish α β sessions w b next =>
    obtain ⟨hnext, hnone⟩ := ho.2 (some b)
    exact ⟨hnext, hnone ▸ hl⟩
  | @giveUp α β sessions w work next =>
    obtain ⟨hnext, hnone⟩ := ho.2 none
    refine ⟨hnext, ?_⟩
    rw [hnone]
    exact quit_ordered hl

end Task

section Calls

variable {τ : Type} {e : Executor} {f : Frame} {held : List Nat} {line : Nat} {inside : Bool}
  {sql : String} {params : List Value} {consume : τ → Row → Except Error τ} {first : τ}

namespace Executor

theorem hold_starts {work : Task σ (Except Error α)}
    (h : work.Starts line (inside || line == e.line)) : (e.hold held work).Starts line inside := by
  rw [hold]
  split
  · exact Task.starts_pure _
  · exact h.hold

theorem execute_starts : (e.execute held sql params : Task σ _).Starts line inside := by
  refine hold_starts (Task.Starts.bind (Task.starts_send ?_) fun _ => Task.starts_pure _)
  rintro rfl
  simp

theorem stream_starts : (e.stream held sql params consume first : Task σ _).Starts line inside := by
  refine Task.Starts.bind (hold_starts (Task.Starts.bind (Task.starts_send ?_) fun _ => Task.starts_pure _))
    fun _ => Task.starts_pure _
  rintro rfl
  simp

theorem commit_starts (hinside : line = e.line → inside = true) (result : Except Error α) :
    (e.commit result : Task σ _).Starts line inside := by
  cases result with
  | error failure => exact Task.starts_pure _
  | ok value => exact (Task.starts_send hinside).bind fun _ => Task.starts_pure _

theorem attempts_starts {options : Options} {body : Task σ (Except Error α)} {patience made : Nat}
    (hinside : line = e.line → inside = true) (hbody : body.Starts line inside) :
    (e.attempts options body patience made).Starts line inside := by
  induction patience generalizing made with
  | zero => exact Task.starts_pending
  | succ patience ih =>
    rw [attempts]
    refine (Task.starts_mark _ _).bind fun _ => (Task.starts_send hinside).bind fun reply => ?_
    cases reply.outcome with
    | error refused => exact (Task.starts_mark _ _).bind fun _ => Task.starts_pure _
    | ok _ =>
      refine hbody.bind fun result => (commit_starts hinside result).bind fun ended => ?_
      cases ended with
      | ok value => exact (Task.starts_mark _ _).bind fun _ => Task.starts_pure _
      | error failure =>
        refine (Task.starts_send hinside).bind fun undo => (Task.starts_mark _ _).bind fun _ => ?_
        split
        · exact ih
        · exact Task.starts_pure _

theorem transaction_starts {options : Options} {patience : Nat}
    {body : Frame → Task σ (Except Error α)}
    (hbody : (body ⟨e, 0, e.line :: held⟩).Starts line (inside || line == e.line)) :
    (e.transaction held patience options body).Starts line inside := by
  refine hold_starts (attempts_starts ?_ hbody)
  rintro rfl
  simp

end Executor

namespace Frame

theorem execute_starts (hinside : line = f.executor.line → inside = true) :
    (f.execute sql params : Task σ _).Starts line inside :=
  (Task.starts_send hinside).bind fun _ => Task.starts_pure _

theorem stream_starts (hinside : line = f.executor.line → inside = true) :
    (f.stream sql params consume first : Task σ _).Starts line inside :=
  (Task.starts_send hinside).bind fun _ => Task.starts_pure _

theorem nested_starts {body : Frame → Task σ (Except Error α)}
    (hinside : line = f.executor.line → inside = true)
    (hbody : (body { f with depth := f.depth + 1 }).Starts line inside) :
    (f.nested body).Starts line inside := by
  refine (Task.starts_send hinside).bind fun reply => ?_
  cases reply.outcome with
  | error refused => exact Task.starts_pure _
  | ok _ =>
    refine hbody.bind fun result => ?_
    cases result <;> exact (Task.starts_send hinside).bind fun _ => Task.starts_pure _

end Frame

end Calls

/-- What callers make of the calls of executors, one after the other, side by side, or given up;
`inside` tells whether there is a transaction of a line around it. Frames of a line are there only
inside, and whoever asks for the line again there has it among what it holds. -/
inductive Task.Calls (line : Nat) : (inside : Bool) → {α : Type} → Task σ α → Prop where
  | pure {inside : Bool} {α : Type} (a : α) : Calls line inside (pure a : Task σ α)
  | pending {inside : Bool} {α : Type} : Calls line inside (.pending : Task σ α)
  | update {inside : Bool} (change : σ → σ) : Calls line inside (Task.update change)
  | bind {inside : Bool} {α β : Type} {t : Task σ α} {f : α → Task σ β}
      (ht : Calls line inside t) (hf : ∀ a, Calls line inside (f a)) : Calls line inside (t >>= f)
  | both {inside : Bool} {α β γ : Type} {left : Task σ β} {right : Task σ γ}
      {next : β → γ → Task σ α} (hleft : Calls line inside left) (hright : Calls line inside right)
      (hnext : ∀ b c, Calls line inside (next b c)) : Calls line inside (.both left right next)
  | limit {inside : Bool} {α : Type} {work : Task σ α} (hwork : Calls line inside work) :
      Calls line inside work.limit
  | execute {inside : Bool} {e : Executor} {held : List Nat} {sql : String} {params : List Value}
      (hheld : e.line = line → inside = true → line ∈ held) :
      Calls line inside (e.execute held sql params)
  | stream {inside : Bool} {τ : Type} {e : Executor} {held : List Nat} {sql : String}
      {params : List Value} {consume : τ → Row → Except Error τ} {first : τ}
      (hheld : e.line = line → inside = true → line ∈ held) :
      Calls line inside (e.stream held sql params consume first)
  | transaction {inside : Bool} {α : Type} {e : Executor} {held : List Nat} {patience : Nat}
      {options : Options} {body : Frame → Task σ (Except Error α)}
      (hheld : e.line = line → inside = true → line ∈ held)
      (hbody : Calls line (inside || line == e.line) (body ⟨e, 0, e.line :: held⟩)) :
      Calls line inside (e.transaction held patience options body)
  | statement {inside : Bool} {f : Frame} {sql : String} {params : List Value}
      (hinside : line = f.executor.line → inside = true) : Calls line inside (f.execute sql params)
  | rows {inside : Bool} {τ : Type} {f : Frame} {sql : String} {params : List Value}
      {consume : τ → Row → Except Error τ} {first : τ}
      (hinside : line = f.executor.line → inside = true) :
      Calls line inside (f.stream sql params consume first)
  | nested {inside : Bool} {α : Type} {f : Frame} {body : Frame → Task σ (Except Error α)}
      (hinside : line = f.executor.line → inside = true)
      (hbody : Calls line inside (body { f with depth := f.depth + 1 })) :
      Calls line inside (f.nested body)

theorem Task.Calls.starts {line : Nat} {inside : Bool} {t : Task σ α} (h : t.Calls line inside) :
    t.Starts line inside := by
  induction h with
  | pure a => exact Task.starts_pure a
  | pending => exact Task.starts_pending
  | update change => exact Task.starts_update change
  | bind ht hf iht ihf => exact iht.bind ihf
  | both hleft hright hnext ihleft ihright ihnext => exact ihleft.both ihright ihnext
  | limit hwork ih => exact ih.limit
  | execute hheld => exact Executor.execute_starts
  | stream hheld => exact Executor.stream_starts
  | transaction hheld hbody ih => exact Executor.transaction_starts ih
  | statement hinside => exact Frame.execute_starts hinside
  | rows hinside => exact Frame.stream_starts hinside
  | nested hinside hbody ih => exact Frame.nested_starts hinside ih

/-- Whatever is reached from a line in order, by any interleaving, has the line in order. -/
theorem Reaches.ordered [Endpoint κ] {start : κ} {line : Nat} {sessions : Sessions}
    {t t' : Task σ α} {w w' : World σ κ} (h : Reaches sessions (t, w) (t', w'))
    (ho : t.Orderly line false) (hl : (w.lines line).Ordered start (t.holders line)) :
    t'.Orderly line false ∧ (w'.lines line).Ordered start (t'.holders line) := by
  suffices hinv : ∀ state, Reaches sessions (t, w) state →
      state.1.Orderly line false ∧ (state.2.lines line).Ordered start (state.1.holders line) from
    hinv (t', w') h
  intro state hreach
  induction hreach with
  | refl => exact ⟨ho, hl⟩
  | tail _ hstep ih =>
    cases hstep with
    | task h =>
      have hall := ih.2
      rw [← List.append_nil (Task.holders line _)] at hall
      have hmoved := h.ordered ih.1 (absurd · Bool.false_ne_true) hall
      rw [List.append_nil] at hmoved
      exact hmoved
    | @job u v n l hworks =>
      refine ⟨ih.1, ?_⟩
      rw [World.onLine_lines]
      split
      · next hn =>
        subst hn
        exact ih.2.works hworks
      · exact ih.2

end Polystore.Transaction
