import Mathlib.Data.List.Nodup
import Polystore.Proofs.Transaction.Runs

/-!
The commands that a task issues to a line, one task taken for itself: what is done beside it only
tells which replies it gets. Main statement: whatever is added to the trace of a line by a run inside
a transaction, in any interleaving, is issued by the task that runs.
-/

namespace Polystore.Transaction

/-- A list put together from two lists, each in its own order. -/
inductive Interleaves {τ : Type} : List τ → List τ → List τ → Prop where
  | nil : Interleaves [] [] []
  | left {a b c : List τ} (x : τ) (h : Interleaves a b c) : Interleaves (x :: a) b (x :: c)
  | right {a b c : List τ} (x : τ) (h : Interleaves a b c) : Interleaves a (x :: b) (x :: c)

namespace Interleaves

variable {τ υ : Type} {a b c : List τ}

theorem append_left (first : List τ) (h : Interleaves a b c) :
    Interleaves (first ++ a) b (first ++ c) := by
  induction first with
  | nil => exact h
  | cons x rest ih => exact .left x ih

theorem append_right (first : List τ) (h : Interleaves a b c) :
    Interleaves a (first ++ b) (first ++ c) := by
  induction first with
  | nil => exact h
  | cons x rest ih => exact .right x ih

theorem symm (h : Interleaves a b c) : Interleaves b a c := by
  induction h with
  | nil => exact .nil
  | left x _ ih => exact .right x ih
  | right x _ ih => exact .left x ih

theorem forall_mem {P : τ → Prop} (h : Interleaves a b c) (ha : ∀ x ∈ a, P x) (hb : ∀ x ∈ b, P x) :
    ∀ x ∈ c, P x := by
  induction h with
  | nil => exact ha
  | left x _ ih =>
    obtain ⟨hx, ha⟩ := List.forall_mem_cons.mp ha
    exact List.forall_mem_cons.mpr ⟨hx, ih ha hb⟩
  | right x _ ih =>
    obtain ⟨hx, hb⟩ := List.forall_mem_cons.mp hb
    exact List.forall_mem_cons.mpr ⟨hx, ih ha hb⟩

/-- What is told of the items can be told of them before they are put together. -/
theorem of_map {f : υ → τ} (h : Interleaves a b c) {a' b' : List υ} (ha : a'.map f = a)
    (hb : b'.map f = b) : ∃ c', c'.map f = c ∧ Interleaves a' b' c' := by
  induction h generalizing a' b' with
  | nil =>
    obtain rfl := List.map_eq_nil_iff.mp ha
    obtain rfl := List.map_eq_nil_iff.mp hb
    exact ⟨[], rfl, .nil⟩
  | left x _ ih =>
    obtain ⟨x', rest, rfl, rfl, hrest⟩ := List.map_eq_cons_iff.mp ha
    obtain ⟨c', rfl, hc⟩ := ih hrest hb
    exact ⟨x' :: c', rfl, .left x' hc⟩
  | right x _ ih =>
    obtain ⟨x', rest, rfl, rfl, hrest⟩ := List.map_eq_cons_iff.mp hb
    obtain ⟨c', rfl, hc⟩ := ih ha hrest
    exact ⟨x' :: c', rfl, .right x' hc⟩

end Interleaves

variable {σ κ α β γ : Type}

/-- A task issues commands to a line, in this order, and comes to a result, or to none if it is given
up or has not ended. The replies are those that stand in the trace of the line. -/
inductive Task.Issues (line : Nat) (trace : List Entry) :
    {α : Type} → Task σ α → List Entry → Option α → Prop where
  | stop {α : Type} {t : Task σ α} : Issues line trace t [] none
  | done {α : Type} (a : α) : Issues line trace (.done a) [] (some a)
  | note {α : Type} {change : σ → σ} {next : σ → Task σ α} {log : List Entry} {result : Option α}
      (notes : σ) (h : Issues line trace (next notes) log result) :
      Issues line trace (.noting change next) log result
  | mark {α : Type} {n : Nat} {isOpen : Bool} {next : Task σ α} {log : List Entry}
      {result : Option α} (h : Issues line trace next log result) :
      Issues line trace (.marking n isOpen next) log result
  | send {α : Type} {stage : Stage Seat} {next : Reply → Task σ α} {log : List Entry}
      {result : Option α} {entry : Entry} (hstage : ∀ seat, stage ≠ .granted seat)
      (hentry : entry ∈ trace) (h : Issues line trace (next entry.reply) log result) :
      Issues line trace (.sending line stage entry.command next) (entry :: log) result
  /-- A command that is in the trace already. -/
  | answer {α : Type} {command : Command} {next : Reply → Task σ α} {log : List Entry}
      {result : Option α} {entry : Entry} (hentry : entry ∈ trace)
      (h : Issues line trace (next entry.reply) log result) :
      Issues line trace (.sending line (.granted entry.seat) command next) log result
  | elsewhere {α : Type} {n : Nat} {stage : Stage Seat} {command : Command}
      {next : Reply → Task σ α} {log : List Entry} {result : Option α} (hn : line ≠ n)
      (reply : Reply) (h : Issues line trace (next reply) log result) :
      Issues line trace (.sending n stage command next) log result
  | hold {α β : Type} {n : Nat} {stage : Stage Nat} {work : Task σ β} {next : β → Task σ α}
      {log rest : List Entry} {b : β} {result : Option α} (hwork : Issues line trace work log (some b))
      (h : Issues line trace (next b) rest result) :
      Issues line trace (.holding n stage work next) (log ++ rest) result
  | holding {α β : Type} {n : Nat} {stage : Stage Nat} {work : Task σ β} {next : β → Task σ α}
      {log : List Entry} {b : Option β} (hwork : Issues line trace work log b) :
      Issues line trace (.holding n stage work next) log none
  | both {α β γ : Type} {left : Task σ β} {right : Task σ γ} {next : β → γ → Task σ α}
      {first second log rest : List Entry} {b : β} {c : γ} {result : Option α}
      (hleft : Issues line trace left first (some b)) (hright : Issues line trace right second (some c))
      (hlog : Interleaves first second log) (h : Issues line trace (next b c) rest result) :
      Issues line trace (.both left right next) (log ++ rest) result
  | beside {α β γ : Type} {left : Task σ β} {right : Task σ γ} {next : β → γ → Task σ α}
      {first second log : List Entry} {b : Option β} {c : Option γ}
      (hleft : Issues line trace left first b) (hright : Issues line trace right second c)
      (hlog : Interleaves first second log) : Issues line trace (.both left right next) log none
  | limit {α β : Type} {work : Task σ β} {next : Option β → Task σ α} {log rest : List Entry}
      {b : Option β} {result : Option α} (hwork : Issues line trace work log b)
      (h : Issues line trace (next b) rest result) :
      Issues line trace (.limited work next) (log ++ rest) result

namespace Task.Issues

variable {line : Nat} {trace log : List Entry}

/-- What is issued by one thing after the other. -/
theorem of_bind {t : Task σ α} {f : α → Task σ β} {result : Option β}
    (h : (t >>= f).Issues line trace log result) :
    (result = none ∧ t.Issues line trace log none) ∨
      ∃ a first rest, log = first ++ rest ∧ t.Issues line trace first (some a) ∧
        (f a).Issues line trace rest result := by
  change (t.bind f).Issues line trace log result at h
  induction t generalizing log with
  | done a => exact .inr ⟨a, [], log, rfl, .done a, h⟩
  | pending =>
    cases h with
    | stop => exact .inl ⟨rfl, .stop⟩
  | noting change next ih =>
    cases h with
    | stop => exact .inl ⟨rfl, .stop⟩
    | note notes h =>
      obtain ⟨rfl, hnext⟩ | ⟨a, first, rest, rfl, hnext, hrest⟩ := ih notes h
      · exact .inl ⟨rfl, .note notes hnext⟩
      · exact .inr ⟨a, first, rest, rfl, .note notes hnext, hrest⟩
  | marking n isOpen next ih =>
    cases h with
    | stop => exact .inl ⟨rfl, .stop⟩
    | mark h =>
      obtain ⟨rfl, hnext⟩ | ⟨a, first, rest, rfl, hnext, hrest⟩ := ih h
      · exact .inl ⟨rfl, .mark hnext⟩
      · exact .inr ⟨a, first, rest, rfl, .mark hnext, hrest⟩
  | sending n stage command next ih =>
    cases h with
    | stop => exact .inl ⟨rfl, .stop⟩
    | @send _ _ _ _ _ entry hstage hentry h =>
      obtain ⟨rfl, hnext⟩ | ⟨a, first, rest, rfl, hnext, hrest⟩ := ih entry.reply h
      · exact .inl ⟨rfl, .send hstage hentry hnext⟩
      · exact .inr ⟨a, entry :: first, rest, rfl, .send hstage hentry hnext, hrest⟩
    | @answer _ _ _ _ _ entry hentry h =>
      obtain ⟨rfl, hnext⟩ | ⟨a, first, rest, rfl, hnext, hrest⟩ := ih entry.reply h
      · exact .inl ⟨rfl, .answer hentry hnext⟩
      · exact .inr ⟨a, first, rest, rfl, .answer hentry hnext, hrest⟩
    | elsewhere hn reply h =>
      obtain ⟨rfl, hnext⟩ | ⟨a, first, rest, rfl, hnext, hrest⟩ := ih reply h
      · exact .inl ⟨rfl, .elsewhere hn reply hnext⟩
      · exact .inr ⟨a, first, rest, rfl, .elsewhere hn reply hnext, hrest⟩
  | holding n stage work next ihwork ihnext =>
    cases h with
    | stop => exact .inl ⟨rfl, .stop⟩
    | @hold _ _ _ _ _ _ log _ b _ hwork h =>
      obtain ⟨rfl, hnext⟩ | ⟨a, first, rest, rfl, hnext, hrest⟩ := ihnext b h
      · exact .inl ⟨rfl, .hold hwork hnext⟩
      · exact .inr ⟨a, log ++ first, rest, (List.append_assoc ..).symm, .hold hwork hnext, hrest⟩
    | holding hwork => exact .inl ⟨rfl, .holding hwork⟩
  | both left right next ihleft ihright ihnext =>
    cases h with
    | stop => exact .inl ⟨rfl, .stop⟩
    | @both _ _ _ _ _ _ _ _ log _ b c _ hleft hright hlog h =>
      obtain ⟨rfl, hnext⟩ | ⟨a, first, rest, rfl, hnext, hrest⟩ := ihnext b c h
      · exact .inl ⟨rfl, .both hleft hright hlog hnext⟩
      · exact .inr ⟨a, log ++ first, rest, (List.append_assoc ..).symm,
          .both hleft hright hlog hnext, hrest⟩
    | beside hleft hright hlog => exact .inl ⟨rfl, .beside hleft hright hlog⟩
  | limited work next ihwork ihnext =>
    cases h with
    | stop => exact .inl ⟨rfl, .stop⟩
    | @limit _ _ _ _ log _ b _ hwork h =>
      obtain ⟨rfl, hnext⟩ | ⟨a, first, rest, rfl, hnext, hrest⟩ := ihnext b h
      · exact .inl ⟨rfl, .limit hwork hnext⟩
      · exact .inr ⟨a, log ++ first, rest, (List.append_assoc ..).symm, .limit hwork hnext, hrest⟩

theorem of_done {a : α} {result : Option α} (h : (Task.done a : Task σ α).Issues line trace log result) :
    log = [] ∧ (result = none ∨ result = some a) := by
  cases h with
  | stop => exact ⟨rfl, .inl rfl⟩
  | done => exact ⟨rfl, .inr rfl⟩

/-- What is issued by a command that is still to be sent, and after it. -/
theorem of_sending {command : Command} {next : Reply → Task σ α} {result : Option α}
    (h : (Task.sending line .fresh command next).Issues line trace log result) :
    (log = [] ∧ result = none) ∨
      ∃ entry rest, log = entry :: rest ∧ entry.command = command ∧
        (next entry.reply).Issues line trace rest result := by
  generalize hstage : Stage.fresh = stage at h
  cases h with
  | stop => exact .inl ⟨rfl, rfl⟩
  | @send _ _ _ log _ entry _ _ hnext => exact .inr ⟨entry, log, rfl, rfl, hnext⟩
  | answer => cases hstage
  | elsewhere hn => exact absurd rfl hn

end Task.Issues

variable [Endpoint κ] {start : κ}

/-- One step inside a transaction adds to the trace of a line what the task has issued by it. The task
before the step issues that, and then what the task after it issues. -/
theorem Task.Moves.issues {line : Nat} {held : List Nat} {trace : List Entry} {sessions : Sessions}
    {t t' : Task σ α} {w w' : World σ κ} (h : t.Moves sessions w t' w')
    (ht : t.Inner line (sessions line)) (hl : (w.lines line).Ordered start held)
    (hseats : (trace.map Entry.seat).Nodup)
    (htrace : (w'.lines line).trace ⊆ trace) :
    ∃ sent, (w'.lines line).trace = (w.lines line).trace ++ sent ∧
      ∀ log result, t'.Issues line trace log result → t.Issues line trace (sent ++ log) result := by
  induction h with
  | @note α sessions w change next =>
    refine ⟨[], (List.append_nil _).symm, ?_⟩
    intro log result hnext
    exact .note w.notes hnext
  | @mark α sessions w n isOpen next =>
    rw [World.onLine_lines, if_neg ht.1]
    refine ⟨[], (List.append_nil _).symm, ?_⟩
    intro log result hnext
    exact .mark hnext
  | @askLane α sessions w n command next =>
    refine ⟨[], ?_, ?_⟩
    · rw [World.onLine_lines, List.append_nil]
      split
      · exact (Line.Same.askLane _ _).trace
      · rfl
    · intro log result hnext
      cases hnext with
      | stop => exact .stop
      | send _ hentry hrest => exact .send (by intro _ h; cases h) hentry hrest
      | elsewhere hn reply hrest => exact .elsewhere hn reply hrest
  | @dispatch α sessions w n seat command next hnext =>
    rw [World.onLine_lines] at htrace ⊢
    by_cases hn : line = n
    · subst hn
      rw [if_pos rfl, hl.trace_dispatch command hnext] at htrace
      rw [if_pos rfl, hl.trace_dispatch command hnext]
      refine ⟨_, rfl, ?_⟩
      let entry : Entry := ⟨seat, command, (Endpoint.perform command (w.lines line).endpoint).1⟩
      have hentry : entry ∈ trace := htrace (List.mem_append_right _ (List.mem_singleton_self _))
      intro log result hrest
      generalize hstage : Stage.granted seat = stage at hrest
      cases hrest with
      | stop => exact .send (by intro _ h; cases h) hentry .stop
      | send hnot => exact absurd hstage.symm (hnot seat)
      | @answer _ _ _ _ _ other hother hrest =>
        -- Nothing else in the trace has this seat.
        obtain rfl : other = entry :=
          List.inj_on_of_nodup_map hseats hother hentry (Stage.granted.inj hstage).symm
        exact .send (by intro _ h; cases h) hentry hrest
      | elsewhere hn => exact absurd rfl hn
    · rw [if_neg hn] at htrace ⊢
      refine ⟨[], (List.append_nil _).symm, ?_⟩
      intro log result hrest
      cases hrest with
      | stop => exact .stop
      | answer => exact absurd rfl hn
      | send => exact absurd rfl hn
      | elsewhere hn reply hrest => exact .elsewhere hn reply hrest
  | @collect α sessions w n seat command next entry hentry hseat =>
    refine ⟨[], (List.append_nil _).symm, ?_⟩
    intro log result hrest
    by_cases hn : line = n
    · subst hn hseat
      exact .answer (htrace (List.mem_append_left _ hentry)) hrest
    · exact .elsewhere hn entry.reply hrest
  | @askSession α β sessions w n work next =>
    rw [World.onLine_lines, if_neg ht.1]
    refine ⟨[], (List.append_nil _).symm, ?_⟩
    intro log result hrest
    rw [List.nil_append]
    cases hrest with
    | stop => exact .stop
    | hold hwork hrest => exact .hold hwork hrest
    | holding hwork => exact .holding hwork
  | @grantSession α β sessions w n ticket work next hnext =>
    rw [World.onLine_lines, if_neg ht.1]
    refine ⟨[], (List.append_nil _).symm, ?_⟩
    intro log result hrest
    rw [List.nil_append]
    cases hrest with
    | stop => exact .stop
    | hold hwork hrest => exact .hold hwork hrest
    | holding hwork => exact .holding hwork
  | @inside α β sessions w w' n ticket work work' next h ih =>
    have hsession : sessions.enter n ticket line = sessions line := if_neg ht.1
    rw [hsession] at ih
    obtain ⟨sent, hsent, hissues⟩ := ih ht.2.1 hl htrace
    refine ⟨sent, hsent, ?_⟩
    intro log result hrest
    cases hrest with
    | stop => exact .holding (hissues _ none .stop)
    | hold hwork hrest =>
      rw [← List.append_assoc]
      exact .hold (hissues _ _ hwork) hrest
    | holding hwork => exact .holding (hissues _ _ hwork)
  | @leaveSession α β sessions w n ticket b next =>
    rw [World.onLine_lines, if_neg ht.1]
    refine ⟨[], (List.append_nil _).symm, ?_⟩
    intro log result hrest
    exact .hold (.done b) hrest
  | @left α β γ sessions w w' t t' right next h ih =>
    obtain ⟨sent, hsent, hissues⟩ := ih ht.1 hl htrace
    refine ⟨sent, hsent, ?_⟩
    intro log result hrest
    cases hrest with
    | stop => exact .beside (hissues _ none .stop) .stop (Interleaves.nil.append_left sent)
    | both hleft hright hlog hrest =>
      rw [← List.append_assoc]
      exact .both (hissues _ _ hleft) hright (hlog.append_left sent) hrest
    | beside hleft hright hlog => exact .beside (hissues _ _ hleft) hright (hlog.append_left sent)
  | @right α β γ sessions w w' left t t' next h ih =>
    obtain ⟨sent, hsent, hissues⟩ := ih ht.2.1 hl htrace
    refine ⟨sent, hsent, ?_⟩
    intro log result hrest
    cases hrest with
    | stop => exact .beside .stop (hissues _ none .stop) (Interleaves.nil.append_right sent)
    | both hleft hright hlog hrest =>
      rw [← List.append_assoc]
      exact .both hleft (hissues _ _ hright) (hlog.append_right sent) hrest
    | beside hleft hright hlog => exact .beside hleft (hissues _ _ hright) (hlog.append_right sent)
  | @join α β γ sessions w b c next =>
    refine ⟨[], (List.append_nil _).symm, ?_⟩
    intro log result hrest
    exact .both (.done b) (.done c) .nil hrest
  | @within α β sessions w w' work work' next h ih =>
    obtain ⟨sent, hsent, hissues⟩ := ih ht.1 hl htrace
    refine ⟨sent, hsent, ?_⟩
    intro log result hrest
    cases hrest with
    | stop =>
      have hwork := hissues [] none .stop
      rw [← List.append_nil (sent ++ [])]
      exact .limit hwork .stop
    | limit hwork hrest =>
      rw [← List.append_assoc]
      exact .limit (hissues _ _ hwork) hrest
  | @finish α β sessions w b next =>
    refine ⟨[], (List.append_nil _).symm, ?_⟩
    intro log result hrest
    exact .limit (.done b) hrest
  | @giveUp α β sessions w work next =>
    refine ⟨[], ?_, ?_⟩
    · rw [List.append_nil]
      exact (ht.1.quit _).trace
    · intro log result hrest
      exact .limit .stop hrest

theorem Line.Ordered.numbers_sorted {held : List Nat} {l : Line κ} (h : l.Ordered start held) :
    l.trace.Pairwise fun a b => a.seat.number < b.seat.number := by
  have hseats := h.seats
  rw [Line.seats, ← List.append_assoc, ← h.trace_seats] at hseats
  exact (List.pairwise_map.mp (List.pairwise_append.mp hseats).1).imp fun hbefore => hbefore.2

/-- What a run inside a transaction adds to the trace of a line is issued by the task. -/
theorem Reaches.issues {line : Nat} {sessions : Sessions} {t : Task σ α} {a : α} {w w' : World σ κ}
    (h : Reaches sessions (t, w) (.done a, w')) (ht : t.Inner line (sessions line))
    (hl : (w.lines line).Ordered start [sessions line]) :
    ∃ sent, (w'.lines line).trace = (w.lines line).trace ++ sent ∧
      t.Issues line (w'.lines line).trace sent (some a) := by
  have hseats : ((w'.lines line).trace.map Entry.seat).Nodup := by
    apply List.pairwise_map.mpr
    apply (h.inner ht hl).1.numbers_sorted.imp
    intro a b hlt heq
    exact Nat.ne_of_lt hlt (congrArg Seat.number heq)
  suffices hinv : ∀ state, Reaches sessions state (.done a, w') →
      state.1.Inner line (sessions line) → (state.2.lines line).Ordered start [sessions line] →
      ∃ sent, (w'.lines line).trace = (state.2.lines line).trace ++ sent ∧
        state.1.Issues line (w'.lines line).trace sent (some a) from hinv (t, w) h ht hl
  intro state hreach
  -- From the end of the run: a step is issued before all that comes after it.
  induction hreach using Relation.ReflTransGen.head_induction_on with
  | refl =>
    intro _ _
    exact ⟨[], (List.append_nil _).symm, .done a⟩
  | @head before after hstep hrest ih =>
    intro hinner hordered
    have hordered' := Reaches.ordered_inside (Relation.ReflTransGen.single hstep)
      ⟨hinner.orderly, hinner.holders⟩ hordered
    cases hstep with
    | task hmove =>
      obtain ⟨hinner', -⟩ := hinner.moves hmove
      rw [hinner'.holders] at hordered'
      obtain ⟨sent, hsent, hissues⟩ := ih hinner' hordered'
      have htrace := hsent ▸ List.subset_append_left _ sent
      obtain ⟨first, hfirst, hmoves⟩ := hmove.issues hinner hordered hseats htrace
      refine ⟨first ++ sent, ?_, hmoves sent _ hissues⟩
      rw [hsent, hfirst, List.append_assoc]
    | @job u v n l hworks =>
      rw [hinner.holders] at hordered'
      obtain ⟨sent, hsent, hissues⟩ := ih hinner hordered'
      refine ⟨sent, ?_, hissues⟩
      rw [hsent, World.onLine_lines]
      split
      · next hn =>
        subst hn
        rw [(hworks.same hordered hordered.undoing_nil).1]
      · rfl

end Polystore.Transaction
