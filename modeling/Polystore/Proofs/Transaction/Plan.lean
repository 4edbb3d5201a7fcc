import Polystore.Proofs.Transaction.Issuing

/-!
Bodies that do several things at once. Inside its frame a body opens others, to any depth, side by
side with each other and with commands, and gives some of its work up. Main statement: the commands
that a body issues, each with the frames that it is sent from within.
-/

namespace Polystore.Transaction

variable {σ α β γ τ : Type}

/-- What a body does, one thing after the other or several at once. It knows no other frame than its
own, and it is told the result of each command and of each frame, failures included. -/
inductive Plan (σ : Type) : Type → Type 1 where
  | done {α : Type} (result : Except Error α) : Plan σ α
  | noting {α : Type} (change : σ → σ) (next : σ → Plan σ α) : Plan σ α
  | execute {α : Type} (sql : String) (params : List Value)
      (next : Except Error (List Row) → Plan σ α) : Plan σ α
  | stream {α τ : Type} (sql : String) (params : List Value) (consume : τ → Row → Except Error τ)
      (start : τ) (next : τ × Except Error Summary → Plan σ α) : Plan σ α
  | frame {α β : Type} (body : Plan σ β) (next : Except Error β → Plan σ α) : Plan σ α
  /-- Two things side by side; what follows has to wait for both. -/
  | both {α β γ : Type} (left : Plan σ β) (right : Plan σ γ)
      (next : Except Error β → Except Error γ → Plan σ α) : Plan σ α
  /-- Work that may be given up at any time before it has ended. -/
  | limited {α β : Type} (work : Plan σ β) (next : Option (Except Error β) → Plan σ α) : Plan σ α

namespace Plan

/-- The body as callers write it. -/
def work : {α : Type} → Plan σ α → Frame → Task σ (Except Error α)
  | _, .done result, _ => pure result
  | _, .noting change next, f => do (next (← Task.update change)).work f
  | _, .execute sql params next, f => do (next (← f.execute sql params)).work f
  | _, .stream sql params consume start next, f => do
    (next (← f.stream sql params consume start)).work f
  | _, .frame body next, f => do (next (← f.nested fun inner => body.work inner)).work f
  | _, .both left right next, f => .both (left.work f) (right.work f) fun b c => (next b c).work f
  | _, .limited work next, f => .limited (work.work f) fun b => (next b).work f

theorem work_inner (p : Plan σ α) (f : Frame) (line session : Nat) :
    (p.work f).Inner line session := by
  induction p generalizing f with
  | done result => exact Task.inner_pure result
  | noting change next ih =>
    apply Task.Inner.bind (t := Task.update change)
    · intro _
      trivial
    · intro notes
      exact ih notes f
  | execute sql params next ih => exact Frame.execute_inner.bind fun rows => ih rows f
  | stream sql params consume start next ih =>
    exact Frame.stream_inner.bind fun delivered => ih delivered f
  | frame body next ihbody ihnext =>
    exact (Frame.nested_inner (ihbody _)).bind fun result => ihnext result f
  | both left right next ihleft ihright ihnext =>
    exact ⟨ihleft f, ihright f, fun b c => ihnext b c f⟩
  | limited work next ihwork ihnext => exact ⟨ihwork f, fun b => ihnext b f⟩

end Plan

/-- The command at the end of a frame whose body has come to a result. -/
def Frame.closing (depth : Nat) : Except Error α → Command
  | .ok _ => .release (savepoint depth)
  | .error _ => .rollbackTo (savepoint depth)

/-- What a frame comes to whose body has come to a result, when its last command has been answered. -/
def Frame.closed (result : Except Error α) (reply : Reply) : Except Error α :=
  match result with
  | .ok value => reply.outcome.map fun _ => value
  | .error failure => .error (undone reply.outcome failure)

/-- A command with its reply, and the frames that it is sent from within, the innermost first. A frame
goes by the number of the seat of its savepoint; its first and its last command are its own. -/
structure Sent where
  frames : List Nat
  entry : Entry

/-- A body inside these frames issues commands, and comes to a result, or to none if it is given up or
has not ended. -/
inductive Plan.Issues : {α : Type} → Plan σ α → (around : List Nat) → List Sent →
    Option (Except Error α) → Prop where
  | stop {α : Type} {p : Plan σ α} {around : List Nat} : Issues p around [] none
  | done {α : Type} {around : List Nat} (result : Except Error α) :
      Issues (.done result) around [] (some result)
  | note {α : Type} {change : σ → σ} {next : σ → Plan σ α} {around : List Nat} {log : List Sent}
      {result : Option (Except Error α)} (notes : σ) (h : Issues (next notes) around log result) :
      Issues (.noting change next) around log result
  | execute {α : Type} {sql : String} {params : List Value}
      {next : Except Error (List Row) → Plan σ α} {around : List Nat} {log : List Sent}
      {result : Option (Except Error α)} {entry : Entry}
      (hcommand : entry.command = .execute sql params)
      (h : Issues (next entry.reply.all) around log result) :
      Issues (.execute sql params next) around (⟨around, entry⟩ :: log) result
  | stream {α τ : Type} {sql : String} {params : List Value} {consume : τ → Row → Except Error τ}
      {start : τ} {next : τ × Except Error Summary → Plan σ α} {around : List Nat}
      {log : List Sent} {result : Option (Except Error α)} {entry : Entry}
      (hcommand : entry.command = .execute sql params)
      (h : Issues (next (entry.reply.deliver consume start)) around log result) :
      Issues (.stream sql params consume start next) around (⟨around, entry⟩ :: log) result
  /-- A frame that is not opened. -/
  | refused {α β : Type} {body : Plan σ β} {next : Except Error β → Plan σ α} {around : List Nat}
      {log : List Sent} {result : Option (Except Error α)} {opening : Entry} {refusal : Error}
      (hopening : opening.command = .savepoint (Frame.savepoint (around.length + 1)))
      (hrefused : opening.reply.outcome = .error refusal)
      (h : Issues (next (.error refusal)) around log result) :
      Issues (.frame body next) around (⟨opening.seat.number :: around, opening⟩ :: log) result
  /-- A frame that has not ended, or is given up before its end. -/
  | unfinished {α β : Type} {body : Plan σ β} {next : Except Error β → Plan σ α}
      {around : List Nat} {log : List Sent} {result : Option (Except Error β)} {opening : Entry}
      (hopening : opening.command = .savepoint (Frame.savepoint (around.length + 1)))
      (hbody : Issues body (opening.seat.number :: around) log result) :
      Issues (.frame body next) around (⟨opening.seat.number :: around, opening⟩ :: log) none
  | frame {α β : Type} {body : Plan σ β} {next : Except Error β → Plan σ α} {around : List Nat}
      {log rest : List Sent} {ended : Except Error β} {result : Option (Except Error α)}
      {opening closing : Entry} {count : Option UInt64}
      (hopening : opening.command = .savepoint (Frame.savepoint (around.length + 1)))
      (hopened : opening.reply.outcome = .ok count)
      (hbody : Issues body (opening.seat.number :: around) log (some ended))
      (hclosing : closing.command = Frame.closing (around.length + 1) ended)
      (h : Issues (next (Frame.closed ended closing.reply)) around rest result) :
      Issues (.frame body next) around (⟨opening.seat.number :: around, opening⟩ ::
        (log ++ ⟨opening.seat.number :: around, closing⟩ :: rest)) result
  | both {α β γ : Type} {left : Plan σ β} {right : Plan σ γ}
      {next : Except Error β → Except Error γ → Plan σ α} {around : List Nat}
      {first second log rest : List Sent} {b : Except Error β} {c : Except Error γ}
      {result : Option (Except Error α)} (hleft : Issues left around first (some b))
      (hright : Issues right around second (some c)) (hlog : Interleaves first second log)
      (h : Issues (next b c) around rest result) :
      Issues (.both left right next) around (log ++ rest) result
  | beside {α β γ : Type} {left : Plan σ β} {right : Plan σ γ}
      {next : Except Error β → Except Error γ → Plan σ α} {around : List Nat}
      {first second log : List Sent} {b : Option (Except Error β)} {c : Option (Except Error γ)}
      (hleft : Issues left around first b) (hright : Issues right around second c)
      (hlog : Interleaves first second log) : Issues (.both left right next) around log none
  | limit {α β : Type} {work : Plan σ β} {next : Option (Except Error β) → Plan σ α}
      {around : List Nat} {log rest : List Sent} {b : Option (Except Error β)}
      {result : Option (Except Error α)} (hwork : Issues work around log b)
      (h : Issues (next b) around rest result) :
      Issues (.limited work next) around (log ++ rest) result

section

variable {trace log : List Entry}

/-- What a frame of some depth issues whose body issues such commands. -/
inductive Frame.Issues (depth : Nat) (body : List Entry → Option (Except Error α) → Prop) :
    List Entry → Option (Except Error α) → Prop where
  | stop : Issues depth body [] none
  | refused {opening : Entry} {refusal : Error} {result : Option (Except Error α)}
      (hopening : opening.command = .savepoint (savepoint depth))
      (hrefused : opening.reply.outcome = .error refusal)
      (hresult : result = none ∨ result = some (.error refusal)) : Issues depth body [opening] result
  | unfinished {opening : Entry} {log : List Entry} {ended : Option (Except Error α)}
      (hopening : opening.command = .savepoint (savepoint depth)) (hbody : body log ended) :
      Issues depth body (opening :: log) none
  | ended {opening closing : Entry} {log : List Entry} {ended : Except Error α}
      {count : Option UInt64} {result : Option (Except Error α)}
      (hopening : opening.command = .savepoint (savepoint depth))
      (hopened : opening.reply.outcome = .ok count) (hbody : body log (some ended))
      (hclosing : closing.command = Frame.closing depth ended)
      (hresult : result = none ∨ result = some (Frame.closed ended closing.reply)) :
      Issues depth body (opening :: (log ++ [closing])) result

theorem Frame.nested_issues {f : Frame} {body : Frame → Task σ (Except Error α)}
    {result : Option (Except Error α)}
    (h : (f.nested body).Issues f.executor.line trace log result) :
    Frame.Issues (f.depth + 1)
      ((body { f with depth := f.depth + 1 }).Issues f.executor.line trace) log result := by
  obtain ⟨rfl, rfl⟩ | ⟨opening, rest, rfl, hopening, h⟩ := Task.Issues.of_sending h
  · exact .stop
  simp only [Task.bind] at h
  cases hopened : opening.reply.outcome with
  | error refusal =>
    rw [hopened] at h
    obtain ⟨rfl, hresult⟩ := Task.Issues.of_done h
    exact .refused hopening hopened hresult
  | ok count =>
    rw [hopened] at h
    obtain ⟨rfl, hbody⟩ | ⟨ended, inner, last, rfl, hbody, h⟩ := Task.Issues.of_bind h
    · exact .unfinished hopening hbody
    have hclosing : last = [] ∧ result = none ∨ ∃ closing, last = [closing] ∧
        closing.command = Frame.closing (f.depth + 1) ended ∧
        (result = none ∨ result = some (Frame.closed ended closing.reply)) := by
      cases ended with
      | ok value =>
        obtain hnone | ⟨closing, rest, rfl, hclosing, h⟩ := Task.Issues.of_sending h
        · exact .inl hnone
        · obtain ⟨rfl, hresult⟩ := Task.Issues.of_done h
          exact .inr ⟨closing, rfl, hclosing, hresult⟩
      | error failure =>
        obtain hnone | ⟨closing, rest, rfl, hclosing, h⟩ := Task.Issues.of_sending h
        · exact .inl hnone
        · obtain ⟨rfl, hresult⟩ := Task.Issues.of_done h
          exact .inr ⟨closing, rfl, hclosing, hresult⟩
    obtain ⟨rfl, rfl⟩ | ⟨closing, rfl, hclosing, hresult⟩ := hclosing
    · rw [List.append_nil]
      exact .unfinished hopening hbody
    · exact .ended hopening hopened hbody hclosing hresult

/-- What the work of a body issues, the body issues, with the frames around each command. -/
theorem Plan.issues_of_work {p : Plan σ α} {f : Frame} {around : List Nat}
    (hdepth : around.length = f.depth) {result : Option (Except Error α)}
    (h : (p.work f).Issues f.executor.line trace log result) :
    ∃ sent, sent.map Sent.entry = log ∧ p.Issues around sent result := by
  induction p generalizing f around log with
  | done ended =>
    obtain ⟨rfl, rfl | rfl⟩ := Task.Issues.of_done h
    · exact ⟨[], rfl, .stop⟩
    · exact ⟨[], rfl, .done ended⟩
  | noting change next ih =>
    change (Task.noting change fun notes => (next notes).work f).Issues _ _ _ _ at h
    cases h with
    | stop => exact ⟨[], rfl, .stop⟩
    | note notes h =>
      obtain ⟨sent, hsent, hnext⟩ := ih notes hdepth h
      exact ⟨sent, hsent, .note notes hnext⟩
  | execute sql params next ih =>
    obtain ⟨rfl, rfl⟩ | ⟨entry, rest, rfl, hcommand, h⟩ := Task.Issues.of_sending h
    · exact ⟨[], rfl, .stop⟩
    · obtain ⟨sent, rfl, hnext⟩ := ih _ hdepth h
      exact ⟨⟨around, entry⟩ :: sent, rfl, .execute hcommand hnext⟩
  | stream sql params consume start next ih =>
    obtain ⟨rfl, rfl⟩ | ⟨entry, rest, rfl, hcommand, h⟩ := Task.Issues.of_sending h
    · exact ⟨[], rfl, .stop⟩
    · obtain ⟨sent, rfl, hnext⟩ := ih _ hdepth h
      exact ⟨⟨around, entry⟩ :: sent, rfl, .stream hcommand hnext⟩
  | frame body next ihbody ihnext =>
    -- A frame that comes to nothing is followed by nothing.
    obtain ⟨r, first, rest, rfl, hframe, hnone, hnext⟩ : ∃ r first rest, log = first ++ rest ∧
        (f.nested fun inner => body.work inner).Issues f.executor.line trace first r ∧
        (r = none → rest = [] ∧ result = none) ∧ ∀ ended, r = none ∨ r = some ended →
          ∃ sent, sent.map Sent.entry = rest ∧ (next ended).Issues around sent result := by
      obtain ⟨hnone, hframe⟩ | ⟨ended, first, rest, hlog, hframe, hrest⟩ := Task.Issues.of_bind h
      · refine ⟨none, log, [], (List.append_nil _).symm, hframe, fun _ => ⟨rfl, hnone⟩, ?_⟩
        intro ended _
        exact ⟨[], rfl, hnone ▸ .stop⟩
      · refine ⟨some ended, first, rest, hlog, hframe, nofun, ?_⟩
        rintro _ (hnone | hsome)
        · cases hnone
        · cases hsome
          exact ihnext ended hdepth hrest
    have hissues := Frame.nested_issues hframe
    rw [← hdepth] at hissues
    cases hissues with
    | stop =>
      obtain ⟨rfl, rfl⟩ := hnone rfl
      exact ⟨[], rfl, .stop⟩
    | @refused opening _ _ hopening hrefused hended =>
      obtain ⟨later, rfl, hlater⟩ := hnext _ hended
      exact ⟨⟨opening.seat.number :: around, opening⟩ :: later, rfl,
        .refused hopening hrefused hlater⟩
    | @unfinished opening _ _ hopening hbody =>
      obtain ⟨rfl, rfl⟩ := hnone rfl
      have hinner : (opening.seat.number :: around).length = around.length + 1 := List.length_cons
      obtain ⟨sent, rfl, hissued⟩ := ihbody (f := { f with depth := around.length + 1 }) hinner hbody
      refine ⟨⟨opening.seat.number :: around, opening⟩ :: sent, ?_, .unfinished hopening hissued⟩
      rw [List.map_cons, List.append_nil]
    | @ended opening closing _ _ _ _ hopening hopened hbody hclosing hended =>
      have hinner : (opening.seat.number :: around).length = around.length + 1 := List.length_cons
      obtain ⟨sent, rfl, hissued⟩ := ihbody (f := { f with depth := around.length + 1 }) hinner hbody
      obtain ⟨later, rfl, hlater⟩ := hnext _ hended
      refine ⟨_, ?_, .frame hopening hopened hissued hclosing hlater⟩
      simp only [List.map_cons, List.map_append, List.cons_append, List.append_assoc,
        List.nil_append]
  | both left right next ihleft ihright ihnext =>
    cases h with
    | stop => exact ⟨[], rfl, .stop⟩
    | both hleft hright hlog h =>
      obtain ⟨first, hfirst, hleft⟩ := ihleft hdepth hleft
      obtain ⟨second, hsecond, hright⟩ := ihright hdepth hright
      obtain ⟨merged, rfl, hmerged⟩ := hlog.of_map hfirst hsecond
      obtain ⟨rest, rfl, hnext⟩ := ihnext _ _ hdepth h
      exact ⟨merged ++ rest, List.map_append, .both hleft hright hmerged hnext⟩
    | beside hleft hright hlog =>
      obtain ⟨first, hfirst, hleft⟩ := ihleft hdepth hleft
      obtain ⟨second, hsecond, hright⟩ := ihright hdepth hright
      obtain ⟨merged, rfl, hmerged⟩ := hlog.of_map hfirst hsecond
      exact ⟨merged, rfl, .beside hleft hright hmerged⟩
  | limited work next ihwork ihnext =>
    cases h with
    | stop => exact ⟨[], rfl, .stop⟩
    | limit hwork h =>
      obtain ⟨first, rfl, hissued⟩ := ihwork hdepth hwork
      obtain ⟨rest, rfl, hnext⟩ := ihnext _ hdepth h
      exact ⟨first ++ rest, List.map_append, .limit hissued hnext⟩

end

end Polystore.Transaction
