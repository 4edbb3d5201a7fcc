import Polystore.Proofs.Transaction.Callers
import Polystore.Proofs.Transaction.Phase

/-!
Callers that keep to the protocol of an executor. A session is for one statement, or for
transactions one after the other; what happens inside a transaction neither begins nor ends one.
Whoever keeps to that leaves every line settled, wherever it is stopped.
-/

namespace Polystore.Transaction

variable {σ κ α β γ : Type}

namespace Task

/-- What may happen on a line inside a transaction, on behalf of its session. -/
def Inner (line session : Nat) : {α : Type} → Task σ α → Prop
  | _, .done _ => True
  | _, .pending => True
  | _, .noting _ next => ∀ notes, Inner line session (next notes)
  | _, .marking n _ next => line ≠ n ∧ Inner line session next
  | _, .sending n stage command next =>
    (line = n → command.isInner = true ∧ ∀ seat, stage = .queued seat → seat.session = session) ∧
      ∀ reply, Inner line session (next reply)
  | _, .holding n _ work next =>
    line ≠ n ∧ Inner line session work ∧ ∀ b, Inner line session (next b)
  | _, .both left right next =>
    Inner line session left ∧ Inner line session right ∧ ∀ b c, Inner line session (next b c)
  | _, .limited work next => Inner line session work ∧ ∀ b, Inner line session (next b)

/-- What a session may go on with on a line, when it has come to a phase and to a note about a
transaction in progress. Only inside a transaction may several things happen at once. -/
def Follows (line session : Nat) : {α : Type} → Phase → Bool → Task σ α → Prop
  | _, _, _, .done _ => True
  | _, _, _, .pending => True
  | _, p, isOpen, .noting _ next => ∀ notes, Follows line session p isOpen (next notes)
  | _, p, isOpen, .marking n noted next =>
    if line = n then p.Fits noted ∧ Follows line session p noted next
    else Follows line session p isOpen next
  | _, p, isOpen, .sending n stage command next =>
    if line = n then
      (∀ seat, stage = .granted seat → p = .begun ∧ command.isInner = true) ∧
        (∀ seat, stage = .queued seat → seat.session = session) ∧ p.Allows isOpen command ∧
        ∀ reply, Follows line session (p.next command reply) isOpen (next reply)
    else ∀ reply, Follows line session p isOpen (next reply)
  | _, p, isOpen, .holding n _ work next =>
    line ≠ n ∧ p = .begun ∧ isOpen = true ∧ Inner line session work ∧
      ∀ b, Follows line session p isOpen (next b)
  | _, p, isOpen, .both left right next =>
    p = .begun ∧ isOpen = true ∧ Inner line session left ∧ Inner line session right ∧
      ∀ b c, Follows line session p isOpen (next b c)
  | _, p, isOpen, .limited work next =>
    p = .begun ∧ isOpen = true ∧ Inner line session work ∧ ∀ b, Follows line session p isOpen (next b)

/-- A session waits for the reply to a command that may be on its way already. -/
def Awaits [Endpoint κ] (line session : Nat) (l : Line κ) : {α : Type} → Task σ α → Prop
  | _, .sending n (.granted seat) _ next =>
    line = n ∧ ∀ entry ∈ l.trace, entry.seat = seat →
      Follows line session (l.phase session) l.isOpen (next entry.reply)
  | _, _ => False

/-- A task keeps to the protocol on a line. -/
def Lawful [Endpoint κ] (line : Nat) (l : Line κ) : {α : Type} → Task σ α → Prop
  | _, .done _ => True
  | _, .pending => True
  | _, .noting _ next => ∀ notes, Lawful line l (next notes) ∧ (next notes).holders line = []
  | _, .marking n _ next => line ≠ n ∧ Lawful line l next ∧ next.holders line = []
  | _, .sending n _ _ next =>
    line ≠ n ∧ ∀ reply, Lawful line l (next reply) ∧ (next reply).holders line = []
  | _, .holding n stage work next =>
    (if line = n then
      match stage with
      | .granted session =>
        Follows line session (l.phase session) l.isOpen work ∨ Awaits line session l work
      | _ => ∀ session, Follows line session .fresh false work
    else Lawful line l work) ∧ ∀ b, Lawful line l (next b) ∧ (next b).holders line = []
  | _, .both left right next =>
    Lawful line l left ∧ Lawful line l right ∧
      ∀ b c, Lawful line l (next b c) ∧ (next b c).holders line = []
  | _, .limited work next =>
    Lawful line l work ∧ ∀ b, Lawful line l (next b) ∧ (next b).holders line = []

section

variable {line session : Nat}

theorem Inner.holders {t : Task σ α} (h : t.Inner line session) : t.holders line = [] := by
  induction t with
  | holding n stage work next ihwork ihnext =>
    rw [Task.holders, if_neg h.1, ihwork h.2.1, List.append_nil]
  | both left right next ihleft ihright ihnext =>
    rw [Task.holders, ihleft h.1, ihright h.2.1, List.append_nil]
  | limited work next ihwork ihnext => exact ihwork h.1
  | _ => rfl

theorem Inner.orderly {t : Task σ α} (h : t.Inner line session) : t.Orderly line true := by
  induction t with
  | done a => trivial
  | pending => trivial
  | noting change next ih => exact fun notes => ⟨ih notes (h notes), (h notes).holders⟩
  | marking n isOpen next ih => exact ⟨ih h.2, h.2.holders⟩
  | sending n stage command next ih =>
    exact ⟨fun _ => rfl, fun reply => ⟨ih reply (h.2 reply), (h.2 reply).holders⟩⟩
  | holding n stage work next ihwork ihnext =>
    exact ⟨ihwork h.2.1, fun b => ⟨ihnext b (h.2.2 b), (h.2.2 b).holders⟩⟩
  | both left right next ihleft ihright ihnext =>
    exact ⟨ihleft h.1, ihright h.2.1, fun b c => ⟨ihnext b c (h.2.2 b c), (h.2.2 b c).holders⟩⟩
  | limited work next ihwork ihnext =>
    exact ⟨ihwork h.1, fun b => ⟨ihnext b (h.2 b), (h.2 b).holders⟩⟩

/-- Whoever goes away inside a transaction leaves at most a queue. -/
theorem Inner.quit {t : Task σ α} (h : t.Inner line session) (l : Line κ) :
    l.Same (t.quit line l) := by
  induction t generalizing l with
  | sending n stage command next ih =>
    rw [Task.quit]
    split
    · exact .quitLane l stage
    · exact .refl l
  | holding n stage work next ihwork ihnext =>
    rw [Task.quit, if_neg h.1]
    exact ihwork h.2.1 l
  | both left right next ihleft ihright ihnext => exact (ihleft h.1 l).trans (ihright h.2.1 _)
  | limited work next ihwork ihnext => exact ihwork h.1 l
  | _ => exact .refl l

theorem Follows.holders {p : Phase} {isOpen : Bool} {t : Task σ α}
    (h : t.Follows line session p isOpen) : t.holders line = [] := by
  cases t with
  | holding n stage work next =>
    rw [Task.holders, if_neg h.1, h.2.2.2.1.holders, List.append_nil]
  | both left right next => rw [Task.holders, h.2.2.1.holders, h.2.2.2.1.holders, List.append_nil]
  | limited work next => exact h.2.2.1.holders
  | _ => rfl

theorem Follows.orderly {p : Phase} {isOpen : Bool} {t : Task σ α}
    (h : t.Follows line session p isOpen) : t.Orderly line true := by
  induction t generalizing p isOpen with
  | done a => trivial
  | pending => trivial
  | noting change next ih => exact fun notes => ⟨ih notes (h notes), (h notes).holders⟩
  | marking n noted next ih =>
    rw [Follows] at h
    split at h
    · exact ⟨ih h.2, h.2.holders⟩
    · exact ⟨ih h, h.holders⟩
  | sending n stage command next ih =>
    rw [Follows] at h
    refine ⟨fun _ => rfl, fun reply => ?_⟩
    split at h
    · exact ⟨ih reply (h.2.2.2 reply), (h.2.2.2 reply).holders⟩
    · exact ⟨ih reply (h reply), (h reply).holders⟩
  | holding n stage work next ihwork ihnext =>
    obtain ⟨-, -, -, hwork, hnext⟩ := h
    exact ⟨hwork.orderly, fun b => ⟨ihnext b (hnext b), (hnext b).holders⟩⟩
  | both left right next ihleft ihright ihnext =>
    obtain ⟨-, -, hleft, hright, hnext⟩ := h
    exact ⟨hleft.orderly, hright.orderly, fun b c => ⟨ihnext b c (hnext b c), (hnext b c).holders⟩⟩
  | limited work next ihwork ihnext =>
    obtain ⟨-, -, hwork, hnext⟩ := h
    exact ⟨hwork.orderly, fun b => ⟨ihnext b (hnext b), (hnext b).holders⟩⟩

theorem Follows.quit {p : Phase} {isOpen : Bool} {t : Task σ α}
    (h : t.Follows line session p isOpen) (l : Line κ) : l.Same (t.quit line l) := by
  cases t with
  | sending n stage command next =>
    rw [Task.quit]
    split
    · exact .quitLane l stage
    · exact .refl l
  | holding n stage work next =>
    rw [Task.quit, if_neg h.1]
    exact h.2.2.2.1.quit l
  | both left right next => exact (h.2.2.1.quit l).trans (h.2.2.2.1.quit _)
  | limited work next => exact h.2.2.1.quit l
  | _ => exact .refl l

end

end Task

/-- What a step inside a transaction does to the line. -/
inductive Line.InnerStep (session : Nat) (l : Line κ) : Line κ → Prop where
  | same {l' : Line κ} (h : l.Same l') : InnerStep session l l'
  | dispatch {seat : Seat} {command : Command} (hnext : l.lane.isNext seat)
      (hseat : seat.session = session) (hinner : command.isInner = true) :
      InnerStep session l (l.dispatch seat command)

/-- What a step of the holder of the session does to the line. -/
inductive Line.Conducts [Endpoint κ] (session : Nat) (l : Line κ) : Line κ → Prop where
  | same {l' : Line κ} (h : l.Same l') : Conducts session l l'
  | mark {isOpen : Bool} (hfits : (l.phase session).Fits isOpen) : Conducts session l (l.mark isOpen)
  | dispatch {seat : Seat} {command : Command} (hnext : l.lane.isNext seat)
      (hseat : seat.session = session) (hallows : (l.phase session).Allows l.isOpen command) :
      Conducts session l (l.dispatch seat command)

/-- Inside a transaction a session stays there. -/
theorem Line.InnerStep.conducts [Endpoint κ] {start : κ} {held : List Nat} {session : Nat}
    {l l' : Line κ} (h : l.InnerStep session l') (ho : l.Ordered start held)
    (hphase : l.phase session = .begun) (hopen : l.isOpen = true) :
    l.Conducts session l' ∧ l'.phase session = .begun ∧ l'.isOpen = true := by
  cases h with
  | same h => exact ⟨.same h, (phase_congr h.trace session).trans hphase, h.isOpen.trans hopen⟩
  | @dispatch seat command hnext hseat hinner =>
    refine ⟨.dispatch hnext hseat fun reply => ?_, ?_, hopen⟩
    · rw [hphase, Phase.next_inner hinner, hopen]
      decide
    · rw [phase_append (ho.trace_dispatch command hnext), if_pos hseat, hphase,
        Phase.next_inner hinner]

namespace Task

section

variable {line : Nat} {sessions : Sessions} {w w' : World σ κ}

theorem Inner.moves {t t' : Task σ α} (h : t.Moves sessions w t' w')
    (ht : t.Inner line (sessions line)) :
    t'.Inner line (sessions line) ∧
      (w.lines line).InnerStep (sessions line) (w'.lines line) := by
  induction h with
  | @note α sessions w change next => exact ⟨ht w.notes, .same (.refl _)⟩
  | @mark α sessions w n isOpen next =>
    rw [World.onLine_lines, if_neg ht.1]
    exact ⟨ht.2, .same (.refl _)⟩
  | @askLane α sessions w n command next =>
    rw [World.onLine_lines]
    split
    · next hn =>
      subst hn
      refine ⟨⟨fun _ => ⟨(ht.1 rfl).1, fun seat hseat => ?_⟩, ht.2⟩, .same (.askLane _ _)⟩
      cases hseat
      rfl
    · next hn => exact ⟨⟨fun heq => absurd heq hn, ht.2⟩, .same (.refl _)⟩
  | @dispatch α sessions w n seat command next hnext =>
    rw [World.onLine_lines]
    split
    · next hn =>
      subst hn
      obtain ⟨hinner, hseat⟩ := ht.1 rfl
      refine ⟨⟨fun _ => ⟨hinner, fun other hother => ?_⟩, ht.2⟩, .dispatch hnext (hseat seat rfl) hinner⟩
      cases hother
    · next hn => exact ⟨⟨fun heq => absurd heq hn, ht.2⟩, .same (.refl _)⟩
  | @collect α sessions w n seat command next entry hentry hseat =>
    exact ⟨ht.2 entry.reply, .same (.refl _)⟩
  | @askSession α β sessions w n work next =>
    rw [World.onLine_lines, if_neg ht.1]
    exact ⟨ht, .same (.refl _)⟩
  | @grantSession α β sessions w n ticket work next hnext =>
    rw [World.onLine_lines, if_neg ht.1]
    exact ⟨ht, .same (.refl _)⟩
  | @inside α β sessions w w' n ticket work work' next h ih =>
    have hsession : sessions.enter n ticket line = sessions line := if_neg ht.1
    rw [hsession] at ih
    have hwork := ih ht.2.1
    exact ⟨⟨ht.1, hwork.1, ht.2.2⟩, hwork.2⟩
  | @leaveSession α β sessions w n ticket b next =>
    rw [World.onLine_lines, if_neg ht.1]
    exact ⟨ht.2.2 b, .same (.refl _)⟩
  | @left α β γ sessions w w' t t' right next h ih =>
    have hleft := ih ht.1
    exact ⟨⟨hleft.1, ht.2⟩, hleft.2⟩
  | @right α β γ sessions w w' left t t' next h ih =>
    have hright := ih ht.2.1
    exact ⟨⟨ht.1, hright.1, ht.2.2⟩, hright.2⟩
  | @join α β γ sessions w b c next => exact ⟨ht.2.2 b c, .same (.refl _)⟩
  | @within α β sessions w w' work work' next h ih =>
    have hwork := ih ht.1
    exact ⟨⟨hwork.1, ht.2⟩, hwork.2⟩
  | @finish α β sessions w b next => exact ⟨ht.2 (some b), .same (.refl _)⟩
  | @giveUp α β sessions w work next => exact ⟨ht.2 none, .same (ht.1.quit _)⟩

variable [Endpoint κ] {start : κ} {held : List Nat}

theorem Follows.moves {t t' : Task σ α} (h : t.Moves sessions w t' w')
    (ho : (w.lines line).Ordered start held)
    (ht : t.Follows line (sessions line) ((w.lines line).phase (sessions line)) (w.lines line).isOpen) :
    (t'.Follows line (sessions line) ((w'.lines line).phase (sessions line)) (w'.lines line).isOpen ∨
        t'.Awaits line (sessions line) (w'.lines line)) ∧
      (w.lines line).Conducts (sessions line) (w'.lines line) := by
  induction h with
  | @note α sessions w change next => exact ⟨.inl (ht w.notes), .same (.refl _)⟩
  | @mark α sessions w n noted next =>
    rw [Follows] at ht
    rw [World.onLine_lines]
    split at ht
    · next hn =>
      rw [if_pos hn]
      exact ⟨.inl ht.2, .mark ht.1⟩
    · next hn =>
      rw [if_neg hn]
      exact ⟨.inl ht, .same (.refl _)⟩
  | @askLane α sessions w n command next =>
    rw [Follows] at ht
    rw [World.onLine_lines]
    split at ht
    · next hn =>
      subst hn
      rw [if_pos rfl]
      refine ⟨.inl ?_, .same (.askLane _ _)⟩
      rw [Follows, if_pos rfl]
      refine ⟨fun seat hseat => ?_, fun seat hseat => ?_, ht.2.2⟩
      · cases hseat
      · cases hseat
        rfl
    · next hn =>
      rw [if_neg hn]
      refine ⟨.inl ?_, .same (.refl _)⟩
      rw [Follows, if_neg hn]
      exact ht
  | @dispatch α sessions w n seat command next hnext =>
    rw [Follows] at ht
    rw [World.onLine_lines]
    split at ht
    · next hn =>
      subst hn
      rw [if_pos rfl]
      obtain ⟨-, hseat, hallows, hfollows⟩ := ht
      have hsession := hseat seat rfl
      have htrace := ho.trace_dispatch command hnext
      refine ⟨.inr ⟨rfl, fun entry hentry heq => ?_⟩, .dispatch hnext hsession hallows⟩
      rw [htrace] at hentry
      rcases List.mem_append.mp hentry with hentry | hentry
      · exact absurd heq (ho.seat_unused hnext hentry)
      · rw [List.mem_singleton.mp hentry, Line.phase_append htrace, if_pos hsession]
        exact hfollows _
    · next hn =>
      rw [if_neg hn]
      refine ⟨.inl ?_, .same (.refl _)⟩
      rw [Follows, if_neg hn]
      exact ht
  | @collect α sessions w n seat command next entry hentry hseat =>
    rw [Follows] at ht
    split at ht
    · obtain ⟨hgranted, -, -, hfollows⟩ := ht
      obtain ⟨hphase, hinner⟩ := hgranted seat rfl
      have hnext := hfollows entry.reply
      rw [hphase, Phase.next_inner hinner] at hnext
      rw [hphase]
      exact ⟨.inl hnext, .same (.refl _)⟩
    · exact ⟨.inl (ht entry.reply), .same (.refl _)⟩
  | @askSession α β sessions w n work next =>
    rw [World.onLine_lines, if_neg ht.1]
    exact ⟨.inl ht, .same (.refl _)⟩
  | @grantSession α β sessions w n ticket work next hnext =>
    rw [World.onLine_lines, if_neg ht.1]
    exact ⟨.inl ht, .same (.refl _)⟩
  | @inside α β sessions w w' n ticket work work' next h _ =>
    obtain ⟨hn, hphase, hopen, hwork, hnext⟩ := ht
    have hsession : sessions.enter n ticket line = sessions line := if_neg hn
    have hmoved := Inner.moves h (hsession ▸ hwork)
    rw [hsession] at hmoved
    obtain ⟨hconducts, hphase', hopen'⟩ := hmoved.2.conducts ho hphase hopen
    rw [hphase', hopen']
    rw [hphase, hopen] at hnext
    exact ⟨.inl ⟨hn, rfl, rfl, hmoved.1, hnext⟩, hconducts⟩
  | @leaveSession α β sessions w n ticket b next =>
    rw [World.onLine_lines, if_neg ht.1]
    exact ⟨.inl (ht.2.2.2.2 b), .same (.refl _)⟩
  | @left α β γ sessions w w' t t' right next h _ =>
    obtain ⟨hphase, hopen, hleft, hright, hnext⟩ := ht
    have hmoved := Inner.moves h hleft
    obtain ⟨hconducts, hphase', hopen'⟩ := hmoved.2.conducts ho hphase hopen
    rw [hphase', hopen']
    rw [hphase, hopen] at hnext
    exact ⟨.inl ⟨rfl, rfl, hmoved.1, hright, hnext⟩, hconducts⟩
  | @right α β γ sessions w w' left t t' next h _ =>
    obtain ⟨hphase, hopen, hleft, hright, hnext⟩ := ht
    have hmoved := Inner.moves h hright
    obtain ⟨hconducts, hphase', hopen'⟩ := hmoved.2.conducts ho hphase hopen
    rw [hphase', hopen']
    rw [hphase, hopen] at hnext
    exact ⟨.inl ⟨rfl, rfl, hleft, hmoved.1, hnext⟩, hconducts⟩
  | @join α β γ sessions w b c next => exact ⟨.inl (ht.2.2.2.2 b c), .same (.refl _)⟩
  | @within α β sessions w w' work work' next h _ =>
    obtain ⟨hphase, hopen, hwork, hnext⟩ := ht
    have hmoved := Inner.moves h hwork
    obtain ⟨hconducts, hphase', hopen'⟩ := hmoved.2.conducts ho hphase hopen
    rw [hphase', hopen']
    rw [hphase, hopen] at hnext
    exact ⟨.inl ⟨rfl, rfl, hmoved.1, hnext⟩, hconducts⟩
  | @finish α β sessions w b next => exact ⟨.inl (ht.2.2.2 (some b)), .same (.refl _)⟩
  | @giveUp α β sessions w work next =>
    have hsame : (w.lines line).Same ((work.drop w).lines line) := ht.2.2.1.quit _
    rw [Line.phase_congr hsame.trace, hsame.isOpen]
    exact ⟨.inl (ht.2.2.2 none), .same hsame⟩

theorem Awaits.moves {t t' : Task σ α} (h : t.Moves sessions w t' w')
    (ht : t.Awaits line (sessions line) (w.lines line)) :
    t'.Follows line (sessions line) ((w'.lines line).phase (sessions line)) (w'.lines line).isOpen ∧
      (w.lines line).Same (w'.lines line) := by
  induction h with
  | @collect α sessions w n seat command next entry hentry hseat =>
    obtain ⟨rfl, hfollows⟩ := ht
    exact ⟨hfollows entry (List.mem_append_left _ hentry) hseat, .refl _⟩
  | _ => exact ht.elim

theorem Awaits.congr {t : Task σ α} {session : Nat} {l l' : Line κ} (h : t.Awaits line session l)
    (htrace : l'.trace = l.trace) (hopen : l'.isOpen = l.isOpen) : t.Awaits line session l' := by
  cases t with
  | sending n stage command next =>
    cases stage with
    | granted seat =>
      obtain ⟨hn, hfollows⟩ := h
      refine ⟨hn, fun entry hentry hseat => ?_⟩
      rw [hopen, Line.phase_congr htrace]
      exact hfollows entry (htrace ▸ hentry) hseat
    | _ => exact h.elim
  | _ => exact h.elim

theorem Awaits.quit {t : Task σ α} {session : Nat} {l : Line κ} (h : t.Awaits line session l)
    (l' : Line κ) : l'.Same (t.quit line l') := by
  cases t with
  | sending n stage command next =>
    rw [Task.quit]
    split
    · exact .quitLane l' stage
    · exact .refl l'
  | _ => exact h.elim

end

end Task

theorem Line.Conducts.settled [Endpoint κ] {start : κ} {held : List Nat} {session : Nat}
    {l l' : Line κ} (h : l.Conducts session l') (ho : l.Ordered start held) (hs : l.Settled)
    (howner : l.session.owner = some session) (hnone : l.undoing = []) : l'.Settled := by
  cases h with
  | same h => exact hs.same h
  | mark hfits => exact hs.mark howner hnone hfits
  | dispatch hnext hseat hallows =>
    subst hseat
    exact hs.dispatch ho hnone howner hnext hallows

namespace Task

variable [Endpoint κ] {start : κ} {rest : List Nat} {line : Nat} {l l' : Line κ}

/-- Before it has got a session, a task that keeps to the protocol sends nothing. -/
theorem Lawful.orderly {t : Task σ α} (h : t.Lawful line l) (hnone : t.holders line = []) :
    t.Orderly line false := by
  induction t with
  | done a => trivial
  | pending => trivial
  | noting change next ih =>
    exact fun notes => ⟨ih notes (h notes).1 (h notes).2, (h notes).2⟩
  | marking n isOpen next ih => exact ⟨ih h.2.1 h.2.2, h.2.2⟩
  | sending n stage command next ih =>
    exact ⟨fun hn => absurd hn h.1,
      fun reply => ⟨ih reply (h.2 reply).1 (h.2 reply).2, (h.2 reply).2⟩⟩
  | holding n stage work next ihwork ihnext =>
    rw [Task.holders, List.append_eq_nil_iff] at hnone
    obtain ⟨hwork, hnext⟩ := h
    refine ⟨?_, fun b => ⟨ihnext b (hnext b).1 (hnext b).2, (hnext b).2⟩⟩
    by_cases hn : line = n
    · rw [if_pos hn] at hwork hnone
      rw [beq_iff_eq.mpr hn]
      cases stage with
      | granted ticket => simp [Stage.granted?] at hnone
      | _ => exact (hwork 0).orderly
    · rw [if_neg hn] at hwork
      rw [beq_eq_false_iff_ne.mpr hn]
      exact ihwork hwork hnone.2
  | both left right next ihleft ihright ihnext =>
    rw [Task.holders, List.append_eq_nil_iff] at hnone
    obtain ⟨hleft, hright, hnext⟩ := h
    exact ⟨ihleft hleft hnone.1, ihright hright hnone.2,
      fun b c => ⟨ihnext b c (hnext b c).1 (hnext b c).2, (hnext b c).2⟩⟩
  | limited work next ihwork ihnext =>
    obtain ⟨hwork, hnext⟩ := h
    exact ⟨ihwork hwork hnone, fun b => ⟨ihnext b (hnext b).1 (hnext b).2, (hnext b).2⟩⟩

/-- What a line has come to matters to the holder of its session only. -/
theorem Lawful.carry {t : Task σ α} (h : t.Lawful line l)
    (hsame : t.holders line ≠ [] → l'.trace = l.trace ∧ l'.isOpen = l.isOpen) :
    t.Lawful line l' := by
  induction t with
  | done a => trivial
  | pending => trivial
  | noting change next ih =>
    exact fun notes => ⟨ih notes (h notes).1 fun hne => absurd (h notes).2 hne, (h notes).2⟩
  | marking n isOpen next ih =>
    exact ⟨h.1, ih h.2.1 fun hne => absurd h.2.2 hne, h.2.2⟩
  | sending n stage command next ih =>
    obtain ⟨hn, hnext⟩ := h
    exact ⟨hn, fun reply =>
      ⟨ih reply (hnext reply).1 fun hne => absurd (hnext reply).2 hne, (hnext reply).2⟩⟩
  | holding n stage work next ihwork ihnext =>
    obtain ⟨hwork, hnext⟩ := h
    refine ⟨?_, fun b => ⟨ihnext b (hnext b).1 fun hne => absurd (hnext b).2 hne, (hnext b).2⟩⟩
    rw [Task.holders] at hsame
    by_cases hn : line = n
    · rw [if_pos hn] at hwork hsame ⊢
      cases stage with
      | granted session =>
        obtain ⟨htrace, hopen⟩ := hsame (by simp [Stage.granted?])
        rcases hwork with hwork | hwork
        · rw [← hopen, ← Line.phase_congr htrace] at hwork
          exact .inl hwork
        · exact .inr (hwork.congr htrace hopen)
      | _ => exact hwork
    · rw [if_neg hn] at hwork hsame ⊢
      exact ihwork hwork hsame
  | both left right next ihleft ihright ihnext =>
    obtain ⟨hleft, hright, hnext⟩ := h
    rw [Task.holders] at hsame
    exact ⟨ihleft hleft fun hne => hsame fun hnil => hne (List.append_eq_nil_iff.mp hnil).1,
      ihright hright fun hne => hsame fun hnil => hne (List.append_eq_nil_iff.mp hnil).2,
      fun b c => ⟨ihnext b c (hnext b c).1 fun hne => absurd (hnext b c).2 hne, (hnext b c).2⟩⟩
  | limited work next ihwork ihnext =>
    obtain ⟨hwork, hnext⟩ := h
    exact ⟨ihwork hwork hsame,
      fun b => ⟨ihnext b (hnext b).1 fun hne => absurd (hnext b).2 hne, (hnext b).2⟩⟩

theorem Lawful.unheld {t : Task σ α} (h : t.Lawful line l) (hnone : t.holders line = []) :
    t.Lawful line l' :=
  h.carry fun hne => absurd hnone hne

/-- Of two tasks side by side, one at most has the session, so that the other one does not mind what
becomes of it. -/
theorem Lawful.beside {t : Task σ α} {held : List Nat} (h : t.Lawful line l)
    (ho : l.Ordered start (held ++ (t.holders line ++ rest)))
    (hsame : held = [] → l'.trace = l.trace ∧ l'.isOpen = l.isOpen) : t.Lawful line l' := by
  refine h.carry fun hne => hsame ?_
  cases held with
  | nil => rfl
  | cons s others =>
    obtain ⟨-, hnil, -⟩ := ho.held_eq (List.Perm.refl _)
    exact absurd (List.append_eq_nil_iff.mp (List.append_eq_nil_iff.mp hnil).2).1 hne

theorem Lawful.quit {t : Task σ α} (h : t.Lawful line l)
    (ho : l.Ordered start (t.holders line ++ rest)) (hs : l.Settled) :
    (t.quit line l).Settled ∧ (t.holders line = [] → l.Same (t.quit line l)) := by
  induction t generalizing l rest with
  | sending n stage command next ih =>
    rw [Task.quit, if_neg h.1]
    exact ⟨hs, fun _ => .refl l⟩
  | holding n stage work next ihwork ihnext =>
    rw [Task.holders, List.append_assoc] at ho
    rw [Task.quit, Task.holders]
    have hwork := h.1
    by_cases hn : line = n
    · rw [if_pos hn] at hwork ho ⊢
      rw [if_pos hn]
      cases stage with
      | fresh =>
        have hsame := (hwork 0).quit l
        exact ⟨hs.same hsame, fun _ => hsame⟩
      | queued ticket =>
        have hsame := ((hwork 0).quit l).trans (.withdrawSession _ ticket)
        exact ⟨hs.same hsame, fun _ => hsame⟩
      | granted session =>
        have hsame : l.Same (quit line work l) := hwork.elim (·.quit l) (·.quit l)
        have hleft := quit_ordered (ho.perm (List.perm_append_comm_assoc _ _ _))
        refine ⟨(hs.same hsame).leaveSession hleft, fun hnil => ?_⟩
        exact absurd (List.append_eq_nil_iff.mp hnil).1 (by simp [Stage.granted?])
    · rw [if_neg hn] at hwork ho ⊢
      rw [if_neg hn]
      exact ihwork hwork ho hs
  | both left right next ihleft ihright ihnext =>
    rw [Task.holders, List.append_assoc] at ho
    obtain ⟨hleft, hsame⟩ := ihleft h.1 ho hs
    have hbeside := h.2.1.beside ho fun hnil => ⟨(hsame hnil).trace, (hsame hnil).isOpen⟩
    obtain ⟨hright, hsame'⟩ := ihright hbeside (quit_ordered ho) hleft
    refine ⟨hright, fun hnil => ?_⟩
    rw [Task.holders, List.append_eq_nil_iff] at hnil
    exact (hsame hnil.1).trans (hsame' hnil.2)
  | limited work next ihwork ihnext => exact ihwork h.1 ho hs
  | _ => exact ⟨hs, fun _ => .refl l⟩

/-- Every step of tasks that keep to the protocol leaves a line settled, and the line is as it was
unless the session is held. -/
theorem Moves.lawful {sessions : Sessions} {t t' : Task σ α} {w w' : World σ κ}
    (h : t.Moves sessions w t' w') (ht : t.Lawful line (w.lines line))
    (ho : (w.lines line).Ordered start (t.holders line ++ rest)) (hs : (w.lines line).Settled) :
    t'.Lawful line (w'.lines line) ∧ (w'.lines line).Settled ∧
      (t.holders line = [] → (w'.lines line).trace = (w.lines line).trace ∧
        (w'.lines line).isOpen = (w.lines line).isOpen) := by
  induction h generalizing rest with
  | @note α sessions w change next => exact ⟨(ht w.notes).1, hs, fun _ => ⟨rfl, rfl⟩⟩
  | @mark α sessions w n isOpen next =>
    rw [World.onLine_lines, if_neg ht.1]
    exact ⟨ht.2.1, hs, fun _ => ⟨rfl, rfl⟩⟩
  | @askLane α sessions w n command next =>
    rw [World.onLine_lines, if_neg ht.1]
    exact ⟨ht, hs, fun _ => ⟨rfl, rfl⟩⟩
  | @dispatch α sessions w n seat command next hnext =>
    rw [World.onLine_lines, if_neg ht.1]
    exact ⟨ht, hs, fun _ => ⟨rfl, rfl⟩⟩
  | @collect α sessions w n seat command next entry hentry hseat =>
    exact ⟨(ht.2 entry.reply).1, hs, fun _ => ⟨rfl, rfl⟩⟩
  | @askSession α β sessions w n work next =>
    rw [World.onLine_lines]
    by_cases hn : line = n
    · rw [if_pos hn]
      have hsame := Line.Same.askSession (w.lines line)
      refine ⟨?_, hs.same hsame, fun _ => ⟨hsame.trace, hsame.isOpen⟩⟩
      have hwork := ht.1
      rw [if_pos hn] at hwork
      have hlawful : Lawful line (w.lines line) (.holding n (.queued (w.lines n).issued) work next) :=
        ⟨by rw [if_pos hn]; exact hwork, ht.2⟩
      exact hlawful.carry fun _ => ⟨hsame.trace, hsame.isOpen⟩
    · rw [if_neg hn]
      refine ⟨⟨?_, ht.2⟩, hs, fun _ => ⟨rfl, rfl⟩⟩
      rw [if_neg hn]
      exact (if_neg hn).mp ht.1
  | @grantSession α β sessions w n ticket work next hnext =>
    obtain ⟨hwork, hafter⟩ := ht
    rw [World.onLine_lines]
    by_cases hn : line = n
    · subst hn
      rw [if_pos rfl] at hwork ⊢
      refine ⟨⟨?_, fun b => ⟨(hafter b).1.unheld (hafter b).2, (hafter b).2⟩⟩,
        hs.grantSession hnext, fun _ => ⟨rfl, rfl⟩⟩
      obtain ⟨hfree, others, hothers⟩ := Lock.isNext_iff.mp hnext
      have hfresh : (w.lines line).phase ticket = .fresh := ho.phase_waiting (by simp [hothers])
      have hclosed : (w.lines line).isOpen = false :=
        Bool.eq_false_iff.mpr fun hopen => (hs.noted hopen).1 hfree
      rw [if_pos rfl]
      left
      change Follows line ticket ((w.lines line).phase ticket) (w.lines line).isOpen work
      rw [hfresh, hclosed]
      exact hwork ticket
    · rw [if_neg hn] at hwork ⊢
      refine ⟨⟨?_, hafter⟩, hs, fun _ => ⟨rfl, rfl⟩⟩
      rw [if_neg hn]
      exact hwork
  | @inside α β sessions w w' n ticket work work' next h ih =>
    rw [Task.holders, List.append_assoc] at ho
    rw [Task.holders]
    obtain ⟨hwork, hafter⟩ := ht
    by_cases hn : line = n
    · subst hn
      rw [if_pos rfl] at hwork ho ⊢
      obtain ⟨howner, -, hnone⟩ := ho.held_eq (List.Perm.refl _)
      have hsession : sessions.enter line ticket line = ticket := if_pos rfl
      suffices hmoved : (work'.Follows line ticket ((w'.lines line).phase ticket)
          (w'.lines line).isOpen ∨ work'.Awaits line ticket (w'.lines line)) ∧
          (w.lines line).Conducts ticket (w'.lines line) by
        refine ⟨⟨?_, fun b => ⟨(hafter b).1.unheld (hafter b).2, (hafter b).2⟩⟩,
          hmoved.2.settled ho hs howner hnone,
          fun hnil => absurd (List.append_eq_nil_iff.mp hnil).1 (by simp [Stage.granted?])⟩
        rw [if_pos rfl]
        exact hmoved.1
      rcases hwork with hwork | hwork
      · have hmoved := Follows.moves h ho (hsession.symm ▸ hwork)
        rwa [hsession] at hmoved
      · have hmoved := Awaits.moves h (hsession.symm ▸ hwork)
        rw [hsession] at hmoved
        exact ⟨.inl hmoved.1, .same hmoved.2⟩
    · rw [if_neg hn] at hwork ho ⊢
      obtain ⟨hlawful, hsettled, hsame⟩ := ih hwork ho hs
      refine ⟨⟨?_, fun b => ⟨(hafter b).1.unheld (hafter b).2, (hafter b).2⟩⟩, hsettled, hsame⟩
      rw [if_neg hn]
      exact hlawful
  | @leaveSession α β sessions w n ticket b next =>
    obtain ⟨-, hafter⟩ := ht
    rw [Task.holders, List.append_assoc] at ho
    rw [World.onLine_lines, Task.holders]
    by_cases hn : line = n
    · rw [if_pos hn] at ho ⊢
      rw [if_pos hn]
      exact ⟨(hafter b).1.unheld (hafter b).2, hs.leaveSession ho,
        fun hnil => absurd (List.append_eq_nil_iff.mp hnil).1 (by simp [Stage.granted?])⟩
    · rw [if_neg hn]
      exact ⟨(hafter b).1, hs, fun _ => ⟨rfl, rfl⟩⟩
  | @left α β γ sessions w w' t t' right next h ih =>
    rw [Task.holders, List.append_assoc] at ho
    obtain ⟨hleft, hright, hafter⟩ := ht
    obtain ⟨hmoved, hsettled, hsame⟩ := ih hleft ho hs
    refine ⟨⟨hmoved, hright.beside ho hsame,
      fun b c => ⟨(hafter b c).1.unheld (hafter b c).2, (hafter b c).2⟩⟩, hsettled, fun hnil => ?_⟩
    exact hsame (List.append_eq_nil_iff.mp hnil).1
  | @right α β γ sessions w w' left t t' next h ih =>
    rw [Task.holders, List.append_assoc] at ho
    have ho' := ho.perm (List.perm_append_comm_assoc _ _ _)
    obtain ⟨hleft, hright, hafter⟩ := ht
    obtain ⟨hmoved, hsettled, hsame⟩ := ih hright ho' hs
    refine ⟨⟨hleft.beside ho' hsame, hmoved,
      fun b c => ⟨(hafter b c).1.unheld (hafter b c).2, (hafter b c).2⟩⟩, hsettled, fun hnil => ?_⟩
    exact hsame (List.append_eq_nil_iff.mp hnil).2
  | @join α β γ sessions w b c next => exact ⟨(ht.2.2 b c).1, hs, fun _ => ⟨rfl, rfl⟩⟩
  | @within α β sessions w w' work work' next h ih =>
    obtain ⟨hwork, hafter⟩ := ht
    obtain ⟨hmoved, hsettled, hsame⟩ := ih hwork ho hs
    exact ⟨⟨hmoved, fun b => ⟨(hafter b).1.unheld (hafter b).2, (hafter b).2⟩⟩, hsettled, hsame⟩
  | @finish α β sessions w b next => exact ⟨(ht.2 (some b)).1, hs, fun _ => ⟨rfl, rfl⟩⟩
  | @giveUp α β sessions w work next =>
    obtain ⟨hwork, hafter⟩ := ht
    obtain ⟨hsettled, hsame⟩ := hwork.quit ho hs
    exact ⟨(hafter none).1.unheld (hafter none).2, hsettled,
      fun hnil => ⟨(hsame hnil).trace, (hsame hnil).isOpen⟩⟩

end Task

/-- Without a rollback that a session is kept for, jobs do what is expected of them already. -/
theorem Line.Works.same [Endpoint κ] {start : κ} {held : List Nat} {l l' : Line κ}
    (h : l.Works l') (ho : l.Ordered start held) (hnone : l.undoing = []) :
    l'.trace = l.trace ∧ l'.isOpen = l.isOpen := by
  cases h with
  | @askLane before after job hjobs hundo hstage =>
    exact absurd (hnone ▸ mem_undoing (by simp [hjobs]) hundo) List.not_mem_nil
  | @grantLane before after job seat hjobs hundo hstage hnext =>
    exact absurd (hnone ▸ mem_undoing (by simp [hjobs]) hundo) List.not_mem_nil
  | @perform before after job seat hjobs hstage => exact ⟨ho.trace_perform hjobs hstage _, rfl⟩

/-- Whatever is reached by any interleaving, from tasks that keep to the protocol and have not been
started, leaves a line settled. -/
theorem Reaches.settled [Endpoint κ] {start : κ} {line : Nat} {sessions : Sessions}
    {t t' : Task σ α} {w w' : World σ κ} (h : Reaches sessions (t, w) (t', w'))
    (ht : t.Lawful line (w.lines line)) (hnone : t.holders line = [])
    (ho : (w.lines line).Ordered start []) (hs : (w.lines line).Settled) :
    (w'.lines line).Ordered start (t'.holders line) ∧ (w'.lines line).Settled := by
  suffices hinv : ∀ state, Reaches sessions (t, w) state →
      (state.2.lines line).Settled ∧ state.1.Lawful line (state.2.lines line) ∧
        state.1.Orderly line false ∧ (state.2.lines line).Ordered start (state.1.holders line) from
    ⟨(hinv (t', w') h).2.2.2, (hinv (t', w') h).1⟩
  intro state hreach
  induction hreach with
  | refl => exact ⟨hs, ht, ht.orderly hnone, hnone ▸ ho⟩
  | @tail state next _ hstep ih =>
    obtain ⟨hsettled, hlawful, horderly, hordered⟩ := ih
    cases hstep with
    | task h =>
      rw [← List.append_nil (Task.holders _ _)] at hordered
      obtain ⟨hlawful', hsettled', -⟩ := h.lawful hlawful hordered hsettled
      obtain ⟨horderly', hordered'⟩ := h.ordered horderly (absurd · Bool.false_ne_true) hordered
      exact ⟨hsettled', hlawful', horderly', List.append_nil (Task.holders _ _) ▸ hordered'⟩
    | @job u v n l hworks =>
      rw [World.onLine_lines]
      split
      · next hn =>
        subst hn
        refine ⟨hsettled.works hordered hworks, hlawful.carry fun hne => ?_, horderly,
          hordered.works hworks⟩
        refine hworks.same hordered ?_
        cases hheld : u.holders line with
        | nil => exact absurd hheld hne
        | cons s others =>
          rw [hheld] at hordered
          exact (hordered.held_eq (List.Perm.refl _)).2.2
      · exact ⟨hsettled, hlawful, horderly, hordered⟩

end Polystore.Transaction
