import Polystore.Proofs.Transaction.Order

/-!
How far a session has come. The commands of a session, with their replies, tell whether it has a
transaction open. A line is settled if nobody but the holder of its session can have one, and if the
holder has noted it, or has left it to a rollback. Every step of an executor keeps a line settled.
-/

namespace Polystore.Transaction

variable {κ : Type}

/-- Commands that leave a transaction open. -/
def Command.isInner : Command → Bool
  | .execute _ _ | .savepoint _ | .release _ | .rollbackTo _ => true
  | .begin _ | .commit | .rollback => false

/-- How far a session has come. -/
inductive Phase where
  /-- Nothing has been sent yet. -/
  | fresh
  /-- A statement has been sent outside of any transaction. -/
  | stated
  /-- All transactions have been rolled back. -/
  | idle
  | begun
  | committed
  /-- No executor does that. -/
  | broken
deriving DecidableEq

namespace Phase

/-- Where a command with its reply leads to, if rollbacks do not fail. -/
def next (p : Phase) (command : Command) (reply : Reply) : Phase :=
  match p, command with
  | .fresh, .execute _ _ => .stated
  | .fresh, .begin _ | .idle, .begin _ => if reply.outcome.isOk then .begun else .idle
  | .fresh, .rollback | .idle, .rollback | .begun, .rollback => .idle
  | .begun, .commit => if reply.outcome.isOk then .committed else .begun
  | .begun, .execute _ _ | .begun, .savepoint _ | .begun, .release _ | .begun, .rollbackTo _ => .begun
  | .committed, .rollback => .committed
  | _, _ => .broken

/-- What the note about a transaction in progress may be in a phase: a transaction that is not in
progress is not open, and one that is may be rolled back. -/
def Fits (p : Phase) (isOpen : Bool) : Prop :=
  p ≠ .broken ∧ if isOpen then p ≠ .stated else p ≠ .begun

instance (p : Phase) (isOpen : Bool) : Decidable (p.Fits isOpen) :=
  inferInstanceAs (Decidable (p ≠ .broken ∧ if isOpen then p ≠ .stated else p ≠ .begun))

theorem stated_fits : stated.Fits false := by
  decide

theorem idle_fits (isOpen : Bool) : idle.Fits isOpen := by
  cases isOpen <;> decide

theorem committed_fits (isOpen : Bool) : committed.Fits isOpen := by
  cases isOpen <;> decide

/-- A command may be sent while such a note is there. -/
def Allows (p : Phase) (isOpen : Bool) (command : Command) : Prop :=
  ∀ reply, (p.next command reply).Fits isOpen

/-- The phase after some entries. -/
def after (p : Phase) (log : List Entry) : Phase :=
  log.foldl (fun p entry => p.next entry.command entry.reply) p

theorem next_inner {command : Command} (h : command.isInner) (reply : Reply) :
    begun.next command reply = begun := by
  cases command <;> first | rfl | cases h

theorem next_rollback {p : Phase} (h : p.Fits true) (reply : Reply) :
    (p.next .rollback reply).Fits false := by
  cases p <;> simp_all [Fits, next]

end Phase

/-- The lines differ in no more than who waits for them. -/
structure Line.Same (l l' : Line κ) : Prop where
  endpoint : l'.endpoint = l.endpoint
  history : l'.history = l.history
  jobs : l'.jobs = l.jobs
  isOpen : l'.isOpen = l.isOpen
  owner : l'.session.owner = l.session.owner

namespace Line.Same

theorem refl (l : Line κ) : l.Same l :=
  ⟨rfl, rfl, rfl, rfl, rfl⟩

theorem trans {l₁ l₂ l₃ : Line κ} (h : l₁.Same l₂) (h' : l₂.Same l₃) : l₁.Same l₃ :=
  ⟨h'.endpoint.trans h.endpoint, h'.history.trans h.history, h'.jobs.trans h.jobs,
    h'.isOpen.trans h.isOpen, h'.owner.trans h.owner⟩

theorem askSession (l : Line κ) : l.Same l.askSession :=
  ⟨rfl, rfl, rfl, rfl, rfl⟩

theorem withdrawSession (l : Line κ) (ticket : Nat) :
    l.Same { l with session := l.session.withdraw ticket } :=
  ⟨rfl, rfl, rfl, rfl, rfl⟩

theorem askLane (l : Line κ) (session : Nat) : l.Same (l.askLane session) :=
  ⟨rfl, rfl, rfl, rfl, rfl⟩

theorem quitLane (l : Line κ) (stage : Stage Seat) : l.Same (l.quitLane stage) := by
  cases stage <;> exact ⟨rfl, rfl, rfl, rfl, rfl⟩

end Line.Same

variable [Endpoint κ]

/-- A command under way with the reply that it will have. -/
def Job.entry? (endpoint : κ) (job : Job) : Option Entry :=
  job.seat?.map fun seat => ⟨seat, job.command, (Endpoint.perform job.command endpoint).1⟩

namespace Line

def underway (l : Line κ) : List Entry :=
  l.jobs.filterMap (Job.entry? l.endpoint)

/-- All commands so far, the one under way among them. -/
def trace (l : Line κ) : List Entry :=
  l.history ++ l.underway

def phase (l : Line κ) (session : Nat) : Phase :=
  Phase.fresh.after (l.trace.filter fun entry => entry.seat.session = session)

theorem Same.trace {l l' : Line κ} (h : l.Same l') : l'.trace = l.trace := by
  rw [Line.trace, Line.trace, Line.underway, Line.underway, h.endpoint, h.history, h.jobs]

omit [Endpoint κ] in
theorem mem_undoing {l : Line κ} {job : Job} (hjob : job ∈ l.jobs) (hundo : job.isUndo = true) :
    job.session ∈ l.undoing :=
  List.mem_filterMap.mpr ⟨job, hjob, by rw [Job.kept?, if_pos hundo]⟩

theorem underway_nil {l : Line κ} (h : l.running = []) : l.underway = [] := by
  rw [running, List.filterMap_eq_nil_iff] at h
  rw [underway, List.filterMap_eq_nil_iff]
  intro job hjob
  rw [Job.entry?, h job hjob, Option.map_none]

/-- A job that is not under way may come closer to it. -/
theorem trace_stage {l l' : Line κ} {before after : List Job} {job : Job} {stage : Stage Seat}
    (hjobs : l.jobs = before ++ job :: after)
    (hjobs' : l'.jobs = before ++ { job with stage } :: after) (hseat : job.seat? = none)
    (hstage : stage.granted? = none) (hendpoint : l'.endpoint = l.endpoint)
    (hhistory : l'.history = l.history) : l'.trace = l.trace := by
  have hentry : job.entry? l.endpoint = none := by rw [Job.entry?, hseat, Option.map_none]
  have hentry' : Job.entry? l.endpoint { job with stage } = none := by
    rw [Job.entry?, Job.seat?, hstage, Option.map_none]
  rw [trace, trace, underway, underway, hendpoint, hhistory, hjobs, hjobs', List.filterMap_append,
    List.filterMap_append, List.filterMap_cons_none hentry, List.filterMap_cons_none hentry']

theorem underway_seats (l : Line κ) : l.underway.map Entry.seat = l.running := by
  rw [underway, running, List.map_filterMap]
  refine congrArg (List.filterMap · l.jobs) (funext fun job => ?_)
  rw [Job.entry?, Option.map_map]
  exact Option.map_id'

theorem phase_append {l l' : Line κ} {entry : Entry} (h : l'.trace = l.trace ++ [entry]) (s : Nat) :
    l'.phase s =
      if entry.seat.session = s then (l.phase s).next entry.command entry.reply else l.phase s := by
  rw [phase, phase, h, List.filter_append]
  split
  · next hs =>
    rw [List.filter_cons_of_pos (by simpa using hs), Phase.after, List.foldl_append]
    rfl
  · next hs => rw [List.filter_cons_of_neg (by simpa using hs), List.filter_nil, List.append_nil]

theorem phase_congr {l l' : Line κ} (h : l'.trace = l.trace) (s : Nat) : l'.phase s = l.phase s := by
  rw [phase, phase, h]

namespace Ordered

variable {start : κ} {held : List Nat} {l : Line κ}

theorem trace_seats (h : l.Ordered start held) :
    l.trace.map Entry.seat = l.history.map Entry.seat ++ l.lane.owner.toList := by
  rw [Line.trace, List.map_append, underway_seats, h.running]

theorem seat_of_trace (h : l.Ordered start held) {entry : Entry} (he : entry ∈ l.trace) :
    entry.seat ∈ l.seats := by
  have hmem := List.mem_map_of_mem (f := Entry.seat) he
  rw [h.trace_seats] at hmem
  rw [Line.seats, ← List.append_assoc]
  exact List.mem_append_left _ hmem

theorem trace_sorted (h : l.Ordered start held) :
    l.trace.Pairwise fun a b => a.seat.session ≤ b.seat.session := by
  have hseats := h.seats
  rw [Line.seats, ← List.append_assoc, ← h.trace_seats] at hseats
  exact (List.pairwise_map.mp (List.pairwise_append.mp hseats).1).imp fun hbefore => hbefore.1

/-- Nothing has been sent on behalf of a session that is still waited for. -/
theorem phase_waiting (h : l.Ordered start held) {t : Nat} (ht : t ∈ l.session.waiting) :
    l.phase t = .fresh := by
  have hnone : (l.trace.filter fun entry => entry.seat.session = t) = [] := by
    rw [List.filter_eq_nil_iff]
    intro entry he
    have hlt := h.waited _ (h.seat_of_trace he) t ht
    simpa using Nat.ne_of_lt hlt
  rw [phase, hnone]
  rfl

theorem seat_unused (h : l.Ordered start held) {seat : Seat} (hnext : l.lane.isNext seat)
    {entry : Entry} (he : entry ∈ l.trace) : entry.seat ≠ seat := by
  obtain ⟨hfree, rest, hrest⟩ := Lock.isNext_iff.mp hnext
  have hmem := List.mem_map_of_mem (f := Entry.seat) he
  rw [h.trace_seats, hfree, Option.toList_none, List.append_nil] at hmem
  have hpairs := (List.pairwise_append.mp h.seats).2.2 _ hmem seat (by simp [hfree, hrest])
  intro heq
  rw [heq] at hpairs
  exact Nat.lt_irrefl _ hpairs.2

/-- A command whose turn it is becomes the last one of the trace. -/
theorem trace_grant (h : l.Ordered start held) {before after : List Job} {job : Job} {seat : Seat}
    {l' : Line κ} (hnext : l.lane.isNext seat) (hjobs : l'.jobs = before ++ job :: after)
    (hothers : ∀ other ∈ before ++ after, other.seat? = none) (hseat : job.seat? = some seat)
    (hendpoint : l'.endpoint = l.endpoint) (hhistory : l'.history = l.history) :
    l'.trace = l.trace ++ [⟨seat, job.command, (Endpoint.perform job.command l.endpoint).1⟩] := by
  obtain ⟨hfree, -⟩ := Lock.isNext_iff.mp hnext
  have hidle : l.running = [] := by rw [h.running, hfree, Option.toList_none]
  have hentry : job.entry? l.endpoint =
      some ⟨seat, job.command, (Endpoint.perform job.command l.endpoint).1⟩ := by
    rw [Job.entry?, hseat, Option.map_some]
  have hnone (jobs : List Job) (hjobs : ∀ other ∈ jobs, other.seat? = none) :
      jobs.filterMap (Job.entry? l.endpoint) = [] := by
    rw [List.filterMap_eq_nil_iff]
    intro other hother
    rw [Job.entry?, hjobs other hother, Option.map_none]
  rw [Line.trace, Line.trace, underway_nil hidle, hhistory, Line.underway, hendpoint, hjobs,
    List.filterMap_append, List.filterMap_cons_some hentry, List.append_nil,
    hnone before fun other ho => hothers other (List.mem_append_left _ ho),
    hnone after fun other ho => hothers other (List.mem_append_right _ ho), List.nil_append]

theorem trace_dispatch (h : l.Ordered start held) {seat : Seat} (command : Command)
    (hnext : l.lane.isNext seat) : (l.dispatch seat command).trace =
      l.trace ++ [⟨seat, command, (Endpoint.perform command l.endpoint).1⟩] := by
  obtain ⟨hfree, -⟩ := Lock.isNext_iff.mp hnext
  have hidle : l.running = [] := by rw [h.running, hfree, Option.toList_none]
  rw [Line.running, List.filterMap_eq_nil_iff] at hidle
  have hjobs : (l.dispatch seat command).jobs =
      l.jobs ++ [⟨seat.session, command, .granted seat, false⟩] := rfl
  exact h.trace_grant hnext hjobs (by simpa using hidle) rfl rfl rfl

/-- There is one rollback at most that a session is kept for. -/
theorem sole_undo (h : l.Ordered start held) {before after : List Job} {job : Job}
    (hjobs : l.jobs = before ++ job :: after) (hundo : job.isUndo = true) :
    ∀ other ∈ before ++ after, other.isUndo ≠ true := by
  have hkept : job.kept? = some job.session := by rw [Job.kept?, if_pos hundo]
  have howner := h.owner_of_undoing (mem_undoing (by simp [hjobs]) hundo)
  have hlength := h.owner.length_eq
  rw [howner, Line.undoing, hjobs, List.filterMap_append, List.filterMap_cons_some hkept] at hlength
  simp only [List.length_append, List.length_cons, Option.toList_some, List.length_nil] at hlength
  intro other hother hother'
  have hmem : other.session ∈ (before ++ after).filterMap Job.kept? :=
    List.mem_filterMap.mpr ⟨other, hother, by rw [Job.kept?, if_pos hother']⟩
  have hpos := List.length_pos_of_mem hmem
  rw [List.filterMap_append, List.length_append] at hpos
  omega

theorem trace_perform (h : l.Ordered start held) {before after : List Job} {job : Job} {seat : Seat}
    (hjobs : l.jobs = before ++ job :: after) (hstage : job.stage = .granted seat)
    (session : Lock Nat) :
    ({ (l.perform seat job.command).2 with
        session
        lane := l.lane.release
        jobs := before ++ after } : Line κ).trace = l.trace := by
  have hentry : job.entry? l.endpoint =
      some ⟨seat, job.command, (Endpoint.perform job.command l.endpoint).1⟩ := by
    rw [Job.entry?, Job.seat?, hstage]
    rfl
  have hidle : (before ++ after).filterMap Job.seat? = [] := (h.perform hjobs hstage).running
  have hnone (endpoint : κ) : (before ++ after).filterMap (Job.entry? endpoint) = [] := by
    rw [List.filterMap_eq_nil_iff] at hidle ⊢
    intro other hother
    rw [Job.entry?, hidle other hother, Option.map_none]
  have hunderway : l.underway =
      [⟨seat, job.command, (Endpoint.perform job.command l.endpoint).1⟩] := by
    have hboth := hnone l.endpoint
    rw [List.filterMap_append, List.append_eq_nil_iff] at hboth
    rw [Line.underway, hjobs, List.filterMap_append, List.filterMap_cons_some hentry, hboth.1,
      hboth.2, List.nil_append]
  rw [Line.trace, Line.trace, hunderway]
  change (l.history ++ [_]) ++ (before ++ after).filterMap (Job.entry? _) = _
  rw [hnone, List.append_nil]
  rfl

end Ordered

/-- A line on which transactions are closed in time. -/
structure Settled (l : Line κ) : Prop where
  closed : ∀ s, l.session.owner ≠ some s → (l.phase s).Fits false
  holder : ∀ s, l.session.owner = some s → l.undoing = [] → (l.phase s).Fits l.isOpen
  noted : l.isOpen = true → l.session.owner ≠ none ∧ l.undoing = []
  undo : ∀ job ∈ l.jobs, job.isUndo = true → job.command = .rollback ∧
    (∀ seat, job.stage = .queued seat ∨ job.stage = .granted seat → seat.session = job.session) ∧
    (l.phase job.session).Fits (!job.seat?.isSome)

namespace Settled

variable {start : κ} {held : List Nat} {l l' : Line κ}

theorem idle {endpoint : κ} {issued : Nat} : ({ endpoint, issued } : Line κ).Settled where
  closed _ _ := ⟨nofun, nofun⟩
  holder _ howner := nomatch howner
  noted hopen := nomatch hopen
  undo _ hjob := nomatch hjob

theorem same (h : l.Settled) (hsame : l.Same l') : l'.Settled := by
  have hphase := phase_congr hsame.trace
  have hundoing : l'.undoing = l.undoing := by rw [Line.undoing, Line.undoing, hsame.jobs]
  constructor
  · intro s howner
    rw [hphase]
    exact h.closed s (hsame.owner ▸ howner)
  · intro s howner hnone
    rw [hphase, hsame.isOpen]
    exact h.holder s (hsame.owner ▸ howner) (hundoing ▸ hnone)
  · rw [hsame.isOpen, hsame.owner, hundoing]
    exact h.noted
  · intro job hjob hundo
    rw [hphase]
    exact h.undo job (hsame.jobs ▸ hjob) hundo

theorem mark (h : l.Settled) {s : Nat} (howner : l.session.owner = some s) (hnone : l.undoing = [])
    {isOpen : Bool} (hfits : (l.phase s).Fits isOpen) : (l.mark isOpen).Settled where
  closed := h.closed
  holder t ht _ := by
    obtain rfl : s = t := Option.some.inj (howner.symm.trans ht)
    exact hfits
  noted _ := ⟨by simp [Line.mark, howner], hnone⟩
  undo := h.undo

theorem dispatch (h : l.Settled) (ho : l.Ordered start held) (hnone : l.undoing = [])
    {seat : Seat} {command : Command} (howner : l.session.owner = some seat.session)
    (hnext : l.lane.isNext seat) (hallows : (l.phase seat.session).Allows l.isOpen command) :
    (l.dispatch seat command).Settled := by
  have hphase := phase_append (ho.trace_dispatch command hnext)
  constructor
  · intro s hs
    have hne : seat.session ≠ s := fun heq => hs (heq ▸ howner)
    rw [hphase, if_neg hne]
    exact h.closed s hs
  · intro s hs _
    obtain rfl : seat.session = s := Option.some.inj (howner.symm.trans hs)
    rw [hphase, if_pos rfl]
    exact hallows _
  · intro hopen
    refine ⟨(h.noted hopen).1, ?_⟩
    change (l.jobs ++ [_]).filterMap Job.kept? = []
    rw [List.filterMap_append]
    exact List.append_eq_nil_iff.mpr ⟨hnone, rfl⟩
  · intro job hjob hundo
    rcases List.mem_append.mp hjob with hjob | hjob
    · exact absurd (hnone ▸ mem_undoing hjob hundo) List.not_mem_nil
    · rw [List.mem_singleton.mp hjob] at hundo
      exact absurd hundo Bool.false_ne_true

theorem grantSession (h : l.Settled) {t : Nat} (hnext : l.session.isNext t) : (l.grantSession t).Settled := by
  obtain ⟨hfree, rest, hrest⟩ := Lock.isNext_iff.mp hnext
  have hclosed : l.isOpen = false := by
    cases hopen : l.isOpen with
    | false => rfl
    | true => exact absurd hfree (h.noted hopen).1
  constructor
  · exact fun s _ => h.closed s (by simp [hfree])
  · intro s hs _
    change (l.phase s).Fits l.isOpen
    rw [hclosed]
    exact h.closed s (by simp [hfree])
  · intro hopen
    exact absurd (hclosed.symm.trans hopen) Bool.false_ne_true
  · exact h.undo

/-- Who leaves the session has no transaction open, or leaves it to a rollback. -/
theorem leaveSession (h : l.Settled) {t : Nat} (ho : l.Ordered start (t :: held)) :
    (l.leaveSession t).Settled := by
  obtain ⟨howner, rfl, hnone⟩ := ho.held_eq (List.Perm.refl _)
  have hfits := h.holder t howner hnone
  rw [Line.leaveSession]
  split
  · next hopen =>
    rw [hopen] at hfits
    have htrace : ({ l with
        isOpen := false
        jobs := l.jobs ++ [⟨t, .rollback, .fresh, true⟩] } : Line κ).trace = l.trace := by
      simp [Line.trace, Line.underway, Job.entry?, Job.seat?, Stage.granted?]
    have hphase := phase_congr htrace
    constructor
    · intro s hs
      rw [hphase]
      exact h.closed s hs
    · intro s _ hnil
      simp [Line.undoing, Job.kept?] at hnil
    · exact fun hfalse => absurd hfalse Bool.false_ne_true
    · intro job hjob hundo
      rw [hphase]
      rcases List.mem_append.mp hjob with hjob | hjob
      · exact absurd (hnone ▸ mem_undoing hjob hundo) List.not_mem_nil
      · rw [List.mem_singleton.mp hjob]
        exact ⟨rfl, fun seat hseat => by simp at hseat, hfits⟩
  · next hopen =>
    rw [Bool.eq_false_iff.mpr hopen] at hfits
    constructor
    · intro s _
      by_cases hs : t = s
      · subst hs
        exact hfits
      · exact h.closed s (by simp [howner, hs])
    · intro s hs
      cases hs
    · exact fun htrue => absurd htrue hopen
    · exact h.undo

section Jobs

variable {before after : List Job} {job : Job} {seat : Seat}

/-- A rollback that a session is kept for joins the queue. -/
theorem askUndo (h : l.Settled) (hjobs : l.jobs = before ++ job :: after)
    (hundo : job.isUndo = true) (hstage : job.stage = .fresh) :
    ({ l.askLane job.session with
      jobs := before ++ { job with stage := .queued (l.nextSeat job.session) } :: after } :
        Line κ).Settled := by
  have hmem : job ∈ l.jobs := by simp [hjobs]
  have hseat : job.seat? = none := by rw [Job.seat?, hstage]; rfl
  have hold := h.undo job hmem hundo
  rw [hseat] at hold
  have htrace : ({ l.askLane job.session with
      jobs := before ++ { job with stage := .queued (l.nextSeat job.session) } :: after } :
        Line κ).trace = l.trace := trace_stage hjobs rfl hseat rfl rfl rfl
  have hphase := phase_congr htrace
  have hundoing : (before ++ { job with stage := .queued (l.nextSeat job.session) } :: after).filterMap
      Job.kept? = l.undoing := by
    rw [Line.undoing, hjobs, filterMap_kept?]
  constructor
  · intro s hs
    rw [hphase]
    exact h.closed s hs
  · intro s hs hnil
    rw [hphase]
    exact h.holder s hs (hundoing ▸ hnil)
  · intro hopen
    exact ⟨(h.noted hopen).1, hundoing.trans (h.noted hopen).2⟩
  · intro other hother hundo'
    rw [hphase]
    rcases List.mem_append.mp hother with hother | hother
    · exact h.undo other (by simp [hjobs, hother]) hundo'
    rcases List.mem_cons.mp hother with rfl | hother
    · refine ⟨hold.1, fun seat hseat => ?_, hold.2.2⟩
      rcases hseat with hseat | hseat
      · cases hseat
        rfl
      · cases hseat
    · exact h.undo other (by simp [hjobs, hother]) hundo'

theorem grantUndo (h : l.Settled) (ho : l.Ordered start held)
    (hjobs : l.jobs = before ++ job :: after) (hundo : job.isUndo = true)
    (hstage : job.stage = .queued seat) (hnext : l.lane.isNext seat) :
    ({ l with
      lane := l.lane.grant seat
      jobs := before ++ { job with stage := .granted seat } :: after } : Line κ).Settled := by
  have hmem : job ∈ l.jobs := by simp [hjobs]
  have hseat : job.seat? = none := by rw [Job.seat?, hstage]; rfl
  have hold := h.undo job hmem hundo
  rw [hseat] at hold
  have hsession := hold.2.1 seat (.inl hstage)
  have howner := ho.owner_of_undoing (mem_undoing hmem hundo)
  have hothers := ho.sole_undo hjobs hundo
  have hidle := ho.running
  rw [(Lock.isNext_iff.mp hnext).1, Option.toList_none, Line.running, hjobs,
    List.filterMap_eq_nil_iff] at hidle
  have hwaiting : ∀ other ∈ before ++ after, other.seat? = none := by
    intro other hother
    refine hidle other ?_
    rcases List.mem_append.mp hother with hother | hother <;> simp [hother]
  have hgranted : ({ l with
      lane := l.lane.grant seat
      jobs := before ++ { job with stage := .granted seat } :: after } : Line κ).jobs =
        before ++ { job with stage := .granted seat } :: after := rfl
  have htrace := ho.trace_grant hnext hgranted hwaiting rfl rfl rfl
  have hphase := phase_append htrace
  have hundoing : (before ++ { job with stage := .granted seat } :: after).filterMap Job.kept? =
      l.undoing := by
    rw [Line.undoing, hjobs, filterMap_kept?]
  have hnone : l.undoing ≠ [] := List.ne_nil_of_mem (mem_undoing hmem hundo)
  constructor
  · intro s hs
    have hne : seat.session ≠ s := fun heq => hs (heq ▸ hsession ▸ howner)
    rw [hphase, if_neg hne]
    exact h.closed s hs
  · intro s _ hnil
    exact absurd (hundoing ▸ hnil) hnone
  · intro hopen
    exact absurd (h.noted hopen).2 hnone
  · intro other hother hundo'
    rcases List.mem_append.mp hother with hother | hother
    · exact absurd hundo' (hothers other (List.mem_append_left _ hother))
    rcases List.mem_cons.mp hother with rfl | hother
    · refine ⟨hold.1, fun other hother => ?_, ?_⟩
      · rcases hother with hother | hother
        · cases hother
        · cases hother
          exact hsession
      · rw [hphase, if_pos hsession, hold.1]
        exact Phase.next_rollback hold.2.2 _
    · exact absurd hundo' (hothers other (List.mem_append_right _ hother))

/-- A session that has been kept for a rollback is closed by it. -/
theorem perform (h : l.Settled) (ho : l.Ordered start held)
    (hjobs : l.jobs = before ++ job :: after) (hstage : job.stage = .granted seat) :
    ({ (l.perform seat job.command).2 with
      session := if job.isUndo then l.session.release else l.session
      lane := l.lane.release
      jobs := before ++ after } : Line κ).Settled := by
  have hmem : job ∈ l.jobs := by simp [hjobs]
  have hseat : job.seat? = some seat := by rw [Job.seat?, hstage]; rfl
  have hrest : ∀ other ∈ before ++ after, other ∈ l.jobs := by
    intro other hother
    rw [hjobs]
    rcases List.mem_append.mp hother with hother | hother <;> simp [hother]
  have hphase (session : Lock Nat) := phase_congr (ho.trace_perform hjobs hstage session)
  split
  · next hundo =>
    have hold := h.undo job hmem hundo
    rw [hseat] at hold
    have howner := ho.owner_of_undoing (mem_undoing hmem hundo)
    constructor
    · intro s _
      rw [hphase]
      by_cases hs : job.session = s
      · exact hs ▸ hold.2.2
      · exact h.closed s (by simp [howner, hs])
    · intro s hs
      cases hs
    · intro hopen
      exact absurd (h.noted hopen).2 (List.ne_nil_of_mem (mem_undoing hmem hundo))
    · exact fun other hother hundo' => absurd hundo' (ho.sole_undo hjobs hundo other hother)
  · next hundo =>
    have hundoing : (before ++ after).filterMap Job.kept? = l.undoing := by
      have hkept : job.kept? = none := by rw [Job.kept?, if_neg hundo]
      rw [Line.undoing, hjobs, List.filterMap_append, List.filterMap_append,
        List.filterMap_cons_none hkept]
    constructor
    · intro s hs
      rw [hphase]
      exact h.closed s hs
    · intro s hs hnil
      rw [hphase]
      exact h.holder s hs (hundoing ▸ hnil)
    · intro hopen
      exact ⟨(h.noted hopen).1, hundoing.trans (h.noted hopen).2⟩
    · intro other hother hundo'
      rw [hphase]
      exact h.undo other (hrest other hother) hundo'

end Jobs

/-- Jobs keep their line settled. -/
theorem works (h : l.Settled) (ho : l.Ordered start held) (hworks : l.Works l') : l'.Settled := by
  cases hworks with
  | askLane before after hjobs hundo hstage => exact h.askUndo hjobs hundo hstage
  | grantLane before after hjobs hundo hstage hnext =>
    exact h.grantUndo ho hjobs hundo hstage hnext
  | perform before after hjobs hstage => exact h.perform ho hjobs hstage

/-- When a session has begun, those before it are closed, and nothing more is sent for them. -/
theorem closed_before (h : l.Settled) (ho : l.Ordered start held) {earlier later : List Entry}
    {first : Entry} (hhistory : l.history = earlier ++ first :: later) {session : Nat}
    (hsession : session < first.seat.session) :
    (Phase.fresh.after (earlier.filter fun entry => entry.seat.session = session)).Fits false := by
  have htrace : l.trace = earlier ++ first :: (later ++ l.underway) := by
    rw [Line.trace, hhistory, List.append_assoc, List.cons_append]
  have hfrom : ∀ entry ∈ first :: (later ++ l.underway),
      first.seat.session ≤ entry.seat.session := by
    have hrest := (List.pairwise_append.mp (htrace ▸ ho.trace_sorted)).2.1
    simpa using (List.pairwise_cons.mp hrest).1
  have hlater : ((first :: (later ++ l.underway)).filter fun entry =>
      entry.seat.session = session) = [] := by
    rw [List.filter_eq_nil_iff]
    intro entry hentry
    have hle := hfrom entry hentry
    simp only [decide_eq_true_eq]
    omega
  have hseat : first.seat ∈ l.seats :=
    List.mem_append_left _ (List.mem_map_of_mem (by simp [hhistory]))
  have hphase := h.closed session fun howner =>
    Nat.not_le_of_lt hsession (ho.owned _ hseat session howner)
  rwa [Line.phase, htrace, List.filter_append, hlater, List.append_nil] at hphase

end Settled

end Line

end Polystore.Transaction
