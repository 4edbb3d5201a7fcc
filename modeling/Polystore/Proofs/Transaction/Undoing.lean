import Polystore.Postgres.Session
import Polystore.Proofs.Transaction.Plan
import Polystore.Proofs.Transaction.Retry
import Polystore.Proofs.Transaction.Rounds

/-!
What is undone on the wire, whatever is replied to it. Main statement: a transaction that fails once it
has begun ends in a rollback, and a frame whose body fails ends in a rollback to its own savepoint. A
frame whose savepoint cannot be released fails as well, and nothing is undone.
-/

namespace Polystore.Transaction

variable {σ κ α : Type}

/-- The savepoint that a command is about. -/
def Command.savepoint? : Command → Option String
  | .savepoint name | .release name | .rollbackTo name => some name
  | _ => none

/-- A command is about no other savepoint than those of frames below some depth. -/
def Command.Below (depth : Nat) (command : Command) : Prop :=
  ∀ name, command.savepoint? = some name → ∃ deeper, depth < deeper ∧ name = Frame.savepoint deeper

namespace Command.Below

variable {depth : Nat} {command : Command}

theorem statement {sql : String} {params : List Value} (h : command = .execute sql params) :
    command.Below depth := by
  rintro name hname
  rw [h] at hname
  cases hname

theorem own (h : command.savepoint? = some (Frame.savepoint (depth + 1))) : command.Below depth := by
  rintro name hname
  exact ⟨depth + 1, Nat.lt_succ_self depth, Option.some.inj (hname.symm.trans h)⟩

theorem above (h : command.Below (depth + 1)) : command.Below depth := by
  rintro name hname
  obtain ⟨deeper, hdeeper, rfl⟩ := h name hname
  exact ⟨deeper, Nat.lt_of_succ_lt hdeeper, rfl⟩

theorem ne_own (h : command.Below depth) : command.savepoint? ≠ some (Frame.savepoint depth) := by
  intro hown
  obtain ⟨deeper, hdeeper, hname⟩ := h _ hown
  exact Nat.ne_of_lt hdeeper (Frame.savepoint_injective hname)

end Command.Below

theorem Frame.closing_savepoint? (depth : Nat) (ended : Except Error α) :
    (Frame.closing depth ended).savepoint? = some (savepoint depth) := by
  cases ended <;> rfl

/-- A frame that has been opened and has returned. -/
structure Opened where
  depth : Nat
  opening : Entry
  /-- The commands of its body. -/
  inner : List Entry
  /-- What its body has come to. -/
  ended : Except Error Unit
  closing : Entry

namespace Opened

def sent (o : Opened) : List Entry :=
  o.opening :: (o.inner ++ [o.closing])

/-- What the call has returned. -/
def result (o : Opened) : Except Error Unit :=
  Frame.closed o.ended o.closing.reply

/-- The last command before the call returned was a rollback to its savepoint, because of a failure of
its body. -/
def Undone (o : Opened) (failure : Error) : Prop :=
  ∃ trigger, o.ended = .error trigger ∧
    o.closing.command = .rollbackTo (Frame.savepoint o.depth) ∧
    failure = undone o.closing.reply.outcome trigger

/-- The last command before the call returned was the release of its savepoint, which was refused. No
rollback to the savepoint was sent. -/
def Unreleased (o : Opened) (failure : Error) : Prop :=
  o.ended = .ok () ∧ o.closing.command = .release (Frame.savepoint o.depth) ∧
    o.closing.reply.outcome = .error failure ∧
    ∀ entry ∈ o.sent, entry.command ≠ .rollbackTo (Frame.savepoint o.depth)

/-- A frame deals with its own savepoint at its start and at its end only, and with no savepoint of a
frame around it. -/
structure Proper (o : Opened) : Prop where
  opening : o.opening.command = .savepoint (Frame.savepoint o.depth)
  accepted : o.opening.reply.outcome.isOk = true
  inner : ∀ entry ∈ o.inner, entry.command.Below o.depth
  closing : o.closing.command = Frame.closing o.depth o.ended

theorem Proper.failed {o : Opened} (h : o.Proper) {failure : Error} (hresult : o.result = .error failure) :
    o.Undone failure ∨ o.Unreleased failure := by
  obtain ⟨hopening, -, hinner, hclosing⟩ := h
  rw [result] at hresult
  cases hended : o.ended with
  | error trigger =>
    rw [hended] at hclosing hresult
    exact .inl ⟨trigger, hended, hclosing, (Except.error.inj hresult).symm⟩
  | ok u =>
    rw [hended] at hclosing hresult
    have hrefused : o.closing.reply.outcome = .error failure := by
      cases houtcome : o.closing.reply.outcome with
      | ok count => rw [Frame.closed, houtcome] at hresult; cases hresult
      | error refusal => rw [Frame.closed, houtcome] at hresult; cases hresult; rfl
    refine .inr ⟨hended, hclosing, hrefused, ?_⟩
    intro entry hentry hcommand
    rcases List.mem_cons.mp hentry with rfl | hentry
    · cases hopening.symm.trans hcommand
    rcases List.mem_append.mp hentry with hentry | hentry
    · apply (hinner entry hentry).ne_own
      rw [hcommand]
      rfl
    · rw [List.mem_singleton.mp hentry] at hcommand
      cases hclosing.symm.trans hcommand

end Opened

/-- A body in a frame of some depth sends commands, opens frames and comes to a result. The frames are
told in the order in which they have been opened. -/
inductive Program.Sends : {α : Type} → Program σ α → (depth : Nat) → List Entry → List Opened →
    Except Error α → Prop where
  | done {α : Type} {depth : Nat} (result : Except Error α) : Sends (.done result) depth [] [] result
  | note {α : Type} {change : σ → σ} {next : σ → Program σ α} {depth : Nat} {sent : List Entry}
      {frames : List Opened} {result : Except Error α} (notes : σ)
      (h : Sends (next notes) depth sent frames result) :
      Sends (.noting change next) depth sent frames result
  | execute {α : Type} {sql : String} {params : List Value}
      {next : Except Error (List Row) → Program σ α} {depth : Nat} {sent : List Entry}
      {frames : List Opened} {result : Except Error α} {entry : Entry}
      (hcommand : entry.command = .execute sql params)
      (h : Sends (next entry.reply.all) depth sent frames result) :
      Sends (.execute sql params next) depth (entry :: sent) frames result
  | stream {α τ : Type} {sql : String} {params : List Value} {consume : τ → Row → Except Error τ}
      {start : τ} {next : τ × Except Error Summary → Program σ α} {depth : Nat} {sent : List Entry}
      {frames : List Opened} {result : Except Error α} {entry : Entry}
      (hcommand : entry.command = .execute sql params)
      (h : Sends (next (entry.reply.deliver consume start)) depth sent frames result) :
      Sends (.stream sql params consume start next) depth (entry :: sent) frames result
  /-- A frame that is not opened. -/
  | refused {α β : Type} {body : Program σ β} {next : Except Error β → Program σ α} {depth : Nat}
      {sent : List Entry} {frames : List Opened} {result : Except Error α} {opening : Entry}
      {refusal : Error} (hopening : opening.command = .savepoint (Frame.savepoint (depth + 1)))
      (hrefused : opening.reply.outcome = .error refusal)
      (h : Sends (next (.error refusal)) depth sent frames result) :
      Sends (.frame body next) depth (opening :: sent) frames result
  | frame {α β : Type} {body : Program σ β} {next : Except Error β → Program σ α} {depth : Nat}
      {inner sent : List Entry} {deeper frames : List Opened} {ended : Except Error β}
      {result : Except Error α} {opening closing : Entry} {count : Option UInt64}
      (hopening : opening.command = .savepoint (Frame.savepoint (depth + 1)))
      (hopened : opening.reply.outcome = .ok count) (hbody : Sends body (depth + 1) inner deeper ended)
      (hclosing : closing.command = Frame.closing (depth + 1) ended)
      (h : Sends (next (Frame.closed ended closing.reply)) depth sent frames result) :
      Sends (.frame body next) depth (opening :: (inner ++ closing :: sent))
        (⟨depth + 1, opening, inner, ended.map fun _ => (), closing⟩ :: (deeper ++ frames)) result

namespace Program

variable {trace log sent : List Entry} {frames : List Opened} {depth : Nat} {result : Except Error α}

theorem sends_of_work {p : Program σ α} {f : Frame}
    (h : (p.work f).Issues f.executor.line trace log (some result)) :
    ∃ frames, p.Sends f.depth log frames result := by
  induction p generalizing f log with
  | done ended =>
    obtain ⟨rfl, hnone | hsome⟩ := Task.Issues.of_done h
    · cases hnone
    · cases hsome
      exact ⟨[], .done _⟩
  | noting change next ih =>
    change (Task.noting change fun notes => (next notes).work f).Issues _ _ _ _ at h
    cases h with
    | note notes h =>
      obtain ⟨frames, hnext⟩ := ih notes h
      exact ⟨frames, .note notes hnext⟩
  | execute sql params next ih =>
    obtain ⟨-, hnone⟩ | ⟨entry, rest, rfl, hcommand, h⟩ := Task.Issues.of_sending h
    · cases hnone
    · obtain ⟨frames, hnext⟩ := ih _ h
      exact ⟨frames, .execute hcommand hnext⟩
  | stream sql params consume start next ih =>
    obtain ⟨-, hnone⟩ | ⟨entry, rest, rfl, hcommand, h⟩ := Task.Issues.of_sending h
    · cases hnone
    · obtain ⟨frames, hnext⟩ := ih _ h
      exact ⟨frames, .stream hcommand hnext⟩
  | frame body next ihbody ihnext =>
    obtain ⟨hnone, -⟩ | ⟨ended, first, rest, rfl, hframe, hrest⟩ := Task.Issues.of_bind h
    · cases hnone
    obtain ⟨frames, hnext⟩ := ihnext ended hrest
    generalize hreturned : some ended = returned at hframe
    cases Frame.nested_issues hframe with
    | stop => cases hreturned
    | refused hopening hrefused hresult =>
      rcases hresult with hnone | hsome
      · cases hreturned.trans hnone
      · cases hreturned.trans hsome
        exact ⟨frames, .refused hopening hrefused hnext⟩
    | unfinished => cases hreturned
    | @ended opening closing inner _ _ _ hopening hopened hbody hclosing hresult =>
      rcases hresult with hnone | hsome
      · cases hreturned.trans hnone
      · cases hreturned.trans hsome
        obtain ⟨deeper, hsent⟩ := ihbody (f := { f with depth := f.depth + 1 }) hbody
        rw [List.cons_append, List.append_assoc, List.singleton_append]
        exact ⟨_, .frame hopening hopened hsent hclosing hnext⟩

namespace Sends

/-- A body knows no other savepoints than those of deeper frames. -/
theorem savepoints_below {p : Program σ α} (h : p.Sends depth sent frames result) :
    ∀ entry ∈ sent, entry.command.Below depth := by
  induction h with
  | done => exact List.forall_mem_nil _
  | note notes _ ih => exact ih
  | execute hcommand _ ih | stream hcommand _ ih =>
    exact List.forall_mem_cons.mpr ⟨.statement hcommand, ih⟩
  | refused hopening _ _ ih =>
    exact List.forall_mem_cons.mpr ⟨.own (by rw [hopening]; rfl), ih⟩
  | frame hopening _ _ hclosing _ ihbody ih =>
    refine List.forall_mem_cons.mpr ⟨.own (by rw [hopening]; rfl), List.forall_mem_append.mpr
      ⟨?_, List.forall_mem_cons.mpr ⟨.own ?_, ih⟩⟩⟩
    · intro entry hentry
      exact (ihbody entry hentry).above
    · rw [hclosing]
      exact Frame.closing_savepoint? _ _

/-- Every frame has its commands in one piece, and looks after its own savepoint. -/
theorem proper {p : Program σ α} (h : p.Sends depth sent frames result) :
    ∀ o ∈ frames, o.Proper ∧ o.sent <:+: sent := by
  induction h with
  | done => exact List.forall_mem_nil _
  | note notes _ ih => exact ih
  | execute _ _ ih | stream _ _ ih | refused _ _ _ ih =>
    intro o ho
    obtain ⟨hproper, hsent⟩ := ih o ho
    exact ⟨hproper, hsent.trans (List.suffix_cons _ _).isInfix⟩
  | @frame _ _ _ _ depth inner sent deeper frames ended _ opening closing count hopening hopened hbody
      hclosing _ ihbody ih =>
    have hsent : opening :: (inner ++ closing :: sent) = (opening :: (inner ++ [closing])) ++ sent := by
      rw [List.cons_append, List.append_assoc, List.singleton_append]
    refine List.forall_mem_cons.mpr ⟨⟨⟨hopening, by rw [hopened]; rfl, hbody.savepoints_below, ?_⟩, ?_⟩,
      List.forall_mem_append.mpr ⟨?_, ?_⟩⟩
    · rw [hclosing]
      cases ended <;> rfl
    · rw [hsent]
      exact (List.prefix_append _ _).isInfix
    · intro o ho
      obtain ⟨hproper, hinner⟩ := ihbody o ho
      exact ⟨hproper, hinner.trans ⟨[opening], closing :: sent, rfl⟩⟩
    · intro o ho
      obtain ⟨hproper, hlater⟩ := ih o ho
      rw [hsent]
      exact ⟨hproper, hlater.trans (List.suffix_append _ _).isInfix⟩

end Sends

/-- What the body of a transaction sends and comes to, and what its frames look after. A frame that fails
once it has been opened has undone what it has sent, or it has not been released. -/
def LooksAfter (p : Program σ α) (sent : List Entry) (result : Except Error α) : Prop :=
  ∃ frames, p.Sends 0 sent frames result ∧ ∀ o ∈ frames, o.Proper ∧ o.sent <:+: sent ∧
    ∀ failure, o.result = .error failure → o.Undone failure ∨ o.Unreleased failure

theorem looksAfter_of_ran {p : Program σ α} {f : Frame} (hdepth : f.depth = 0)
    (h : (p.work f).Ran f.executor.line sent result) : p.LooksAfter sent result := by
  obtain ⟨-, trace, hissues⟩ := h
  obtain ⟨frames, hsends⟩ := sends_of_work hissues
  refine ⟨frames, hdepth ▸ hsends, ?_⟩
  intro o ho
  obtain ⟨hproper, hsent⟩ := hsends.proper o ho
  exact ⟨hproper, hsent, fun failure => hproper.failed⟩

end Program

/-- **What is undone on the wire.** A transaction is called on a free line, and whatever the connection
replies, it sends one attempt after the other. If it fails, its last attempt has not begun or ends in a
rollback, and the failure is that of the body or of the commit, or tells of both failures if the
rollback has been refused. In all attempts, the commands of a frame that has been opened stand in one
piece, and no other command in that piece deals with its savepoint. If it fails because its body does,
the last of them is the rollback to its savepoint, and a refusal is told with the failure. If it fails
otherwise, the release has been refused, which is the last of them, and there is no such rollback. -/
theorem transaction_undone [Endpoint κ] {e : Executor} {held : List Nat} {patience : Nat}
    {options : Options} {p : Program σ α} {result : Except Error α} {start : κ} {w w' : World σ κ}
    (hheld : e.line ∉ held) (hfree : (w.lines e.line).Free start)
    (h : Reaches (fun _ => 0) (e.transaction held patience options p.work, w) (.done result, w')) :
    ∃ (tried : List (List Entry)) (last : List Entry) (again : Bool),
      (w'.lines e.line).history = (w.lines e.line).history ++ (tried.flatten ++ last) ∧
      (∀ round ∈ tried, ∃ failure,
        Executor.Attempted options.isolation p.LooksAfter round (.error failure, true)) ∧
      Executor.Attempted options.isolation p.LooksAfter last (result, again) ∧
      ∀ failure, result = .error failure →
        (∃ opening : Entry, last = [opening] ∧ opening.command = .begin options.isolation ∧
          opening.reply.outcome = .error failure) ∨
        ∃ others rollback trigger, last = others ++ [rollback] ∧ rollback.command = .rollback ∧
          Executor.Trigger p.LooksAfter others trigger ∧
          failure = undone rollback.reply.outcome trigger := by
  obtain ⟨tried, last, again, htried, hlast, -, hhistory⟩ :=
    Executor.transaction_sends hheld (p.work_calls _ fun _ => rfl) h hfree
  have hlooks : ∀ sent result, (p.work ⟨e, 0, e.line :: held⟩).Ran e.line sent result →
      p.LooksAfter sent result :=
    fun _ _ => Program.looksAfter_of_ran (f := ⟨e, 0, e.line :: held⟩) rfl
  refine ⟨tried, last, again, hhistory, ?_, hlast.imp hlooks, ?_⟩
  · intro round hround
    obtain ⟨outcome, hattempted⟩ := htried round hround
    obtain ⟨failure, rfl⟩ := hattempted.error_of_again
    exact ⟨failure, hattempted.imp hlooks⟩
  · rintro failure rfl
    exact (hlast.imp hlooks).failed

def noSavepoint : Postgres.Report :=
  [('S', "ERROR"), ('C', "3B001"), ('M', "no such savepoint")]

/-- A frame fails, and the failure goes up. -/
def bounced : Program Unit Unit :=
  .frame (.execute "SET a" [.int 1] fun _ => .done (.error .objectNotFound))
    fun ended : Except Error Unit => .done ended

/-- The server refuses the fourth command. -/
theorem transaction_undone_bounced :
    let call := (⟨0, none⟩ : Executor).transaction [] 1 {} bounced.work
    let start : Postgres.Session := { answers := [{}, {}, {}, { ending := .failed noSavepoint }] }
    let w : World Unit Postgres.Session := ⟨(), fun _ => { endpoint := start }⟩
    let w' := (call.start 12 w).2
    let failure := Error.rollbackFailed (noSavepoint.error "") .objectNotFound
    ((w'.lines 0).history.map fun entry => (entry.command.entry, entry.reply.outcome.isOk)) =
        [("begin", true), ("savepoint dbkit_sp_1", true), ("exec SET a", true),
          ("rollback to dbkit_sp_1", false), ("rollback", true)] ∧
      ∃ (tried : List (List Entry)) (last : List Entry) (again : Bool),
        (w'.lines 0).history = tried.flatten ++ last ∧
        Executor.Attempted .default bounced.LooksAfter last (.error failure, again) := by
  intro call start w w' failure
  have hrest : w.AtRest := fun _ => ⟨rfl, List.forall_mem_nil _⟩
  have hreturned : Reaches (fun _ => 0) (call, w) (.done (.error failure), w') :=
    (Task.start_reaches 12 call w hrest).returns (by decide +kernel)
  obtain ⟨tried, last, again, hhistory, -, hlast, -⟩ := @transaction_undone Unit Postgres.Session Unit _
    ⟨0, none⟩ [] 1 {} bounced (.error failure) start w w' List.not_mem_nil
    (Line.free_idle start 0) hreturned
  exact ⟨by decide +kernel, tried, last, again, hhistory, hlast⟩

/-- Whatever becomes of its frame, it succeeds, and tells whether the frame has. -/
def shrugged : Program Unit Bool :=
  .frame (.execute "SET a" [.int 1] fun rows => .done rows) fun ended => .done (.ok ended.isOk)

theorem unreleased_frame_not_undone :
    let call := (⟨0, none⟩ : Executor).transaction [] 1 {} shrugged.work
    let start : Postgres.Session := { answers := [{}, {}, {}, { ending := .failed noSavepoint }] }
    let w : World Unit Postgres.Session := ⟨(), fun _ => { endpoint := start }⟩
    ∃ w', Reaches (fun _ => 0) (call, w) (.done (.ok false), w') ∧
      ((w'.lines 0).history.map fun entry => (entry.command.entry, entry.reply.outcome.isOk)) =
        [("begin", true), ("savepoint dbkit_sp_1", true), ("exec SET a", true),
          ("release dbkit_sp_1", false), ("commit", true)] := by
  intro call start w
  have hrest : w.AtRest := fun _ => ⟨rfl, List.forall_mem_nil _⟩
  exact ⟨_, (Task.start_reaches 12 call w hrest).returns (by decide +kernel), by decide +kernel⟩

end Polystore.Transaction
