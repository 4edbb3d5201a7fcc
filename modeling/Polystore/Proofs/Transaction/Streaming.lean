import Mathlib.Logic.Relation
import Polystore.Transaction.Memory
import Polystore.Transaction.Relay

/-!
Streaming, with the job and the caller in any order. Main statement: the consumer is called on the
rows from the first one on, each of them once, up to the first at which it fails; its own failure is
the result then, whatever the connection says, and otherwise all rows are seen and the result is the
report of the connection. No order of the steps makes a difference, none of them gets stuck, and the
lane is kept until the connection has finished.
-/

namespace Polystore.Transaction

variable {τ : Type}

/-- From what it has gathered, a consumer is called on some rows in turn. It gathers more, and does
not go on after the one at which it fails. -/
inductive Called (consume : τ → Row → Except Error τ) : τ → List Row → τ → Option Error → Prop where
  | idle {seen : τ} : Called consume seen [] seen none
  | failed {seen : τ} {row : Row} {e : Error} (hrow : consume seen row = .error e) :
      Called consume seen [row] seen (some e)
  | took {seen next final : τ} {row : Row} {rest : List Row} {refusal : Option Error}
      (hrow : consume seen row = .ok next) (hrest : Called consume next rest final refusal) :
      Called consume seen (row :: rest) final refusal

namespace Called

variable {consume : τ → Row → Except Error τ} {seen final next : τ} {rows more : List Row}
  {refusal : Option Error}

protected theorem append (h : Called consume seen rows final none)
    (hmore : Called consume final more next refusal) :
    Called consume seen (rows ++ more) next refusal := by
  generalize hgood : (none : Option Error) = good at h
  induction h with
  | idle => exact hmore
  | failed hrow => cases hgood
  | took hrow hrest ih => exact .took hrow (ih hmore hgood)

/-- A consumer that takes all rows gets the report with what it has gathered. -/
theorem deliver_all {p : Producer} (h : Called consume seen p.rows final none) :
    p.deliver consume seen = (final, p.report) := by
  induction p generalizing seen with
  | ended report =>
    cases h
    rfl
  | handing row taken refused ihtaken ihrefused =>
    rw [Producer.rows] at h
    generalize hrows : taken.rows = rest at h
    cases h with
    | took hrow hrest =>
      rw [Producer.deliver, hrow]
      exact ihtaken (hrows ▸ hrest)

/-- A consumer that fails gets no report. -/
theorem deliver_failed {p : Producer} {e : Error} (h : Called consume seen rows final (some e))
    (hrows : rows <+: p.rows) : p.deliver consume seen = (final, .error e) := by
  generalize hrefusal : some e = refusal at h
  induction h generalizing p with
  | idle => cases hrefusal
  | failed hrow =>
    cases hrefusal
    cases p with
    | ended report => exact absurd hrows.length_le (by simp [Producer.rows])
    | handing row taken refused =>
      obtain ⟨rfl, -⟩ := List.cons_prefix_cons.mp hrows
      rw [Producer.deliver, hrow]
  | took hrow hrest ih =>
    cases p with
    | ended report => exact absurd hrows.length_le (by simp [Producer.rows])
    | handing row taken refused =>
      obtain ⟨rfl, htaken⟩ := List.cons_prefix_cons.mp hrows
      rw [Producer.deliver, hrow]
      exact ih htaken hrefusal

end Called

namespace Reply

theorem producerFrom_deliver (consume : τ → Row → Except Error τ)
    (outcome : Except Error (Option UInt64)) (summary : Summary) (seen : τ)
    (rows : List (Except Error Row)) :
    (producerFrom outcome summary rows).deliver consume seen =
      deliverFrom consume outcome summary seen rows := by
  induction rows generalizing summary seen with
  | nil => rfl
  | cons row rest ih =>
    cases row with
    | error e => rfl
    | ok row =>
      rw [producerFrom, Producer.deliver, deliverFrom]
      cases consume seen row with
      | error e => rfl
      | ok next => exact ih _ next

theorem producer_deliver (consume : τ → Row → Except Error τ) (start : τ) (r : Reply) :
    r.producer.deliver consume start = r.deliver consume start :=
  producerFrom_deliver consume r.outcome {} start r.rows

theorem producerFrom_rowCount {outcome : Except Error (Option UInt64)} {summary final : Summary}
    {rows : List (Except Error Row)}
    (h : (producerFrom outcome summary rows).report = .ok final) :
    final.rowCount = summary.rowCount + (producerFrom outcome summary rows).rows.length := by
  induction rows generalizing summary with
  | nil =>
    cases outcome with
    | error e => cases h
    | ok affected =>
      cases h
      rfl
  | cons row rest ih =>
    cases row with
    | error e => cases h
    | ok row =>
      rw [producerFrom, Producer.rows, List.length_cons, ih h, Nat.add_assoc, Nat.add_comm 1]

theorem producer_rowCount {r : Reply} {summary : Summary} (h : r.producer.report = .ok summary) :
    summary.rowCount = r.producer.rows.length :=
  (producerFrom_rowCount h).trans (Nat.zero_add _)

end Reply

namespace Relay

variable {consume : τ → Row → Except Error τ} {start : τ} {p : Producer} {s t : Relay τ}

/-- What holds of a stream at any time. -/
structure Sound (consume : τ → Row → Except Error τ) (p : Producer) (start : τ) (s : Relay τ) :
    Prop where
  /-- The lane is kept until the connection has finished. -/
  lane : s.hasLane = false → ∃ report, s.connection = .ended report
  sending : s.isSending = false → s.hasLane = false
  calls : Called consume start s.taken s.seen s.refusal
  taken : s.taken <+: p.rows
  /-- As long as somebody listens, no row gets lost, and the connection goes on as for a consumer
  that takes all rows. -/
  rows : s.isListening = true → s.taken ++ s.channel ++ s.connection.rows = p.rows
  report : s.isListening = true → s.connection.report = p.report
  /-- Whoever has stopped listening without a failure has seen everything. -/
  drained : s.isListening = false → s.refusal = none →
    s.taken = p.rows ∧ s.connection = .ended p.report
  joined : ∀ x, s.result = some x → s.isListening = false ∧ s.isSending = false ∧
    ∃ report, s.connection = .ended report ∧
      x = (s.seen, match s.refusal with
        | some e => .error e
        | none => report)

theorem Sound.begun (consume : τ → Row → Except Error τ) (p : Producer) (start : τ) :
    Sound consume p start (begun p start) where
  lane := nofun
  sending := nofun
  calls := .idle
  taken := List.nil_prefix
  rows _ := rfl
  report _ := rfl
  drained := nofun
  joined := nofun

namespace Sound

variable (h : Sound consume p start s)

include h

/-- Nobody waits for a result any more who still listens. -/
theorem result_of_listening (hlistening : s.isListening = true) : s.result = none := by
  cases hresult : s.result with
  | none => rfl
  | some x => exact nomatch hlistening.symm.trans (h.joined x hresult).1

theorem connection_of_sent (hsending : s.isSending = false) : ∃ report, s.connection = .ended report :=
  h.lane (h.sending hsending)

theorem rows_of_next (hlistening : s.isListening = true) {row : Row} {rest : List Row}
    (hchannel : s.channel = row :: rest) :
    s.taken ++ [row] ++ rest ++ s.connection.rows = p.rows := by
  have hrows := h.rows hlistening
  rw [hchannel] at hrows
  simpa using hrows

theorem taken_of_next (hlistening : s.isListening = true) {row : Row} {rest : List Row}
    (hchannel : s.channel = row :: rest) : s.taken ++ [row] <+: p.rows :=
  ⟨rest ++ s.connection.rows, by simpa using h.rows_of_next hlistening hchannel⟩

theorem step (hstep : Step consume s t) : Sound consume p start t := by
  cases hstep with
  | hand hrow hlistening =>
    have hresult := h.result_of_listening hlistening
    refine { h with lane := ?_, rows := ?_, report := ?_, drained := ?_, joined := ?_ }
    · intro hlane
      obtain ⟨report, hended⟩ := h.lane hlane
      exact nomatch hrow.symm.trans hended
    · intro _
      have hrows := h.rows hlistening
      rw [hrow, Producer.rows] at hrows
      simpa using hrows
    · intro _
      have hreport := h.report hlistening
      rwa [hrow] at hreport
    · exact fun hgone => nomatch hlistening.symm.trans hgone
    · exact fun x hx => nomatch hresult.symm.trans hx
  | refuse hrow hgone =>
    have hworking : ∀ report, s.connection ≠ .ended report := fun report hended =>
      nomatch hrow.symm.trans hended
    refine { h with lane := ?_, rows := ?_, report := ?_, drained := ?_, joined := ?_ }
    · intro hlane
      obtain ⟨report, hended⟩ := h.lane hlane
      exact absurd hended (hworking report)
    · exact fun hlistening => nomatch hlistening.symm.trans hgone
    · exact fun hlistening => nomatch hlistening.symm.trans hgone
    · exact fun _ hrefusal => absurd (h.drained hgone hrefusal).2 (hworking _)
    · intro x hx
      obtain ⟨_, _, report, hended, _⟩ := h.joined x hx
      exact absurd hended (hworking report)
  | freeLane hended hlane =>
    exact { h with
      lane := fun _ => ⟨_, hended⟩
      sending := fun _ => rfl }
  | hangUp hlane hsending =>
    refine { h with sending := fun _ => hlane, joined := ?_ }
    exact fun x hx => nomatch hsending.symm.trans (h.joined x hx).2.1
  | take hlistening hrefusal hchannel hrow =>
    have hcalls := h.calls
    rw [hrefusal] at hcalls
    refine { h with
      calls := ?_
      taken := h.taken_of_next hlistening hchannel
      rows := fun _ => h.rows_of_next hlistening hchannel
      drained := fun hgone => nomatch hlistening.symm.trans hgone
      joined := fun x hx => nomatch (h.result_of_listening hlistening).symm.trans hx }
    rw [hrefusal]
    exact hcalls.append (.took hrow .idle)
  | fail hlistening hrefusal hchannel hrow =>
    have hcalls := h.calls
    rw [hrefusal] at hcalls
    exact { h with
      calls := hcalls.append (.failed hrow)
      taken := h.taken_of_next hlistening hchannel
      rows := fun _ => h.rows_of_next hlistening hchannel
      drained := nofun
      joined := fun x hx => nomatch (h.result_of_listening hlistening).symm.trans hx }
  | leave hlistening hover =>
    refine { h with
      rows := nofun
      report := nofun
      drained := ?_
      joined := fun x hx => nomatch (h.result_of_listening hlistening).symm.trans hx }
    intro _ hrefusal
    obtain hfailed | ⟨hchannel, hsending⟩ := hover
    · rw [hrefusal] at hfailed
      cases hfailed
    · obtain ⟨report, hended⟩ := h.connection_of_sent hsending
      have hrows := h.rows hlistening
      have hreport := h.report hlistening
      rw [hchannel, hended, Producer.rows, List.append_nil, List.append_nil] at hrows
      rw [hended, Producer.report] at hreport
      exact ⟨hrows, hreport ▸ hended⟩
  | join hgone hsending hended hresult =>
    refine { h with joined := ?_ }
    rintro x ⟨⟩
    exact ⟨hgone, hsending, _, hended, rfl⟩

end Sound

/-- Any number of steps. -/
abbrev Reaches (consume : τ → Row → Except Error τ) : Relay τ → Relay τ → Prop :=
  Relation.ReflTransGen (Step consume)

theorem Reaches.sound (h : Reaches consume (begun p start) s) : Sound consume p start s := by
  induction h with
  | refl => exact .begun consume p start
  | tail _ hstep ih => exact ih.step hstep

/-- How much is left to do for the job and for the caller. -/
def size (s : Relay τ) : Nat :=
  2 * s.connection.size + s.hasLane.toNat + s.isSending.toNat + s.channel.length +
    s.isListening.toNat + s.result.isNone.toNat

theorem Step.size_lt (h : Step consume s t) : t.size < s.size := by
  cases h with
  | hand hrow hlistening =>
    simp only [size, hrow, Producer.size, List.length_append, List.length_singleton]
    omega
  | refuse hrow hgone =>
    simp only [size, hrow, Producer.size]
    omega
  | freeLane hended hlane => simp [size, hlane]
  | hangUp hlane hsending => simp [size, hsending]
  | take hlistening hrefusal hchannel hrow => simp [size, hchannel]
  | fail hlistening hrefusal hchannel hrow => simp [size, hchannel]
  | leave hlistening hover =>
    simp only [size, hlistening, List.length_nil, Bool.toNat_true, Bool.toNat_false]
    omega
  | join hgone hsending hended hresult => simp [size, hresult]

/-- Until there is a result, the job or the caller can go on. -/
theorem Step.exists_of_result (consume : τ → Row → Except Error τ) (hresult : s.result = none) :
    ∃ t, Step consume s t := by
  cases hconnection : s.connection with
  | handing row taken refused =>
    cases hlistening : s.isListening with
    | true => exact ⟨_, .hand hconnection hlistening⟩
    | false => exact ⟨_, .refuse hconnection hlistening⟩
  | ended report =>
    cases hlane : s.hasLane with
    | true => exact ⟨_, .freeLane hconnection hlane⟩
    | false =>
      cases hsending : s.isSending with
      | true => exact ⟨_, .hangUp hlane hsending⟩
      | false =>
        cases hlistening : s.isListening with
        | false => exact ⟨_, .join hlistening hsending hconnection hresult⟩
        | true =>
          cases hrefusal : s.refusal with
          | some e => exact ⟨_, .leave hlistening (.inl (by rw [hrefusal]; rfl))⟩
          | none =>
            cases hchannel : s.channel with
            | nil => exact ⟨_, .leave hlistening (.inr ⟨hchannel, hsending⟩)⟩
            | cons row rest =>
              cases hrow : consume s.seen row with
              | ok seen => exact ⟨_, .take hlistening hrefusal hchannel hrow⟩
              | error e => exact ⟨_, .fail hlistening hrefusal hchannel hrow⟩

/-- A stream at any time, and at its end. `Executor.stream` and `Frame.stream` say of a reply what
`Reply.deliver` says, which is the result in every order of the steps. -/
theorem streamed_exactly (hreach : Reaches consume (begun p start) s) :
    (s.hasLane = false → ∃ report, s.connection = .ended report) ∧
      s.taken <+: p.rows ∧ Called consume start s.taken s.seen s.refusal ∧
      (s.result = none → ∃ t, Step consume s t) ∧ (∀ t, Step consume s t → t.size < s.size) ∧
      ∀ result, s.result = some result →
        s.hasLane = false ∧ result = p.deliver consume start ∧
        (match s.refusal with
          | some e => result = (s.seen, .error e)
          | none => s.taken = p.rows ∧ result = (s.seen, p.report)) ∧
        ∀ r : Reply, p = r.producer →
          result = r.deliver consume start ∧
          ∀ summary, result.2 = .ok summary → summary.rowCount = s.taken.length := by
  have h := hreach.sound
  refine ⟨h.lane, h.taken, h.calls, Step.exists_of_result consume, fun t hstep => hstep.size_lt, ?_⟩
  intro result hresult
  obtain ⟨hgone, hsending, report, hended, rfl⟩ := h.joined result hresult
  refine ⟨h.sending hsending, ?_⟩
  have hcalls := h.calls
  cases hrefusal : s.refusal with
  | some e =>
    rw [hrefusal] at hcalls
    have hdeliver := hcalls.deliver_failed h.taken
    refine ⟨hdeliver.symm, rfl, ?_⟩
    rintro r rfl
    exact ⟨hdeliver.symm.trans (Reply.producer_deliver consume start r), nofun⟩
  | none =>
    obtain ⟨htaken, hreported⟩ := h.drained hgone hrefusal
    obtain rfl : report = p.report := Producer.ended.inj (hended.symm.trans hreported)
    rw [hrefusal, htaken] at hcalls
    have hdeliver := hcalls.deliver_all
    refine ⟨hdeliver.symm, ⟨htaken, rfl⟩, ?_⟩
    rintro r rfl
    refine ⟨hdeliver.symm.trans (Reply.producer_deliver consume start r), fun summary hsummary => ?_⟩
    rw [htaken]
    exact Reply.producer_rowCount hsummary

/-- It has room for one row. -/
def takeOne (seen : List Row) (row : Row) : Except Error (List Row) :=
  if seen.isEmpty then .ok [row] else .error .objectNotFound

def counted : Memory :=
  { data := [("a", .array [.int 1, .int 2, .int 3])] }

/-- The connection has two rows in the channel and is refused the third: its report is not what the
caller gets. -/
theorem streamed_exactly_scan :
    let r := (Endpoint.perform (.execute "SCAN a" []) counted).1
    let e := Reply.consumerStopped
    ∃ s, Reaches takeOne (begun r.producer []) s ∧ s.connection = .ended (.error e) ∧
      s.taken = [Memory.valueRow (.int 1), Memory.valueRow (.int 2)] ∧
      s.result = some (r.deliver takeOne []) ∧
      s.result = some ([Memory.valueRow (.int 1)], .error .objectNotFound) := by
  intro r e
  have hreach : Reaches takeOne (begun r.producer []) _ :=
    ((((((((Relation.ReflTransGen.single (.hand rfl rfl)).tail (.hand rfl rfl)).tail
      (.take rfl rfl rfl rfl)).tail (.fail rfl rfl rfl rfl)).tail (.leave rfl (.inl rfl))).tail
      (.refuse rfl rfl)).tail (.freeLane rfl rfl)).tail (.hangUp rfl rfl)).tail
      (.join rfl rfl rfl rfl)
  obtain ⟨-, -, -, -, -, hend⟩ := streamed_exactly hreach
  obtain ⟨-, -, -, hreply⟩ := hend _ rfl
  exact ⟨_, hreach, rfl, rfl, congrArg some (hreply r rfl).1, rfl⟩

end Relay

end Polystore.Transaction
