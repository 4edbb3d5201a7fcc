import Polystore.Proofs.Transaction.Callers
import Polystore.Proofs.Transaction.Schedule
import Polystore.Transaction.Memory

/-!
Sessions do not interleave. Main statement: whatever the callers of a line do and in whichever order
they go on, one command at most is under way, and the history of the line is one whole session after
the other, in the order in which the sessions were asked for.
-/

namespace Polystore.Transaction

variable {σ κ α : Type}

namespace Line

/-- What has been performed on behalf of one session. -/
def sessionLog (l : Line κ) (session : Nat) : List Entry :=
  l.history.filter fun entry => entry.seat.session = session

end Line

/-- Entries in order of their sessions: those before a session come first. -/
theorem filter_append_filter_sessions {history : List Entry}
    (hsorted : history.Pairwise fun a b => a.seat.session ≤ b.seat.session) (n : Nat) :
    (history.filter fun entry => entry.seat.session < n) ++
      (history.filter fun entry => n ≤ entry.seat.session) = history := by
  induction history with
  | nil => rfl
  | cons entry rest ih =>
    obtain ⟨hfirst, hrest⟩ := List.pairwise_cons.mp hsorted
    by_cases hlt : entry.seat.session < n
    · rw [List.filter_cons_of_pos (by simpa using hlt), List.filter_cons_of_neg (by simpa using hlt),
        List.cons_append, ih hrest]
    · have hle : ∀ e ∈ entry :: rest, n ≤ e.seat.session := by
        have hentry := Nat.le_of_not_lt hlt
        simpa [hentry] using fun e he => Nat.le_trans hentry (hfirst e he)
      have hnone : (entry :: rest).filter (fun entry => entry.seat.session < n) = [] := by
        rw [List.filter_eq_nil_iff]
        intro e he
        simpa using hle e he
      rw [hnone, List.nil_append, List.filter_eq_self]
      intro e he
      simpa using hle e he

/-- Entries in order of their sessions are one whole session after the other. -/
theorem flatMap_sessions {history : List Entry}
    (hsorted : history.Pairwise fun a b => a.seat.session ≤ b.seat.session) (n : Nat) :
    (List.range n).flatMap (fun session => history.filter fun entry => entry.seat.session = session) =
      history.filter fun entry => entry.seat.session < n := by
  induction n with
  | zero => simp
  | succ n ih =>
    have hsplit := filter_append_filter_sessions
      (hsorted.filter fun entry => entry.seat.session < n + 1) n
    rw [List.filter_filter, List.filter_filter] at hsplit
    rw [List.range_succ, List.flatMap_append, List.flatMap_singleton, ih, ← hsplit]
    congr 1 <;>
    · refine List.filter_congr fun entry _ => ?_
      rw [← Bool.decide_and, decide_eq_decide]
      omega

/-- A transaction that sends two statements at once, a statement, and a streamed statement. -/
def threeCallers (e : Executor) : List (Task Unit Unit) :=
  [do let _ ← e.transaction [] 3 { retry := .onConflict none } fun frame =>
        .both (frame.execute "PUSH a" [.int 1]) (frame.execute "PUSH a" [.int 2]) fun _ result =>
          .done result,
    do let _ ← e.execute [] "SCAN a" [],
    do let _ ← e.stream [] "SCAN a" [] (fun seen row => .ok (seen ++ [row])) []]

theorem threeCallers_calls (e : Executor) :
    ∀ caller ∈ threeCallers e, caller.Calls e.line false := by
  have hheld : e.line = e.line → false = true → e.line ∈ [] := fun _ => (absurd · Bool.false_ne_true)
  have hin : e.line = e.line → (false || e.line == e.line) = true := by simp
  simp only [threeCallers, List.forall_mem_cons, List.not_mem_nil, false_implies, implies_true,
    and_true]
  refine ⟨.bind (.transaction hheld ?_) fun _ => .pure (), .bind (.execute hheld) fun _ => .pure (),
    .bind (.stream hheld) fun _ => .pure ()⟩
  exact .both (.statement hin) (.statement hin) fun _ result => .pure result

end Polystore.Transaction
