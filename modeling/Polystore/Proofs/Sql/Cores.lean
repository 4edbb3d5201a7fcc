import Mathlib.Data.List.DropRight
import Polystore.Proofs.Sql.Clauses

/-!
The word before a condition. A statement remembers whether it has a condition, but not whether a query
core has been opened since. Main statement: a condition is joined by AND if the statement has one
anywhere, and this is the wrong word exactly for the first condition of a core after another core that
has some.
-/

namespace Polystore.Sql

open Fragment

namespace Clause

/-- Query cores are opened by these clauses. -/
def opensCore : Clause → Bool
  | .select _ | .selectDistinct _ | .update _ | .deleteFrom _ => true
  | _ => false

def isWhere : Clause → Bool
  | .where _ => true
  | _ => false

end Clause

/-- The clauses since a core was opened last. -/
def sinceCore (before : List Clause) : List Clause :=
  before.rtakeWhile fun c => !c.opensCore

/-- The word that a condition needs: that of the clause if its core has none so far. -/
def neededWord (before : List Clause) : String :=
  if (sinceCore before).any Clause.isWhere then "AND" else "WHERE"

/-- The word that a condition gets. -/
def writtenWord (before : List Clause) : String :=
  if before.any Clause.isWhere then "AND" else "WHERE"

/-- The conditions so far are those of earlier cores. -/
def Stale (before : List Clause) : Prop :=
  ∃ earlier core later, before = earlier ++ core :: later ∧ core.opensCore = true ∧
    earlier.any Clause.isWhere = true ∧ later.any Clause.isWhere = false

theorem stale_iff (before : List Clause) : Stale before ↔
    before.any Clause.isWhere = true ∧ (sinceCore before).any Clause.isWhere = false := by
  induction before using List.reverseRecOn with
  | nil => simp [Stale]
  | append_singleton init last ih =>
    cases hcore : last.opensCore with
    | true =>
      have hwhere : last.isWhere = false := by
        cases last <;> first | rfl | cases hcore
      have hsince : sinceCore (init ++ [last]) = [] :=
        List.rtakeWhile_concat_neg _ _ _ (by simp [hcore])
      simp only [hsince, List.any_append, List.any_cons, hwhere, List.any_nil, Bool.or_false, and_true]
      constructor
      · rintro ⟨earlier, core, later, hsplit, -, hearlier, hlater⟩
        have hany := congrArg (List.any · Clause.isWhere) hsplit
        simpa [hwhere, hearlier] using hany
      · exact fun h => ⟨init, last, [], rfl, hcore, h, rfl⟩
    | false =>
      have hsince : sinceCore (init ++ [last]) = sinceCore init ++ [last] :=
        List.rtakeWhile_concat_pos _ _ _ (by simp [hcore])
      have hstale : Stale (init ++ [last]) ↔ Stale init ∧ last.isWhere = false := by
        constructor
        · rintro ⟨earlier, core, later, hsplit, hopens, hearlier, hlater⟩
          obtain rfl | ⟨rest, x, rfl⟩ := List.eq_nil_or_concat later
          · obtain ⟨-, hlast⟩ := List.append_inj' hsplit rfl
            cases hlast
            rw [hcore] at hopens
            cases hopens
          · rw [List.concat_eq_append, ← List.cons_append, ← List.append_assoc] at hsplit
            obtain ⟨hinit, hlast⟩ := List.append_inj' hsplit rfl
            cases hlast
            rw [List.concat_eq_append, List.any_append, Bool.or_eq_false_iff] at hlater
            exact ⟨⟨earlier, core, rest, hinit, hopens, hearlier, hlater.1⟩, by simpa using hlater.2⟩
        · rintro ⟨⟨earlier, core, later, rfl, hopens, hearlier, hlater⟩, hwhere⟩
          exact ⟨earlier, core, later ++ [last], by simp, hopens, hearlier, by simp [hlater, hwhere]⟩
      rw [hstale, ih, hsince]
      simp only [List.any_append, List.any_cons, List.any_nil, Bool.or_false]
      cases last.isWhere <;> simp

namespace Statement

theorem hasWhere_openClause (s : Statement) (clause : ListClause) :
    (s.openClause clause).hasWhere = s.hasWhere := by
  rw [openClause]
  split <;> rfl

theorem hasWhere_condition (s : Statement) (p : Condition) : (s.condition p).hasWhere = s.hasWhere := by
  rw [Statement.condition]
  split <;> rfl

theorem hasWhere_embed (s inner : Statement) : (s.embed inner).hasWhere = s.hasWhere := by
  unfold Statement.embed
  dsimp only
  split <;> split <;> rfl

theorem hasWhere_push (s : Statement) (c : Clause) :
    (s.push c).hasWhere = (s.hasWhere || c.isWhere) := by
  cases c with
  | «where» p => exact (hasWhere_condition _ p).trans (Bool.or_true _).symm
  | join kind table on =>
    simp only [push, Clause.isWhere, Bool.or_false]
    split
    · rfl
    · exact hasWhere_condition _ on
  | having p => exact (hasWhere_condition _ p).trans (Bool.or_false _).symm
  | set column v => exact (hasWhere_openClause s .set).trans (Bool.or_false _).symm
  | change column op v => exact (hasWhere_openClause s .set).trans (Bool.or_false _).symm
  | values row => exact (hasWhere_openClause s .values).trans (Bool.or_false _).symm
  | orderBy column descending =>
    exact (hasWhere_openClause s .orderBy).trans (Bool.or_false _).symm
  | asSelect inner => exact (hasWhere_embed s.closeList inner).trans (Bool.or_false _).symm
  | _ => exact (Bool.or_false _).symm

/-- No clause makes a statement forget that it has a condition. -/
theorem hasWhere_ofClauses (d : Dialect) (clauses : List Clause) :
    (ofClauses d clauses).hasWhere = clauses.any Clause.isWhere := by
  induction clauses using List.reverseRecOn with
  | nil => rfl
  | append_singleton init last ih =>
    rw [ofClauses_concat, hasWhere_push, ih]
    simp

/-- What has been written so far, and the word, go before the condition. -/
theorem pieces_before_condition (d : Dialect) (before after : List Clause) (p : Condition) :
    (ofClauses d (before ++ [.text (writtenWord before)])).fragment.pieces <+:
      (ofClauses d (before ++ .where p :: after)).fragment.pieces := by
  have hword : (ofClauses d (before ++ [.text (writtenWord before)])).fragment.pieces =
      (ofClauses d before).fragment.pieces ++ [.text (writtenWord before)] := by
    rw [ofClauses_concat]
    rfl
  have hcondition : (ofClauses d before).fragment.pieces ++ [.text (writtenWord before)] <+:
      (ofClauses d (before ++ [.where p])).fragment.pieces := by
    rw [ofClauses_concat, (where_grows _ p).pieces, hasWhere_ofClauses, writtenWord]
    exact (List.prefix_append_right_inj _).mpr (List.cons_prefix_cons.mpr ⟨rfl, List.nil_prefix⟩)
  rw [hword]
  refine hcondition.trans ?_
  have hwhole := pieces_prefix d (before ++ [.where p]) after
  rwa [List.append_assoc] at hwhole

end Statement

open Statement in
/-- **A condition is joined to whatever came before.** After any clauses, a condition is written after
the text so far and the word AND if there has been a condition anywhere, and WHERE otherwise. This is
the word that it needs, unless it is the first one of its core and an earlier core has one: then it is
AND, and its core has no WHERE. -/
theorem condition_joined (d : Dialect) (before after : List Clause) (p : Condition) :
    (ofClauses d (before ++ [.text (writtenWord before)])).fragment.pieces <+:
        (ofClauses d (before ++ .where p :: after)).fragment.pieces ∧
      (∀ r, (ofClauses d (before ++ .where p :: after)).render = .ok r →
        ∃ r₀, (ofClauses d (before ++ [.text (writtenWord before)])).render = .ok r₀ ∧
          r₀.sql.toList <+: r.sql.toList) ∧
      (¬Stale before → writtenWord before = neededWord before) ∧
      (Stale before → writtenWord before = "AND" ∧ neededWord before = "WHERE") := by
  have hfront := pieces_before_condition d before after p
  refine ⟨hfront, fun r hr => ?_, fun hfresh => ?_, fun hstale => ?_⟩
  · have hnone := failure?_eq_none_of_render hr
    have hword :
        (before ++ [Clause.text (writtenWord before)]).findSome? (Clause.failure? d) = none := by
      rw [List.findSome?_append, Option.or_eq_none_iff] at hnone ⊢
      exact ⟨hnone.1, rfl⟩
    obtain ⟨r₀, hr₀, htext, -⟩ := exists_render_of_prefix hword hfront hr
    exact ⟨r₀, hr₀, htext⟩
  · rw [stale_iff, not_and, Bool.not_eq_false] at hfresh
    rw [writtenWord, neededWord]
    split
    · next hany => rw [if_pos (hfresh hany)]
    · next hnone =>
      have hsome : ¬(sinceCore before).any Clause.isWhere = true := by
        intro hany
        obtain ⟨c, hc, hwhere⟩ := List.any_eq_true.mp hany
        exact hnone (List.any_eq_true.mpr ⟨c, (List.rtakeWhile_suffix _ _).subset hc, hwhere⟩)
      rw [if_neg hsome]
  · obtain ⟨hany, hnone⟩ := (stale_iff before).mp hstale
    rw [writtenWord, neededWord, if_pos hany, hnone]
    exact ⟨rfl, rfl⟩

/-- Two selections, the first one with a condition. -/
def union : List Clause :=
  [.select [], .from "t", .where (.compare (.key (.named "a")) .eq (.literal (.int 1))), .text "UNION",
    .select [], .from "u"]

theorem condition_joined_first : ¬Stale (union.take 3) ∧
    writtenWord (union.take 3) = neededWord (union.take 3) ∧
    ∃ r₀, (Statement.ofClauses .postgres (union.take 3 ++ [.text "AND"])).render = .ok r₀ ∧
      r₀.sql = "SELECT * FROM \"t\" WHERE \"a\" = $1 AND" := by
  have hfresh : ¬Stale (union.take 3) := fun h => nomatch ((stale_iff _).mp h).2
  obtain ⟨-, hrender, hword, -⟩ := condition_joined .postgres (union.take 3) []
    (.compare (.key (.named "b")) .eq (.literal (.int 2)))
  obtain ⟨r₀, hr₀, -⟩ := hrender _ rfl
  obtain rfl := Except.ok.inj hr₀
  exact ⟨hfresh, hword hfresh, _, rfl, rfl⟩

/-- The condition of the second selection is joined by AND to a core without WHERE. -/
theorem union_without_where : neededWord union = "WHERE" ∧
    ∃ r, (Statement.ofClauses .postgres (union ++
        [.where (.compare (.key (.named "b")) .eq (.literal (.int 2)))])).render = .ok r ∧
      r.sql = "SELECT * FROM \"t\" WHERE \"a\" = $1 UNION SELECT * FROM \"u\" AND \"b\" = $2" :=
  ⟨rfl, _, rfl, rfl⟩

end Polystore.Sql
