import Polystore.Proofs.Sql.Clauses

/-!
What a statement reports. Main statement: a statement is rendered exactly if none of its clauses fails
or is misused, embedded statements included, and the first failure stays with it from then on.
-/

namespace Polystore.Sql

open Fragment

/-- A failure that is given out as it was met. -/
def Lasting {α : Type} (x : Except Error α) : Prop :=
  ∀ e, x = .error e → Statement.givenOut e = e

section Lasting

variable {α β : Type}

theorem Lasting.ok (a : α) : Lasting (.ok a) :=
  fun _ h => nomatch h

theorem Lasting.invalid (cause : ExpressionError) : Lasting (invalid cause : Except Error α) := by
  rintro e h
  cases h
  rfl

theorem Lasting.unsupported (d : Dialect) (operation : String) :
    Lasting (d.unsupported operation : Except Error α) := by
  rintro e h
  cases h
  rfl

theorem Lasting.bind {x : Except Error α} {f : α → Except Error β} (hx : Lasting x)
    (hf : ∀ a, Lasting (f a)) : Lasting (x >>= f) := by
  cases x with
  | ok a => exact hf a
  | error e =>
    rintro e' h
    cases h
    exact hx e rfl

variable (d : Dialect)

theorem operand_lasting (o : Operand) : Lasting (operand d o) := by
  unfold operand
  split
  · exact Lasting.ok _
  · split
    · exact Lasting.ok _
    · exact Lasting.unsupported d _
  · exact Lasting.ok _

theorem between_lasting (left : Operand) (word : String) (right : Operand) :
    Lasting (between d left word right) :=
  (operand_lasting d left).bind fun _ => (operand_lasting d right).bind fun _ => Lasting.ok _

theorem nullTest_lasting (subject : Operand) (op : Comparison) : Lasting (nullTest d subject op) := by
  unfold nullTest
  split
  · exact (operand_lasting d subject).bind fun _ => Lasting.ok _
  · exact Lasting.invalid _

theorem comparison_lasting (left : Operand) (op : Comparison) (right : Operand) :
    Lasting (comparison d left op right) := by
  unfold comparison
  split
  · exact Lasting.invalid _
  · split
    · exact nullTest_lasting d left op
    · split
      · exact nullTest_lasting d right op
      · exact between_lasting d left _ right

theorem membership_lasting (left right : Operand) (negated : Bool) :
    Lasting (membership d left right negated) := by
  unfold membership
  split
  · split
    · exact Lasting.invalid _
    · exact (operand_lasting d _).bind fun _ => Lasting.ok _
  · split
    · exact (operand_lasting d _).bind fun _ => (operand_lasting d _).bind fun _ => Lasting.ok _
    · exact Lasting.unsupported d _
  · exact Lasting.invalid _

theorem range_lasting (subject low high : Operand) (exclusive negated : Bool) :
    Lasting (range d subject low high exclusive negated) := by
  unfold range
  split
  · exact Lasting.invalid _
  · split
    · exact Lasting.invalid _
    · split
      · exact (between_lasting d subject _ low).bind fun _ =>
          (between_lasting d subject _ high).bind fun _ => Lasting.ok _
      · exact (between_lasting d subject _ low).bind fun _ =>
          (operand_lasting d high).bind fun _ => Lasting.ok _

theorem like_lasting (subject test : Operand) (negated : Bool) :
    Lasting (like d subject test negated) := by
  unfold like
  split
  · exact Lasting.invalid _
  · exact between_lasting d subject _ test

mutual

theorem pieces_lasting : ∀ p : Condition, Lasting (pieces d p)
  | .compare left op right => comparison_lasting d left op right
  | .member left right negated => membership_lasting d left right negated
  | .between subject low high exclusive negated => range_lasting d subject low high exclusive negated
  | .pattern subject test negated => like_lasting d subject test negated
  | .not p => (pieces_lasting p).bind fun _ => Lasting.ok _
  | .join c items => (termPieces_lasting c items).bind fun terms => by
    split
    · exact Lasting.invalid _
    · exact Lasting.ok _

theorem termPieces_lasting (c : Connective) : ∀ items : List Condition, Lasting (termPieces d c items)
  | [] => Lasting.ok _
  | p :: rest =>
    (pieces_lasting p).bind fun _ => (termPieces_lasting c rest).bind fun _ => Lasting.ok _

end

theorem compile_lasting (p : Condition) : Lasting (compile d p) :=
  (pieces_lasting d p.flat).bind fun _ => Lasting.ok _

end Lasting

/-- Statements that come about by adding clauses, those inside them included. -/
inductive Made : Statement → Prop
  | ofClauses {d : Dialect} {clauses : List Clause} :
    (∀ inner, .asSelect inner ∈ clauses → Made inner) → Made (Statement.ofClauses d clauses)

namespace Clause

theorem failure?_lasting {d : Dialect} {c : Clause}
    (hinner : ∀ inner, c = .asSelect inner → ∀ e, inner.error = some e → Statement.givenOut e = e)
    {e : Error} (h : c.failure? d = some e) : Statement.givenOut e = e := by
  have hcondition (p : Condition) (h : conditionFailure? d p = some e) :
      Statement.givenOut e = e := by
    unfold conditionFailure? at h
    split at h
    · next hp =>
      cases h
      exact compile_lasting d p e hp
    · cases h
  unfold failure? at h
  split at h
  · exact hcondition _ h
  · exact hcondition _ h
  · split at h
    · cases h
    · exact hcondition _ h
  · split at h
    · exact hinner _ rfl e h
    · cases h
      rfl
  · cases h

/-- The clause asks for something that the statement cannot give, if so many binds come before it. An
embedded statement has the misuses of its own clauses. -/
inductive Misused : Dialect → Nat → Clause → Prop
  | lacking {d : Dialect} {met : Nat} {c : Clause} : c.Lacking d → Misused d met c
  | dangling {d : Dialect} {met : Nat} {c : Clause} : c.Dangling met → Misused d met c
  | embedded {d d' : Dialect} {met : Nat} {before : List Clause} {c : Clause} {after : List Clause} :
    Misused d' (Statement.ofClauses d' before).fragment.bindCount c →
      Misused d met (.asSelect (Statement.ofClauses d' (before ++ c :: after)))

theorem Misused.not_fits {d : Dialect} {met : Nat} {c : Clause} (h : c.Misused d met) :
    ¬c.Fits d met := by
  induction h with
  | @lacking d met c hlacking =>
    cases c with
    | asSelect inner => exact hlacking.elim
    | _ => exact fun hfits => hfits.1 hlacking
  | @dangling d met c hdangling =>
    cases c with
    | asSelect inner => exact hdangling.elim
    | _ => exact fun hfits => hfits.2 hdangling
  | embedded _ ih => exact fun hfits => ih ((Statement.complete_ofClauses _ _).mp hfits _ _ _ rfl)

theorem fits_of_not_misused {d : Dialect} {met : Nat} {c : Clause} (h : ¬c.Misused d met)
    (hinner : ∀ inner, c = .asSelect inner → Complete inner.fragment.pieces) : c.Fits d met := by
  cases c with
  | asSelect inner => exact hinner inner rfl
  | _ => exact ⟨fun hlacking => h (.lacking hlacking), fun hdangling => h (.dangling hdangling)⟩

end Clause

namespace Made

variable {s : Statement}

theorem givenOut_eq (h : Made s) : ∀ e, s.error = some e → Statement.givenOut e = e := by
  induction h with
  | ofClauses _ ih =>
    intro e herror
    rw [Statement.error_ofClauses] at herror
    obtain ⟨c, hc, hfails⟩ := List.exists_of_findSome?_eq_some herror
    exact Clause.failure?_lasting (fun inner hinner => ih inner (hinner ▸ hc)) hfails

theorem copy_eq (h : Made s) : s.copy = s := by
  have herror : s.error.map Statement.givenOut = s.error := by
    cases hs : s.error with
    | none => rfl
    | some e => exact congrArg some (h.givenOut_eq e hs)
  rw [Statement.copy, herror]

theorem render_eq_error (h : Made s) {e : Error} (herror : s.error = some e) :
    s.render = .error e := by
  rw [Statement.render, herror]
  exact congrArg Except.error (h.givenOut_eq e herror)

/-- A statement inside another one is complete if nothing in it is misused. -/
theorem complete (h : Made s) {d : Dialect} {met : Nat} (hused : ¬(Clause.asSelect s).Misused d met) :
    Complete s.fragment.pieces := by
  induction h generalizing d met with
  | ofClauses _ ih =>
    rw [Statement.complete_ofClauses]
    rintro before c after rfl
    have hc : ¬c.Misused _ (Statement.ofClauses _ before).fragment.bindCount :=
      fun hmisused => hused (.embedded hmisused)
    refine Clause.fits_of_not_misused hc ?_
    rintro inner rfl
    exact ih inner (by simp) hc

end Made

/-- A view of a selection with a comparison of two literals, and an empty conjunction after it. -/
def twiceInvalid : List Clause :=
  [.createView "v" {},
    .asSelect (Statement.ofClauses .postgres
      [.select [], .from "t", .where (.compare (.literal (.int 1)) .eq (.literal (.int 2)))]),
    .where (.join .and [])]

end Polystore.Sql
