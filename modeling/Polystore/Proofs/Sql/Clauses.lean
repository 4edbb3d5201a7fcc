import Polystore.Proofs.Sql.Literals
import Polystore.Proofs.Sql.Rendering

/-!
What a clause does to a statement. Main statement: it adds pieces at the end, which are complete unless
the dialect has no words for the clause or a reuse in it names no earlier bind; what fails in it is
kept if nothing failed before.
-/

namespace Polystore.Sql

open Fragment

theorem Binds.completeAfter {pieces : List Piece} {values : List Value} (h : Binds pieces values)
    (met : Nat) : CompleteAfter met pieces := by
  obtain ⟨-, hmissing, hown⟩ := h
  induction pieces generalizing met with
  | nil => trivial
  | cons piece rest ih =>
    have hrest (met : Nat) : CompleteAfter met rest :=
      ih met (fun operation hmem => hmissing operation (List.mem_cons_of_mem _ hmem))
        fun index hmem => hown index (List.mem_cons_of_mem _ hmem)
    cases piece with
    | bind v => exact hrest (met + 1)
    | reuse index => exact absurd List.mem_cons_self (hown index)
    | missing operation => exact absurd List.mem_cons_self (hmissing operation)
    | text t => exact hrest met
    | glue t => exact hrest met
    | name n => exact hrest met

theorem Binds.moved {pieces : List Piece} {values : List Value} (h : Binds pieces values)
    (count : Nat) : pieces.map (Piece.moved count) = pieces := by
  refine (List.map_congr_left fun piece hmem => ?_).trans (List.map_id pieces)
  cases piece with
  | reuse index => exact absurd hmem (h.own index)
  | _ => rfl

/-- A condition as it stands among others: a disjunction is kept together. -/
def standing (d : Dialect) (p : Condition) : Except Error (List Piece) :=
  (compile d p).map fun f => if isAlternative p.flat then grouped f.pieces else f.pieces

theorem standing_binds {d : Dialect} {p : Condition} {pieces : List Piece}
    (h : standing d p = .ok pieces) : Binds pieces p.literals := by
  obtain ⟨f, hf, rfl⟩ := Except.map_eq_ok.mp h
  split
  · exact (compile_binds hf).grouped
  · exact compile_binds hf

namespace Clause

/-- Why a condition cannot be compiled. -/
def conditionFailure? (d : Dialect) (p : Condition) : Option Error :=
  match compile d p with
  | .error e => some e
  | .ok _ => none

/-- What fails when the clause is added to a statement. -/
def failure? (d : Dialect) : Clause → Option Error
  | .where p | .having p => conditionFailure? d p
  | .join kind _ on => if kind = .cross then none else conditionFailure? d on
  | .asSelect inner =>
    if d = inner.dialect then inner.error
    else some (.invalidExpression (.embeddedDialect inner.dialect.name d.name))
  | _ => none

/-- The clause asks for something that the dialect has no words for. -/
def Lacking (d : Dialect) : Clause → Prop
  | .lock _ => d.hasRowLocks = false
  | .returning _ => d.hasReturning = false
  | .change _ op _ => d.hasArrays = false ∧ (op = .arrayAppend ∨ op = .arrayRemove)
  | .createView _ options =>
    options.replace = true ∧ d.views.replace = false ∨
      options.temporary = true ∧ d.views.temporary = false ∨
      options.recursive = true ∧ d.views.recursive = false ∨
      options.ifNotExists = true ∧ d.views.ifNotExists = false
  | .append f => ∃ operation, .missing operation ∈ f.pieces
  | _ => False

/-- A reuse in the clause names no earlier bind, if so many come before the clause. Those of a fragment
count its own binds. -/
def Dangling (met : Nat) : Clause → Prop
  | .reuse index => met ≤ index
  | .append f => ∃ before index after,
      f.pieces = before ++ .reuse index :: after ∧ (boundValues before).length ≤ index
  | _ => False

/-- The pieces of the clause are complete after so many binds. -/
def Fits (d : Dialect) (met : Nat) : Clause → Prop
  | .asSelect inner => Complete inner.fragment.pieces
  | c => ¬c.Lacking d ∧ ¬c.Dangling met

end Clause

namespace Fragment

theorem complete_iff_not (pieces : List Piece) : Complete pieces ↔
    (¬∃ operation, .missing operation ∈ pieces) ∧
      ¬∃ before index after, pieces = before ++ .reuse index :: after ∧
        (boundValues before).length ≤ index := by
  constructor
  · intro h
    refine ⟨?_, ?_⟩
    · rintro ⟨operation, hmem⟩
      obtain ⟨before, after, hsplit⟩ := List.append_of_mem hmem
      exact h before _ after hsplit
    · rintro ⟨before, index, after, hsplit, hindex⟩
      exact absurd (h before _ after hsplit) (Nat.not_lt.mpr hindex)
  · rintro ⟨hmissing, hreuse⟩ before piece after hsplit
    cases piece with
    | reuse index =>
      refine Nat.lt_of_not_le fun hindex => hreuse ⟨before, index, after, hsplit, hindex⟩
    | missing operation => exact hmissing ⟨operation, by simp [hsplit]⟩
    | _ => trivial

end Fragment

namespace Statement

/-- Pieces have been added to a statement, and perhaps a failure. -/
structure Grows (s t : Statement) (failure : Option Error) (more : List Piece) : Prop where
  dialect : t.dialect = s.dialect
  error : t.error = s.error.or failure
  pieces : t.fragment.pieces = s.fragment.pieces ++ more

variable {s t : Statement} {failure : Option Error} {more : List Piece}

theorem Grows.refl (s : Statement) : Grows s s none [] :=
  ⟨rfl, Option.or_none.symm, (List.append_nil _).symm⟩

theorem closeList_grows (s : Statement) : Grows s s.closeList none [] :=
  ⟨rfl, Option.or_none.symm, (List.append_nil _).symm⟩

theorem Grows.add (h : Grows s t failure more) (pieces : List Piece) :
    Grows s (t.add pieces) failure (more ++ pieces) where
  dialect := h.dialect
  error := h.error
  pieces := by rw [Statement.add, h.pieces, List.append_assoc]

theorem openClause_grows (s : Statement) (clause : ListClause) :
    Grows s (s.openClause clause) none
      [if s.openList = some clause then .glue "," else .text clause.word] := by
  rw [openClause]
  split
  · exact (Grows.refl s).add [.glue ","]
  · exact ⟨rfl, Option.or_none.symm, rfl⟩

theorem error_fail (s : Statement) (e : Error) : (s.fail e).error = s.error.or (some e) := by
  rw [fail]
  cases s.error <;> rfl

theorem Grows.fail (h : Grows s t none more) (e : Error) : Grows s (t.fail e) (some e) more where
  dialect := h.dialect
  error := by rw [error_fail, h.error, Option.or_none]
  pieces := h.pieces

/-- A condition that compiles is added as it stands. -/
theorem Grows.condition (h : Grows s t none more) (p : Condition) :
    Grows s (t.condition p) (Clause.conditionFailure? s.dialect p)
      (more ++ ((standing s.dialect p).toOption.getD [])) := by
  have hdialect := h.dialect
  cases hp : compile s.dialect p with
  | error e =>
    have hfail := h.fail e
    rw [← List.append_nil more] at hfail
    simp only [Statement.condition, Clause.conditionFailure?, standing, hdialect, hp]
    exact hfail
  | ok f =>
    have hown := (compile_binds hp).moved
    simp only [Statement.condition, Clause.conditionFailure?, standing, hdialect, hp]
    refine ⟨rfl, h.error, ?_⟩
    simp only [Except.map, Except.toOption, Option.getD_some]
    split
    · simp only [appendGrouped, Fragment.push, Fragment.pieces_append, h.pieces, hown, grouped,
        List.append_assoc, List.singleton_append]
    · rw [Fragment.pieces_append, h.pieces, hown, List.append_assoc]

theorem Grows.embed (h : Grows s t none more) (inner : Statement) :
    Grows s (t.embed inner) (Clause.failure? s.dialect (.asSelect inner))
      (more ++ inner.fragment.pieces.map (Piece.moved t.fragment.bindCount)) := by
  have hdialect : t.dialect = s.dialect := h.dialect
  have herror : t.error = s.error := h.error.trans Option.or_none
  have hpieces (f : Fragment) (hf : f = t.fragment) : (f ++ inner.fragment).pieces =
      s.fragment.pieces ++ (more ++ inner.fragment.pieces.map (Piece.moved t.fragment.bindCount)) := by
    rw [hf, Fragment.pieces_append, h.pieces, List.append_assoc]
  unfold Statement.embed Clause.failure?
  dsimp only
  rw [hdialect]
  by_cases hsame : s.dialect = inner.dialect
  · rw [if_pos hsame, if_pos hsame]
    cases inner.error with
    | none => exact ⟨hdialect, h.error, hpieces _ rfl⟩
    | some e => exact ⟨hdialect, by rw [error_fail, herror], hpieces _ rfl⟩
  · rw [if_neg hsame, if_neg hsame]
    cases inner.error with
    | none => exact ⟨hdialect, by rw [error_fail, herror], hpieces _ rfl⟩
    | some e =>
      refine ⟨hdialect, ?_, hpieces _ rfl⟩
      rw [error_fail, error_fail, herror]
      cases s.error <;> rfl

/-- A condition is added after its word. -/
theorem where_grows (s : Statement) (p : Condition) :
    Grows s (s.push (.where p)) (Clause.conditionFailure? s.dialect p)
      (.text (if s.hasWhere then "AND" else "WHERE") :: (standing s.dialect p).toOption.getD []) := by
  have hword := (closeList_grows s).add [.text (if s.hasWhere then "AND" else "WHERE")]
  have hflag : Grows s { s.closeList.add [.text (if s.hasWhere then "AND" else "WHERE")] with
      hasWhere := true } none [.text (if s.hasWhere then "AND" else "WHERE")] :=
    ⟨hword.dialect, hword.error, hword.pieces⟩
  exact hflag.condition p

theorem nameList_binds : ∀ columns : List String, Binds (nameList columns) []
  | [] => Binds.nil
  | [n] => Binds.name n
  | n :: next :: rest => (Binds.name n).append ((Binds.glue ",").append (nameList_binds (next :: rest)))

theorem columnList_binds (columns : List String) : Binds (columnList columns) [] := by
  rw [columnList]
  split
  · exact Binds.text "*"
  · exact nameList_binds columns

theorem opening_binds (goesOn : Prop) [Decidable goesOn] (word : String) :
    Binds [if goesOn then .glue "," else .text word] [] := by
  split
  · exact Binds.glue ","
  · exact Binds.text word

theorem completeAfter_viewPieces (met : Nat) (d : Dialect) (title : String) (options : ViewOptions) :
    CompleteAfter met (viewPieces d title options) ↔ ¬(Clause.createView title options).Lacking d := by
  have hoption (met : Nat) (wanted supported : Bool) (word operation : String) :
      CompleteAfter met (viewOption wanted supported word operation) ↔
        ¬(wanted = true ∧ supported = false) := by
    cases wanted <;> cases supported <;> simp [viewOption, CompleteAfter]
  simp only [viewPieces, completeAfter_append, hoption, Clause.Lacking, not_or, CompleteAfter,
    true_and, and_true, and_assoc]

theorem completeAfter_changePieces (met : Nat) (d : Dialect) (column : String) (op : UpdateOperator)
    (v : Value) : CompleteAfter met (changePieces d column op v) ↔
      ¬(Clause.change column op v).Lacking d := by
  cases op with
  | arrayAppend => cases h : d.hasArrays <;> simp [changePieces, Dialect.updateForm, h,
      Dialect.unsupported, CompleteAfter, Clause.Lacking]
  | arrayRemove => cases h : d.hasArrays <;> simp [changePieces, Dialect.updateForm, h,
      Dialect.unsupported, CompleteAfter, Clause.Lacking]
  | _ => simp [changePieces, Dialect.updateForm, CompleteAfter, Clause.Lacking]

/-- A clause adds pieces at the end and keeps what fails in it. -/
theorem push_grows (s : Statement) (c : Clause) : ∃ more,
    Grows s (s.push c) (c.failure? s.dialect) more ∧
      (CompleteAfter s.fragment.bindCount more ↔ c.Fits s.dialect s.fragment.bindCount) := by
  have hclosed := closeList_grows s
  -- Most clauses consist of words, names and binds.
  have hplain {t : Statement} {failure : Option Error} {more : List Piece} {values : List Value}
      {fits : Prop} (hgrows : Grows s t failure more) (hbinds : Binds more values) (hfits : fits) :
      ∃ more, Grows s t failure more ∧ (CompleteAfter s.fragment.bindCount more ↔ fits) :=
    ⟨more, hgrows, iff_of_true (hbinds.completeAfter _) hfits⟩
  have hnone : ¬False ∧ ¬False := ⟨id, id⟩
  have hcondition {d : Dialect} (p : Condition) :
      ∃ values, Binds ((standing d p).toOption.getD []) values := by
    cases h : standing d p with
    | error e => exact ⟨[], Binds.nil⟩
    | ok pieces => exact ⟨_, standing_binds h⟩
  cases c with
  | select columns =>
    exact hplain (hclosed.add _) ((columnList_binds columns).text_cons "SELECT") hnone
  | selectDistinct columns =>
    exact hplain (hclosed.add _) ((columnList_binds columns).text_cons "SELECT DISTINCT") hnone
  | deleteFrom table => exact hplain (hclosed.add _) ((Binds.name table).text_cons "DELETE FROM") hnone
  | update table => exact hplain (hclosed.add _) ((Binds.name table).text_cons "UPDATE") hnone
  | insertInto table columns =>
    have hcolumns : Binds (if columns.isEmpty then [] else grouped (nameList columns)) [] := by
      split
      · exact Binds.nil
      · exact (nameList_binds columns).grouped
    exact hplain (hclosed.add _) (((Binds.name table).text_cons "INSERT INTO").append hcolumns) hnone
  | createView title options =>
    exact ⟨_, hclosed.add _, (completeAfter_viewPieces _ s.dialect title options).trans
      (and_iff_left id).symm⟩
  | «from» table => exact hplain (hclosed.add _) ((Binds.name table).text_cons "FROM") hnone
  | join kind table on =>
    have hjoin := hclosed.add [.text kind.word, .name table]
    have hbinds := (Binds.name table).text_cons kind.word
    simp only [push, Clause.failure?]
    split
    · exact hplain hjoin hbinds hnone
    · obtain ⟨values, hvalues⟩ := hcondition (d := s.dialect) on
      exact hplain ((hjoin.add [.text "ON"]).condition on)
        ((hbinds.append (Binds.text "ON")).append hvalues) hnone
  | joinUsing kind table columns =>
    exact hplain (hclosed.add _)
      ((((Binds.name table).append (Binds.text "USING (")).text_cons kind.word).append
        (nameList_binds columns) |>.append_glue ")") hnone
  | «where» p =>
    obtain ⟨values, hvalues⟩ := hcondition (d := s.dialect) p
    exact hplain (where_grows s p) ((Binds.text _).append hvalues) hnone
  | set column v =>
    exact hplain ((openClause_grows s .set).add _) ((opening_binds _ _).append
      ((Binds.name column).append ((Binds.bind v).text_cons "="))) hnone
  | change column op v =>
    refine ⟨_, (openClause_grows s .set).add _, ?_⟩
    have hhead := (opening_binds (s.openList = some .set) ListClause.set.word).append
      ((Binds.name column).append (Binds.text "="))
    rw [← List.append_assoc]
    exact (completeAfter_append.trans (and_iff_right (hhead.completeAfter _))).trans
      ((completeAfter_changePieces _ s.dialect column op v).trans (and_iff_left id).symm)
  | values row =>
    exact hplain ((openClause_grows s .values).add _) ((opening_binds _ _).append
      (Binds.list row).grouped) hnone
  | groupBy columns =>
    exact hplain (hclosed.add _) ((nameList_binds columns).text_cons "GROUP BY") hnone
  | having p =>
    obtain ⟨values, hvalues⟩ := hcondition (d := s.dialect) p
    exact hplain ((hclosed.add [.text "HAVING"]).condition p) ((Binds.text _).append hvalues) hnone
  | orderBy column descending =>
    exact hplain ((openClause_grows s .orderBy).add _) ((opening_binds _ _).append
      ((Binds.name column).append (Binds.text _))) hnone
  | limit n => exact hplain (hclosed.add _) ((Binds.text _).text_cons "LIMIT") hnone
  | offset n => exact hplain (hclosed.add _) ((Binds.text _).text_cons "OFFSET") hnone
  | lock l =>
    refine ⟨_, hclosed.add _, ?_⟩
    cases h : s.dialect.hasRowLocks <;>
      simp [Dialect.lockClause, h, Dialect.unsupported, CompleteAfter, Clause.Fits, Clause.Lacking,
        Clause.Dangling]
  | returning columns =>
    refine ⟨_, hclosed.add _, ?_⟩
    cases h : s.dialect.hasReturning with
    | false => simp [CompleteAfter, Clause.Fits, Clause.Lacking, h]
    | true =>
      have hbinds := (columnList_binds columns).text_cons "RETURNING"
      simp [Clause.Fits, Clause.Lacking, Clause.Dangling, h, hbinds.completeAfter]
  | asSelect inner =>
    refine ⟨_, hclosed.embed inner, ?_⟩
    have hmoved := completeAfter_moved s.fragment.bindCount 0 inner.fragment.pieces
    rw [Nat.zero_add] at hmoved
    exact hmoved.trans (complete_iff _).symm
  | text t => exact hplain (hclosed.add _) (Binds.text t) hnone
  | name n => exact hplain ((Grows.refl s).add _) (Binds.name n) hnone
  | bind v => exact hplain ((Grows.refl s).add _) (Binds.bind v) hnone
  | reuse index =>
    refine ⟨_, (Grows.refl s).add _, ?_⟩
    simp [CompleteAfter, Clause.Fits, Clause.Lacking, Clause.Dangling]
  | append f =>
    have hmoved := completeAfter_moved s.fragment.bindCount 0 f.pieces
    rw [Nat.zero_add] at hmoved
    refine ⟨_, ⟨rfl, Option.or_none.symm, rfl⟩, hmoved.trans ?_⟩
    rw [← complete_iff, complete_iff_not]
    rfl

theorem ofClauses_append (d : Dialect) (before after : List Clause) :
    ofClauses d (before ++ after) = after.foldl push (ofClauses d before) :=
  List.foldl_append

theorem ofClauses_concat (d : Dialect) (before : List Clause) (c : Clause) :
    ofClauses d (before ++ [c]) = (ofClauses d before).push c :=
  ofClauses_append d before [c]

theorem error_foldl (clauses : List Clause) (s : Statement) :
    (clauses.foldl push s).error = s.error.or (clauses.findSome? (Clause.failure? s.dialect)) := by
  induction clauses generalizing s with
  | nil => exact Option.or_none.symm
  | cons c rest ih =>
    obtain ⟨more, hgrows, -⟩ := push_grows s c
    rw [List.foldl_cons, ih, hgrows.error, hgrows.dialect, Option.or_assoc, List.findSome?_cons]
    cases c.failure? s.dialect <;> rfl

/-- The first failure is kept. -/
theorem error_ofClauses (d : Dialect) (clauses : List Clause) :
    (ofClauses d clauses).error = clauses.findSome? (Clause.failure? d) :=
  error_foldl clauses { dialect := d }

theorem pieces_prefix (d : Dialect) (before after : List Clause) :
    (ofClauses d before).fragment.pieces <+: (ofClauses d (before ++ after)).fragment.pieces := by
  rw [ofClauses_append]
  generalize ofClauses d before = s
  induction after generalizing s with
  | nil => exact List.prefix_rfl
  | cons c rest ih =>
    obtain ⟨more, hgrows, -⟩ := push_grows s c
    refine List.IsPrefix.trans ?_ (ih (s.push c))
    rw [hgrows.pieces]
    exact List.prefix_append _ _

/-- A statement is complete if every clause fits after those before it. -/
theorem complete_ofClauses (d : Dialect) (clauses : List Clause) :
    Complete (ofClauses d clauses).fragment.pieces ↔
      ∀ before c after, clauses = before ++ c :: after →
        c.Fits d (ofClauses d before).fragment.bindCount := by
  induction clauses using List.reverseRecOn with
  | nil => exact iff_of_true ((complete_iff []).mpr trivial) fun before c after h => by simp at h
  | append_singleton init last ih =>
    obtain ⟨more, hgrows, hfits⟩ := push_grows (ofClauses d init) last
    rw [dialect_ofClauses] at hfits
    rw [ofClauses_concat, hgrows.pieces, complete_iff, completeAfter_append, ← complete_iff, ih,
      Nat.zero_add, length_boundValues, hfits]
    constructor
    · rintro ⟨hinit, hlast⟩ before c after hsplit
      obtain rfl | ⟨rest, x, rfl⟩ := List.eq_nil_or_concat after
      · obtain ⟨rfl, hc⟩ := List.append_inj' hsplit rfl
        cases hc
        exact hlast
      · rw [List.concat_eq_append, ← List.cons_append, ← List.append_assoc] at hsplit
        exact hinit before c rest (List.append_inj' hsplit rfl).1
    · intro h
      refine ⟨fun before c after hsplit => ?_, h init last [] rfl⟩
      exact h before c (after ++ [last]) (by rw [hsplit, List.append_assoc, List.cons_append])

/-- Without failures a statement is rendered as its pieces are. -/
theorem render_of_failure?_eq_none {d : Dialect} {clauses : List Clause}
    (h : clauses.findSome? (Clause.failure? d) = none) :
    (ofClauses d clauses).render = (ofClauses d clauses).fragment.render d := by
  rw [render, error_ofClauses, h, dialect_ofClauses]

theorem failure?_eq_none_of_render {d : Dialect} {clauses : List Clause} {r : Rendered}
    (h : (ofClauses d clauses).render = .ok r) :
    clauses.findSome? (Clause.failure? d) = none := by
  rw [← error_ofClauses]
  exact (render_eq_ok h).1

/-- A rendered statement has a rendered one at its beginning, if nothing fails in that. -/
theorem exists_render_of_prefix {d : Dialect} {before whole : List Clause} {r : Rendered}
    (hnone : before.findSome? (Clause.failure? d) = none)
    (hpieces : (ofClauses d before).fragment.pieces <+: (ofClauses d whole).fragment.pieces)
    (h : (ofClauses d whole).render = .ok r) :
    ∃ r₀, (ofClauses d before).render = .ok r₀ ∧ r₀.sql.toList <+: r.sql.toList ∧
      r₀.binds <+: r.binds := by
  rw [render_of_failure?_eq_none (failure?_eq_none_of_render h)] at h
  obtain ⟨more, hmore⟩ := hpieces
  rw [show (ofClauses d whole).fragment = ⟨_⟩ from congrArg Fragment.mk hmore.symm] at h
  rw [render_of_failure?_eq_none hnone]
  exact exists_render_append h

theorem exists_render_iff (d : Dialect) (clauses : List Clause) :
    (∃ r, (ofClauses d clauses).render = .ok r) ↔
      clauses.findSome? (Clause.failure? d) = none ∧
        Complete (ofClauses d clauses).fragment.pieces := by
  rw [← error_ofClauses, render]
  cases (ofClauses d clauses).error with
  | some e => exact iff_of_false (by simp) (by simp)
  | none => exact Fragment.exists_render_iff.trans (and_iff_right rfl).symm

end Statement

end Polystore.Sql
