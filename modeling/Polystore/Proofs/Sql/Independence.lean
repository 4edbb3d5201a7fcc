import Polystore.Proofs.Sql.Literals

/-!
The text of a condition or a statement does not depend on what is in its literals. It depends on
which of them are compared as nulls and on how many are listed.
-/

namespace Polystore.Sql

@[simp] theorem outline_outline (pieces : List Piece) : outline (outline pieces) = outline pieces := by
  induction pieces with
  | nil => rfl
  | cons piece rest ih =>
    rw [outline_cons, outline_cons, ih]
    cases piece <;> rfl

theorem isAlternative_flat_blanked (p : Condition) :
    isAlternative p.blanked.flat = isAlternative p.flat := by
  rw [Predicate.flat_blanked, isAlternative_blanked]

section Fragments

variable {f g f' g' : Fragment}

theorem bindCount_outline (pieces : List Piece) :
    Fragment.bindCount ⟨outline pieces⟩ = Fragment.bindCount ⟨pieces⟩ := by
  rw [← Fragment.length_boundValues, ← Fragment.length_boundValues]
  induction pieces with
  | nil => rfl
  | cons piece rest ih =>
    cases piece with
    | bind v => exact congrArg (· + 1) ih
    | _ => exact ih

theorem outline_moved (count : Nat) (pieces : List Piece) :
    outline (pieces.map (Piece.moved count)) = (outline pieces).map (Piece.moved count) := by
  induction pieces with
  | nil => rfl
  | cons piece rest ih =>
    rw [List.map_cons, outline_cons, outline_cons, ih, List.map_cons]
    cases piece <;> rfl

theorem append_outline (hf : outline f.pieces = outline f'.pieces)
    (hg : outline g.pieces = outline g'.pieces) :
    outline (f ++ g).pieces = outline (f' ++ g').pieces := by
  have hcount : f.bindCount = f'.bindCount := by
    rw [← bindCount_outline f.pieces, hf, bindCount_outline]
  rw [Fragment.pieces_append, Fragment.pieces_append, outline_append, outline_append, outline_moved,
    outline_moved, hf, hg, hcount]

theorem push_outline (piece : Piece) (hf : outline f.pieces = outline f'.pieces) :
    outline (f.push piece).pieces = outline (f'.push piece).pieces := by
  rw [Fragment.push, Fragment.push, outline_append, outline_append, hf]

theorem appendGrouped_outline (hf : outline f.pieces = outline f'.pieces)
    (hg : outline g.pieces = outline g'.pieces) :
    outline (f.appendGrouped g).pieces = outline (f'.appendGrouped g').pieces :=
  push_outline _ (append_outline (push_outline _ hf) hg)

end Fragments

namespace Statement

def blanked (s : Statement) : Statement :=
  { s with fragment := ⟨outline s.fragment.pieces⟩ }

/-- Statements that differ in the values of their binds only. -/
structure Alike (s t : Statement) : Prop where
  dialect : s.dialect = t.dialect
  fragment : outline s.fragment.pieces = outline t.fragment.pieces
  hasWhere : s.hasWhere = t.hasWhere
  openList : s.openList = t.openList
  error : s.error = t.error

theorem alike_refl (s : Statement) : s.Alike s :=
  ⟨rfl, rfl, rfl, rfl, rfl⟩

theorem alike_blanked (s : Statement) : s.Alike s.blanked :=
  ⟨rfl, (outline_outline _).symm, rfl, rfl, rfl⟩

namespace Alike

variable {s t u i j : Statement}

theorem symm (h : s.Alike t) : t.Alike s :=
  ⟨h.dialect.symm, h.fragment.symm, h.hasWhere.symm, h.openList.symm, h.error.symm⟩

theorem trans (h : s.Alike t) (h' : t.Alike u) : s.Alike u :=
  ⟨h.dialect.trans h'.dialect, h.fragment.trans h'.fragment, h.hasWhere.trans h'.hasWhere,
    h.openList.trans h'.openList, h.error.trans h'.error⟩

theorem blanked_eq (h : s.Alike t) : s.blanked = t.blanked := by
  rw [blanked, blanked, h.dialect, h.fragment, h.hasWhere, h.openList, h.error]

theorem add (h : s.Alike t) {a b : List Piece} (hpieces : outline a = outline b) :
    (s.add a).Alike (t.add b) where
  dialect := h.dialect
  fragment := by rw [Statement.add, Statement.add, outline_append, outline_append, h.fragment, hpieces]
  hasWhere := h.hasWhere
  openList := h.openList
  error := h.error

theorem closeList (h : s.Alike t) : s.closeList.Alike t.closeList :=
  ⟨h.dialect, h.fragment, h.hasWhere, rfl, h.error⟩

theorem openClause (h : s.Alike t) (clause : ListClause) :
    (s.openClause clause).Alike (t.openClause clause) := by
  rw [Statement.openClause, Statement.openClause, h.openList]
  split
  · exact h.add rfl
  · have hword := h.add (rfl : outline [.text clause.word] = outline [.text clause.word])
    exact ⟨hword.dialect, hword.fragment, hword.hasWhere, rfl, hword.error⟩

theorem fail (h : s.Alike t) (e : Error) : (s.fail e).Alike (t.fail e) :=
  ⟨h.dialect, h.fragment, h.hasWhere, h.openList, by rw [Statement.fail, Statement.fail, h.error]⟩

theorem withFragment (h : s.Alike t) {f g : Fragment} (hfragment : outline f.pieces = outline g.pieces) :
    Alike { s with fragment := f } { t with fragment := g } :=
  ⟨h.dialect, hfragment, h.hasWhere, h.openList, h.error⟩

theorem withWhere (h : s.Alike t) :
    Alike { s with hasWhere := true } { t with hasWhere := true } :=
  ⟨h.dialect, h.fragment, rfl, h.openList, h.error⟩

theorem condition (h : s.Alike t) (p : Condition) : (s.condition p).Alike (t.condition p.blanked) := by
  obtain ⟨e, hp, hblanked⟩ | ⟨f, g, hp, hblanked, hfg⟩ :=
    Except.map_eq_map_cases (compile_blanked s.dialect p).symm
  · rw [h.dialect] at hblanked
    rw [Statement.condition, Statement.condition, hp, hblanked]
    exact h.fail e
  · rw [h.dialect] at hblanked
    rw [Statement.condition, Statement.condition, hp, hblanked, isAlternative_flat_blanked]
    refine h.withFragment ?_
    split
    · exact appendGrouped_outline h.fragment hfg
    · exact append_outline h.fragment hfg

theorem embed (h : s.Alike t) (hinner : i.Alike j) : (s.embed i).Alike (t.embed j) := by
  unfold Statement.embed
  dsimp only
  rw [h.dialect, hinner.dialect, hinner.error]
  have hdialect : (if t.dialect = j.dialect then s
        else s.fail (.invalidExpression (.embeddedDialect j.dialect.name t.dialect.name))).Alike
      (if t.dialect = j.dialect then t
        else t.fail (.invalidExpression (.embeddedDialect j.dialect.name t.dialect.name))) := by
    split
    · exact h
    · exact h.fail _
  split
  · exact (hdialect.fail _).withFragment (append_outline (hdialect.fail _).fragment hinner.fragment)
  · exact hdialect.withFragment (append_outline hdialect.fragment hinner.fragment)

end Alike

end Statement

/-- The clause without its literals, but for which of them are compared as nulls and how many are
listed. -/
def Clause.blanked : Clause → Clause
  | .join kind table on => .join kind table on.blanked
  | .where p => .where p.blanked
  | .set column _ => .set column .null
  | .change column op _ => .change column op .null
  | .values row => .values (row.map fun _ => .null)
  | .having p => .having p.blanked
  | .asSelect inner => .asSelect inner.blanked
  | .bind _ => .bind .null
  | .append f => .append ⟨outline f.pieces⟩
  | c => c

namespace Statement

theorem changePieces_outline (d : Dialect) (column : String) (op : UpdateOperator) (v w : Value) :
    outline (changePieces d column op v) = outline (changePieces d column op w) := by
  unfold changePieces
  split <;> rfl

theorem push_blanked {s t : Statement} (h : s.Alike t) (c : Clause) :
    (s.push c).Alike (t.push c.blanked) := by
  have hclosed := h.closeList
  have hopen (clause : ListClause) := h.openClause clause
  cases c with
  | join kind table on =>
    simp only [Clause.blanked, push]
    split
    · exact hclosed.add rfl
    · exact ((hclosed.add rfl).add rfl).condition on
  | «where» p =>
    have hword := hclosed.add (congrArg
      (fun seen => outline [.text (if seen then "AND" else "WHERE")]) h.hasWhere)
    exact hword.withWhere.condition p
  | set column v => exact (hopen .set).add rfl
  | change column op v =>
    simp only [Clause.blanked, push, h.dialect]
    refine (hopen .set).add ?_
    rw [outline_append, outline_append, changePieces_outline t.dialect column op v .null]
  | values row =>
    exact (hopen .values).add (grouped_outline (bindList_outline row).symm)
  | having p => exact (hclosed.add rfl).condition p
  | asSelect inner => exact hclosed.embed (alike_blanked inner)
  | bind v => exact h.add rfl
  | append f => exact h.withFragment (append_outline h.fragment (outline_outline _).symm)
  | createView title options =>
    exact hclosed.add (congrArg (fun d => outline (viewPieces d title options)) h.dialect)
  | lock l =>
    refine hclosed.add ?_
    rw [h.dialect]
  | returning columns =>
    refine hclosed.add ?_
    rw [h.dialect]
  | orderBy column descending => exact (hopen .orderBy).add rfl
  | name n => exact h.add rfl
  | reuse index => exact h.add rfl
  | select columns => exact hclosed.add rfl
  | selectDistinct columns => exact hclosed.add rfl
  | deleteFrom table => exact hclosed.add rfl
  | update table => exact hclosed.add rfl
  | insertInto table columns => exact hclosed.add rfl
  | «from» table => exact hclosed.add rfl
  | joinUsing kind table columns => exact hclosed.add rfl
  | groupBy columns => exact hclosed.add rfl
  | limit n => exact hclosed.add rfl
  | offset n => exact hclosed.add rfl
  | text t => exact hclosed.add rfl

theorem foldl_blanked (clauses : List Clause) {s t : Statement} (h : s.Alike t) :
    (clauses.foldl push s).Alike ((clauses.map Clause.blanked).foldl push t) := by
  induction clauses generalizing s t with
  | nil => exact h
  | cons c rest ih => exact ih (push_blanked h c)

/-- Clauses that differ in their literals only make statements that differ in their binds only. -/
theorem ofClauses_alike (d : Dialect) {clauses others : List Clause}
    (h : clauses.map Clause.blanked = others.map Clause.blanked) :
    (ofClauses d clauses).Alike (ofClauses d others) := by
  have hstart := alike_refl { dialect := d }
  have hleft := foldl_blanked clauses hstart
  rw [h] at hleft
  exact hleft.trans (foldl_blanked others hstart).symm

theorem render_alike {s t : Statement} (h : s.Alike t) :
    s.render.map (fun r => (r.sql, r.binds.length)) =
      t.render.map fun r => (r.sql, r.binds.length) := by
  rw [render, render, h.error, h.dialect]
  split
  · rfl
  · exact Fragment.render_alike t.dialect h.fragment

end Statement

namespace Fragment

theorem targets_outline (met : Nat) (pieces : List Piece) :
    targets met (outline pieces) = targets met pieces := by
  induction pieces generalizing met with
  | nil => rfl
  | cons piece rest ih =>
    cases piece with
    | bind v => exact congrArg (met :: ·) (ih (met + 1))
    | reuse index => exact congrArg (index :: ·) (ih met)
    | _ => exact ih met

theorem filled_outline (d : Dialect) (fillings : List (List Char)) (pieces : List Piece) :
    filled d fillings (outline pieces) = filled d fillings pieces := by
  induction pieces generalizing fillings with
  | nil => rfl
  | cons piece rest ih =>
    cases piece with
    | bind v => exact congrArg (_ :: ·) (ih fillings.tail)
    | reuse index => exact congrArg (_ :: ·) (ih fillings.tail)
    | missing operation => exact ih fillings
    | _ => exact congrArg (_ :: ·) (ih fillings)

theorem targets_own {pieces : List Piece} (h : ∀ index, .reuse index ∉ pieces) (met : Nat) :
    targets met pieces = List.range' met (boundValues pieces).length := by
  induction pieces generalizing met with
  | nil => rfl
  | cons piece rest ih =>
    have hrest : ∀ index, .reuse index ∉ rest := fun index hmem =>
      h index (List.mem_cons_of_mem _ hmem)
    cases piece with
    | bind v => exact congrArg (met :: ·) (ih hrest (met + 1))
    | reuse index => exact absurd (List.mem_cons_self ..) (h index)
    | _ => exact ih hrest met

theorem not_mem_of_outline {pieces : List Piece} {index : Nat}
    (h : .reuse index ∉ outline pieces) : .reuse index ∉ pieces :=
  fun hmem => h (List.mem_map_of_mem hmem)

theorem map_getD_range (values : List Value) :
    ((List.range values.length).map fun place => values.getD place .null) = values := by
  apply List.ext_getElem
  · simp
  · intro place _ hplace
    simp [List.getD_eq_getElem?_getD, hplace]

/-- What is rendered from pieces without values, if these are the values of the binds. The text has
the placeholders of the literals that the places stand for, and nothing else of the literals. -/
structure Placed (d : Dialect) (blank : List Piece) (literals : List Value) (r : Rendered) :
    Prop where
  text : r.sql = String.ofList (layout (filled d (marks d (targets 0 blank)) blank))
  binds : r.binds =
    if d.placeholder.isReusable then literals
    else (targets 0 blank).map fun place => literals.getD place .null
  stands : ∀ place ∈ targets 0 blank, place < literals.length
  own : (∀ index, .reuse index ∉ blank) →
    targets 0 blank = List.range literals.length ∧ r.binds = literals

theorem placed_of_render {d : Dialect} {f : Fragment} {r : Rendered} (h : f.render d = .ok r) :
    Placed d (outline f.pieces) (boundValues f.pieces) r := by
  obtain ⟨tokens, slots, hrun, rfl⟩ := render_eq_ok.mp h
  obtain ⟨resolved, slots', hrun', htargets, hvalues, -⟩ :=
    run_complete f.pieces (Slots.Tracks.start d) (completeAfter_of_run f.pieces hrun)
  cases hrun.symm.trans hrun'
  have hresolved : resolved = (targets 0 f.pieces).map fun place =>
      (boundValues f.pieces).getD place .null := by
    have hget := congrArg (List.map fun v : Option Value => v.getD .null) htargets
    simpa [List.getD_eq_getElem?_getD, Function.comp_def] using hget.symm
  have hbinds : slots.values = if d.placeholder.isReusable then boundValues f.pieces
      else (targets 0 f.pieces).map fun place => (boundValues f.pieces).getD place .null := by
    rw [← hresolved]
    exact hvalues
  refine ⟨?_, ?_, ?_, ?_⟩
  · rw [targets_outline, filled_outline]
    rfl
  · rw [targets_outline]
    exact hbinds
  · intro place hplace
    rw [targets_outline] at hplace
    have hvalue := List.mem_map_of_mem (f := fun target => (boundValues f.pieces)[target]?) hplace
    rw [show (targets 0 f.pieces).map (fun target => (boundValues f.pieces)[target]?) =
      resolved.map some from htargets, List.mem_map] at hvalue
    obtain ⟨v, -, hv⟩ := hvalue
    exact (List.getElem?_eq_some_iff.mp hv.symm).1
  · intro hown
    have htargets := targets_own (fun index => not_mem_of_outline (hown index)) 0
    rw [targets_outline, htargets, ← List.range_eq_range']
    refine ⟨rfl, ?_⟩
    simp only
    rw [hbinds, htargets, ← List.range_eq_range']
    split
    · rfl
    · exact map_getD_range _

end Fragment

/-- Two texts that are one. Its placeholders stand for the literals of the one and of the other, the
same for the same. -/
structure SameText (d : Dialect) (r t : Rendered) (v w : List Value) : Prop where
  sql : r.sql = t.sql
  count : r.binds.length = t.binds.length
  placed : ∃ blank, Fragment.Placed d blank v r ∧ Fragment.Placed d blank w t

section

variable {d : Dialect}

theorem sameText_of_render {f g : Fragment} {r t : Rendered}
    (h : outline f.pieces = outline g.pieces) (hr : f.render d = .ok r) (ht : g.render d = .ok t) :
    SameText d r t (Fragment.boundValues f.pieces) (Fragment.boundValues g.pieces) := by
  have hseen := Fragment.render_alike d h
  rw [hr, ht] at hseen
  obtain ⟨hsql, hcount⟩ := Prod.mk.inj (Except.ok.inj hseen)
  refine ⟨hsql, hcount, outline f.pieces, Fragment.placed_of_render hr, ?_⟩
  rw [h]
  exact Fragment.placed_of_render ht

theorem Binds.exists_render {f : Fragment} {values : List Value} (h : Binds f.pieces values) :
    ∃ r, f.render d = .ok r ∧ r.binds = values := by
  have hcomplete : Fragment.Complete f.pieces := by
    rintro before piece after hsplit
    have hpiece : piece ∈ f.pieces := by simp [hsplit]
    cases piece with
    | reuse index => exact absurd hpiece (h.own index)
    | missing operation => exact h.complete operation hpiece
    | _ => trivial
  obtain ⟨resolved, slots, hrun, -⟩ := Fragment.run_complete f.pieces (Slots.Tracks.start d)
    ((Fragment.complete_iff _).mp hcomplete)
  have hrender := Fragment.render_eq_ok.mpr ⟨_, slots, hrun, rfl⟩
  have hown : ∀ index, .reuse index ∉ outline f.pieces := by
    intro index hmem
    obtain ⟨piece, hpiece, hblank⟩ := List.mem_map.mp hmem
    cases piece with
    | reuse i => exact h.own i hpiece
    | _ => cases hblank
  exact ⟨_, hrender, ((Fragment.placed_of_render hrender).own hown).2.trans h.bound⟩

theorem compile_same_text {p q : Condition} (h : p.blanked = q.blanked) :
    (∃ e, compile d p = .error e ∧ compile d q = .error e) ∨
      ∃ f g r t, compile d p = .ok f ∧ compile d q = .ok g ∧
        f.render d = .ok r ∧ g.render d = .ok t ∧ r.binds = p.literals ∧ t.binds = q.literals ∧
        SameText d r t p.literals q.literals := by
  have halike : (compile d p).map (fun f => outline f.pieces) =
      (compile d q).map fun f => outline f.pieces := by
    rw [← compile_blanked, h, compile_blanked]
  obtain ⟨e, hp, hq⟩ | ⟨f, g, hp, hq, hfg⟩ := Except.map_eq_map_cases halike
  · exact .inl ⟨e, hp, hq⟩
  · have hf := compile_binds hp
    have hg := compile_binds hq
    obtain ⟨r, hr, hrbinds⟩ := hf.exists_render (d := d)
    obtain ⟨t, ht, htbinds⟩ := hg.exists_render (d := d)
    have hsame := sameText_of_render hfg hr ht
    rw [hf.bound, hg.bound] at hsame
    exact .inr ⟨f, g, r, t, hp, hq, hr, ht, hrbinds, htbinds, hsame⟩

theorem statement_same_text {clauses others : List Clause}
    (h : clauses.map Clause.blanked = others.map Clause.blanked) :
    (∃ e, (Statement.ofClauses d clauses).render = .error e ∧
        (Statement.ofClauses d others).render = .error e) ∨
      ∃ r t, (Statement.ofClauses d clauses).render = .ok r ∧
        (Statement.ofClauses d others).render = .ok t ∧
        SameText d r t (clauses.flatMap (Clause.literals d)) (others.flatMap (Clause.literals d)) := by
  have halike := Statement.ofClauses_alike d h
  obtain ⟨e, hr, ht⟩ | ⟨r, t, hr, ht, -⟩ := Except.map_eq_map_cases (Statement.render_alike halike)
  · exact .inl ⟨e, hr, ht⟩
  · obtain ⟨herror, hrender⟩ := Statement.render_eq_ok hr
    obtain ⟨herror', hrender'⟩ := Statement.render_eq_ok ht
    rw [Statement.dialect_ofClauses] at hrender hrender'
    have hsame := sameText_of_render halike.fragment hrender hrender'
    rw [Statement.boundValues_ofClauses herror, Statement.boundValues_ofClauses herror'] at hsame
    exact .inr ⟨r, t, hr, ht, hsame⟩

end

/-- **The text does not depend on literals.** Two conditions that differ in their literals only, but
not in which of them are null and in how many are listed, fail alike or are written as one text. So
are two statements out of clauses that differ in such literals only, of which the one can stand inside
another where the other one can. Every placeholder stands for a literal of its own, unless it is said
to stand for an earlier one. -/
theorem text_independent_of_literals (d : Dialect) :
    (∀ p q : Condition, p.blanked = q.blanked →
      (∃ e, compile d p = .error e ∧ compile d q = .error e) ∨
        ∃ f g r t, compile d p = .ok f ∧ compile d q = .ok g ∧
          f.render d = .ok r ∧ g.render d = .ok t ∧ r.binds = p.literals ∧ t.binds = q.literals ∧
          SameText d r t p.literals q.literals) ∧
    (∀ clauses others : List Clause, clauses.map Clause.blanked = others.map Clause.blanked →
      (Statement.ofClauses d clauses).blanked = (Statement.ofClauses d others).blanked ∧
        ((∃ e, (Statement.ofClauses d clauses).render = .error e ∧
            (Statement.ofClauses d others).render = .error e) ∨
          ∃ r t, (Statement.ofClauses d clauses).render = .ok r ∧
            (Statement.ofClauses d others).render = .ok t ∧
            SameText d r t (clauses.flatMap (Clause.literals d))
              (others.flatMap (Clause.literals d)))) :=
  ⟨fun _ _ h => compile_same_text h,
    fun _ _ h => ⟨(Statement.ofClauses_alike d h).blanked_eq, statement_same_text h⟩⟩

theorem text_independent_of_literals_quoted :
    let p (v w : Value) : Condition := .join .and [.compare (.key (.named "a")) .eq (.literal v),
      .member (.key (.named "b")) (.literal (.array [.int 1, w])) false,
      .compare (.key (.named "c")) .ne (.literal .null)]
    let clauses (v w : Value) : List Clause :=
      [.update "t", .change "n" .increment w, .where (p v w)]
    (∃ f g r t, compile .mysql (p (.string "x") .null) = .ok f ∧
      compile .mysql (p (.string "'; DROP TABLE t; --") (.int 2)) = .ok g ∧
      f.render .mysql = .ok r ∧ g.render .mysql = .ok t ∧ r.sql = t.sql) ∧
    ∃ r t, (Statement.ofClauses .postgres (clauses (.string "x") .null)).render = .ok r ∧
      (Statement.ofClauses .postgres (clauses (.string "' OR 1 = 1") (.int 2))).render = .ok t ∧
      r.sql = t.sql := by
  intro p clauses
  obtain ⟨hcondition, -⟩ := text_independent_of_literals .mysql
  obtain ⟨-, hstatement⟩ := text_independent_of_literals .postgres
  constructor
  · obtain ⟨e, hfail, -⟩ | ⟨f, g, r, t, hf, hg, hr, ht, -, -, hsame⟩ :=
      hcondition (p (.string "x") .null) (p (.string "'; DROP TABLE t; --") (.int 2)) rfl
    · cases hfail
    · exact ⟨f, g, r, t, hf, hg, hr, ht, hsame.sql⟩
  · obtain ⟨-, ⟨e, hfail, -⟩ | ⟨r, t, hr, ht, hsame⟩⟩ :=
      hstatement (clauses (.string "x") .null) (clauses (.string "' OR 1 = 1") (.int 2)) rfl
    · cases hfail
    · exact ⟨r, t, hr, ht, hsame.sql⟩

end Polystore.Sql
