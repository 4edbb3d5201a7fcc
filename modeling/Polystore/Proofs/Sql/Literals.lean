import Polystore.Proofs.Predicate.Fold
import Polystore.Proofs.Sql.Outline
import Polystore.Proofs.Sql.Placeholders

/-!
The literals of conditions and of clauses, in the order in which they are sent.
-/

namespace Polystore

/-- The literals in what a membership is tested in. A list is sent item by item. -/
def Operand.listed : Operand → List Value
  | .literal (.array values) => values
  | o => o.literals

namespace Predicate

/-- A test for null sends nothing, and a range without its upper end sends its subject twice. -/
def literalFold : Fold Operand (List Value) where
  compare left _ right := if left.isNull || right.isNull then [] else left.literals ++ right.literals
  member left right _ := left.literals ++ right.listed
  between subject low high exclusive _ :=
    subject.literals ++ low.literals ++
      if exclusive then subject.literals ++ high.literals else high.literals
  pattern subject test _ := subject.literals ++ test.literals
  not values := values
  join _ values := values.flatten

theorem literalFold_merges : literalFold.Merges where
  singleton _ _ := by simp [literalFold]
  append _ _ _ := by simp [literalFold]

def literals (p : Predicate Operand) : List Value :=
  p.fold literalFold

theorem literals_flat (p : Predicate Operand) : p.flat.literals = p.literals :=
  fold_flat literalFold_merges p

end Predicate

namespace Sql

/-- These pieces have these binds, and no other places of values. -/
structure Binds (pieces : List Piece) (values : List Value) : Prop where
  bound : Fragment.boundValues pieces = values
  complete : ∀ operation, .missing operation ∉ pieces
  own : ∀ index, .reuse index ∉ pieces

namespace Binds

variable {a b : List Piece} {v w : List Value}

theorem nil : Binds [] [] where
  bound := rfl
  complete _ := List.not_mem_nil
  own _ := List.not_mem_nil

theorem append (ha : Binds a v) (hb : Binds b w) : Binds (a ++ b) (v ++ w) where
  bound := by rw [Fragment.boundValues_append, ha.bound, hb.bound]
  complete operation h := (List.mem_append.mp h).elim (ha.complete operation) (hb.complete operation)
  own index h := (List.mem_append.mp h).elim (ha.own index) (hb.own index)

theorem text (t : String) : Binds [.text t] [] where
  bound := rfl
  complete _ := by simp
  own _ := by simp

theorem glue (t : String) : Binds [.glue t] [] where
  bound := rfl
  complete _ := by simp
  own _ := by simp

theorem name (n : String) : Binds [.name n] [] where
  bound := rfl
  complete _ := by simp
  own _ := by simp

theorem bind (value : Value) : Binds [.bind value] [value] where
  bound := rfl
  complete _ := by simp
  own _ := by simp

theorem text_cons (t : String) (h : Binds a v) : Binds (.text t :: a) v :=
  (text t).append h

theorem append_glue (t : String) (h : Binds a v) : Binds (a ++ [.glue t]) v := by
  have happend := h.append (glue t)
  rwa [List.append_nil] at happend

theorem grouped (h : Binds a v) : Binds (grouped a) v :=
  (h.append_glue ")").text_cons "("

theorem list : ∀ values : List Value, Binds (bindList values) values
  | [] => nil
  | [value] => bind value
  | value :: next :: rest => (bind value).append ((glue ",").append (list (next :: rest)))

end Binds

section Conditions

variable {d : Dialect} {ps : List Piece}

theorem operand_binds {o : Operand} (h : operand d o = .ok ps) : Binds ps o.literals := by
  cases o with
  | key k =>
    cases k with
    | named n =>
      cases h
      exact Binds.name n
    | primary =>
      cases hrow : d.rowIdentity with
      | none => simp [operand, hrow, Dialect.unsupported] at h
      | some column =>
        obtain rfl : [.text column] = ps := by simpa [operand, hrow] using h
        exact Binds.text column
  | literal v =>
    cases h
    exact Binds.bind v

theorem between_binds {left right : Operand} {word : String}
    (h : between d left word right = .ok ps) : Binds ps (left.literals ++ right.literals) := by
  simp only [between, Except.bind_eq_ok, pure, Except.pure, Except.ok.injEq] at h
  obtain ⟨l, hl, r, hr, rfl⟩ := h
  exact (operand_binds hl).append ((operand_binds hr).text_cons word)

theorem nullTest_binds {subject : Operand} {op : Comparison}
    (h : nullTest d subject op = .ok ps) : Binds ps subject.literals := by
  rw [nullTest] at h
  generalize d.nullSafe (op = .ne) = form at h
  obtain ⟨word, wrap⟩ := form
  split at h
  · simp only [Except.bind_eq_ok, pure, Except.pure, Except.ok.injEq] at h
    obtain ⟨s, hs, rfl⟩ := h
    have hbody : Binds (s ++ [.text word, .text "NULL"]) subject.literals := by
      have happend := (operand_binds hs).append ((Binds.text "NULL").text_cons word)
      rwa [List.append_nil] at happend
    split
    · exact (hbody.append_glue ")").text_cons "NOT ("
    · exact hbody
  · simp [invalid] at h

theorem literals_of_isKey {o : Operand} (h : o.isKey = true) : o.literals = [] := by
  cases o with
  | key k => rfl
  | literal v => cases h

theorem isKey_of_isNull {o : Operand} (h : o.isNull = true) : o.isKey = false := by
  cases o with
  | key k => cases h
  | literal v => rfl

theorem comparison_binds {left right : Operand} {op : Comparison}
    (h : comparison d left op right = .ok ps) :
    Binds ps (Predicate.compare left op right).literals := by
  change Binds ps (if left.isNull || right.isNull then [] else _)
  rw [comparison] at h
  split at h
  · simp [invalid] at h
  · next hkeys =>
    rw [Bool.and_eq_true, Bool.not_eq_true', Bool.not_eq_true', not_and, Bool.not_eq_false] at hkeys
    split at h
    · next hright =>
      have hleft : left.isKey = true := by
        cases hl : left.isKey with
        | true => rfl
        | false =>
          have hr := hkeys hl
          rw [isKey_of_isNull hright] at hr
          cases hr
      have hbinds := nullTest_binds h
      rw [literals_of_isKey hleft] at hbinds
      simpa [hright] using hbinds
    · split at h
      · next hright hleft =>
        have hbinds := nullTest_binds h
        rw [literals_of_isKey (hkeys (isKey_of_isNull hleft))] at hbinds
        simpa [hleft] using hbinds
      · next hright hleft => simpa [hright, hleft] using between_binds h

theorem membership_binds {left right : Operand} {negated : Bool}
    (h : membership d left right negated = .ok ps) :
    Binds ps (Predicate.member left right negated).literals := by
  change Binds ps (left.literals ++ right.listed)
  cases right with
  | key k =>
    rw [membership_key] at h
    split at h
    · simp only [Except.bind_eq_ok, pure, Except.pure, Except.ok.injEq] at h
      obtain ⟨e, he, a, ha, rfl⟩ := h
      rw [List.append_assoc]
      exact (operand_binds he).append (((operand_binds ha).append_glue ")").text_cons _)
    · simp [Dialect.unsupported] at h
  | literal v =>
    unfold membership at h
    split at h
    · next k values heq =>
      cases heq
      split at h
      · simp [invalid] at h
      · simp only [Except.bind_eq_ok, pure, Except.pure, Except.ok.injEq] at h
        obtain ⟨s, hs, rfl⟩ := h
        exact (operand_binds hs).append ((Binds.list values).grouped.text_cons _)
    · next heq => cases heq
    · simp [invalid] at h

theorem range_binds {subject low high : Operand} {exclusive negated : Bool}
    (h : range d subject low high exclusive negated = .ok ps) :
    Binds ps (Predicate.between subject low high exclusive negated).literals := by
  change Binds ps (subject.literals ++ low.literals ++ if exclusive then _ else _)
  rw [range] at h
  split at h
  · simp [invalid] at h
  · split at h
    · simp [invalid] at h
    · split at h
      · next hexclusive =>
        simp only [Except.bind_eq_ok, pure, Except.pure, Except.ok.injEq] at h
        obtain ⟨first, hfirst, second, hsecond, rfl⟩ := h
        rw [if_pos hexclusive]
        exact ((between_binds hfirst).append ((between_binds hsecond).text_cons _)).grouped
      · next hinclusive =>
        simp only [Except.bind_eq_ok, pure, Except.pure, Except.ok.injEq] at h
        obtain ⟨first, hfirst, last, hlast, rfl⟩ := h
        rw [if_neg hinclusive]
        exact (between_binds hfirst).append ((operand_binds hlast).text_cons _)

theorem like_binds {subject test : Operand} {negated : Bool}
    (h : like d subject test negated = .ok ps) :
    Binds ps (Predicate.pattern subject test negated).literals := by
  rw [like] at h
  split at h
  · simp [invalid] at h
  · exact between_binds h

theorem intercalate_binds (word : String) {terms : List (List Piece)} {values : List (List Value)}
    (h : List.Forall₂ Binds terms values) :
    Binds ([Piece.text word].intercalate terms) values.flatten := by
  induction h with
  | nil => exact Binds.nil
  | cons hterm hrest ih =>
    cases hrest with
    | nil => simpa [List.intercalate] using hterm
    | cons hnext hrest =>
      rw [List.intercalate_cons_cons, List.append_assoc, List.flatten_cons]
      exact hterm.append (ih.text_cons word)

mutual

theorem pieces_binds : ∀ (p : Condition) (ps : List Piece), pieces d p = .ok ps →
    Binds ps p.literals
  | .compare _ _ _, _, h => comparison_binds h
  | .member _ _ _, _, h => membership_binds h
  | .between _ _ _ _ _, _, h => range_binds h
  | .pattern _ _ _, _, h => like_binds h
  | .not p, ps, h => by
    simp only [pieces, Except.bind_eq_ok, pure, Except.pure, Except.ok.injEq] at h
    obtain ⟨inner, hinner, rfl⟩ := h
    have hbinds := pieces_binds p inner hinner
    split
    · exact hbinds.text_cons "NOT"
    · exact hbinds.grouped.text_cons "NOT"
  | .join c items, ps, h => by
    simp only [pieces, Except.bind_eq_ok] at h
    obtain ⟨terms, hterms, h⟩ := h
    split at h
    · simp [invalid] at h
    · cases h
      exact intercalate_binds _ (termPieces_binds c items _ hterms)

theorem termPieces_binds (c : Connective) : ∀ (items : List Condition) (terms : List (List Piece)),
    termPieces d c items = .ok terms →
    List.Forall₂ Binds terms (Predicate.foldAll Predicate.literalFold items)
  | [], _, h => by
    cases h
    exact .nil
  | p :: rest, _, h => by
    simp only [termPieces, Except.bind_eq_ok, pure, Except.pure, Except.ok.injEq] at h
    obtain ⟨term, hterm, terms, hterms, rfl⟩ := h
    have hbinds := pieces_binds p term hterm
    refine .cons ?_ (termPieces_binds c rest terms hterms)
    split
    · exact hbinds.grouped
    · exact hbinds

end

/-- A compiled condition sends its literals, and nothing else. -/
theorem compile_binds {p : Condition} {f : Fragment} (h : compile d p = .ok f) :
    Binds f.pieces p.literals := by
  simp only [compile, Except.bind_eq_ok, pure, Except.pure, Except.ok.injEq] at h
  obtain ⟨ps, hps, rfl⟩ := h
  rw [← Predicate.literals_flat]
  exact pieces_binds p.flat ps hps

end Conditions

/-- The literals of a clause, if the dialect has words for it. Those of a statement inside it are the
binds that it has. -/
def Clause.literals (d : Dialect) : Clause → List Value
  | .join kind _ on => if kind = .cross then [] else on.literals
  | .where p | .having p => p.literals
  | .set _ v | .bind v => [v]
  | .change _ op v => if (d.updateForm op).isOk then [v] else []
  | .values row => row
  | .asSelect inner => Fragment.boundValues inner.fragment.pieces
  | .append f => Fragment.boundValues f.pieces
  | _ => []

namespace Statement

theorem boundValues_nameList : ∀ columns : List String, Fragment.boundValues (nameList columns) = []
  | [] => rfl
  | [_] => rfl
  | _ :: next :: rest => boundValues_nameList (next :: rest)

theorem boundValues_grouped (pieces : List Piece) :
    Fragment.boundValues (grouped pieces) = Fragment.boundValues pieces := by
  change Fragment.boundValues (pieces ++ [.glue ")"]) = _
  rw [Fragment.boundValues_append]
  exact List.append_nil _

theorem boundValues_columnList (columns : List String) :
    Fragment.boundValues (columnList columns) = [] := by
  rw [columnList]
  split
  · rfl
  · exact boundValues_nameList columns

theorem boundValues_viewPieces (d : Dialect) (title : String) (options : ViewOptions) :
    Fragment.boundValues (viewPieces d title options) = [] := by
  have hoption (wanted supported : Bool) (word operation : String) :
      Fragment.boundValues (viewOption wanted supported word operation) = [] := by
    cases wanted <;> cases supported <;> rfl
  simp only [viewPieces, Fragment.boundValues_append, hoption, List.append_nil]
  rfl

theorem boundValues_changePieces (d : Dialect) (column : String) (op : UpdateOperator) (v : Value) :
    Fragment.boundValues (changePieces d column op v) = if (d.updateForm op).isOk then [v] else [] := by
  rw [changePieces]
  split
  · next h =>
    rw [h]
    rfl
  · next h =>
    rw [h]
    rfl
  · next h =>
    rw [h]
    rfl

/-- A statement without failures has come from another one and has these binds besides. -/
def Adds (s t : Statement) (values : List Value) : Prop :=
  t.error = none → s.error = none ∧
    Fragment.boundValues t.fragment.pieces = Fragment.boundValues s.fragment.pieces ++ values

section

variable {s t : Statement}

theorem Adds.refl (s : Statement) : Adds s s [] :=
  fun h => ⟨h, (List.append_nil _).symm⟩

theorem closeList_adds (s : Statement) : Adds s s.closeList [] :=
  fun h => ⟨h, (List.append_nil _).symm⟩

theorem Adds.add {pieces : List Piece} {values : List Value} (h : Adds s t [])
    (hpieces : Fragment.boundValues pieces = values) : Adds s (t.add pieces) values := by
  intro herror
  obtain ⟨hs, hbound⟩ := h herror
  refine ⟨hs, ?_⟩
  rw [Statement.add, Fragment.boundValues_append, hbound, hpieces, List.append_nil]

theorem openClause_adds (s : Statement) (clause : ListClause) : Adds s (s.openClause clause) [] := by
  have hadd (pieces : List Piece) (h : Fragment.boundValues pieces = []) :
      Adds s (s.add pieces) [] := (closeList_adds s).add h
  rw [openClause]
  split
  · exact hadd _ rfl
  · exact hadd [.text clause.word] rfl

theorem fail_ne_none (s : Statement) (e : Error) : (s.fail e).error ≠ none :=
  Option.some_ne_none _

theorem boundValues_push (f : Fragment) {piece : Piece} (h : piece.bound? = none) :
    Fragment.boundValues (f.push piece).pieces = Fragment.boundValues f.pieces := by
  simp [Fragment.push, Fragment.boundValues, h]

theorem boundValues_append_fragment (f g : Fragment) :
    Fragment.boundValues (f ++ g).pieces =
      Fragment.boundValues f.pieces ++ Fragment.boundValues g.pieces :=
  (Fragment.targets_appended f g).1

theorem Adds.condition {p : Condition} (h : Adds s t []) : Adds s (t.condition p) p.literals := by
  intro herror
  unfold Statement.condition at herror ⊢
  split at herror
  · exact absurd herror (fail_ne_none _ _)
  · next f hf =>
    obtain ⟨hs, hbound⟩ := h herror
    refine ⟨hs, ?_⟩
    rw [List.append_nil] at hbound
    simp only
    split
    · rw [Fragment.appendGrouped, boundValues_push _ rfl, boundValues_append_fragment,
        boundValues_push _ rfl, hbound, (compile_binds hf).bound]
    · rw [boundValues_append_fragment, hbound, (compile_binds hf).bound]

theorem Adds.embed {inner : Statement} (h : Adds s t []) :
    Adds s (t.embed inner) (Fragment.boundValues inner.fragment.pieces) := by
  intro herror
  unfold Statement.embed at herror ⊢
  dsimp only at herror ⊢
  split at herror
  · exact absurd herror (fail_ne_none _ _)
  · split at herror
    · next hdialect =>
      obtain ⟨hs, hbound⟩ := h herror
      refine ⟨hs, ?_⟩
      rw [List.append_nil] at hbound
      rw [if_pos hdialect, boundValues_append_fragment, hbound]
    · exact absurd herror (fail_ne_none _ _)

theorem dialect_openClause (s : Statement) (clause : ListClause) :
    (s.openClause clause).dialect = s.dialect := by
  rw [openClause]
  split <;> rfl

theorem dialect_condition (s : Statement) (p : Condition) :
    (s.condition p).dialect = s.dialect := by
  rw [Statement.condition]
  split <;> rfl

theorem dialect_embed (s inner : Statement) : (s.embed inner).dialect = s.dialect := by
  unfold Statement.embed
  dsimp only
  split <;> split <;> rfl

theorem dialect_push (s : Statement) (c : Clause) : (s.push c).dialect = s.dialect := by
  cases c with
  | join kind table on =>
    simp only [push]
    split
    · rfl
    · rw [dialect_condition]
      rfl
  | «where» p => exact dialect_condition _ p
  | having p => exact dialect_condition _ p
  | set column v => exact dialect_openClause s .set
  | change column op v => exact dialect_openClause s .set
  | values row => exact dialect_openClause s .values
  | orderBy column descending => exact dialect_openClause s .orderBy
  | asSelect inner => exact dialect_embed s.closeList inner
  | _ => rfl

theorem dialect_ofClauses (d : Dialect) (clauses : List Clause) :
    (ofClauses d clauses).dialect = d := by
  suffices hfold : ∀ s : Statement, (clauses.foldl push s).dialect = s.dialect from
    hfold { dialect := d }
  induction clauses with
  | nil => exact fun _ => rfl
  | cons c rest ih =>
    intro s
    rw [List.foldl_cons, ih, dialect_push]

theorem push_adds (s : Statement) (c : Clause) : Adds s (s.push c) (c.literals s.dialect) := by
  have hclosed := closeList_adds s
  have hopen (clause : ListClause) := openClause_adds s clause
  cases c with
  | select columns => exact hclosed.add (boundValues_columnList columns)
  | selectDistinct columns => exact hclosed.add (boundValues_columnList columns)
  | deleteFrom table => exact hclosed.add rfl
  | update table => exact hclosed.add rfl
  | insertInto table columns =>
    refine hclosed.add ?_
    split
    · rfl
    · rw [Fragment.boundValues_append, boundValues_grouped, boundValues_nameList]
      rfl
  | createView title options => exact hclosed.add (boundValues_viewPieces _ title options)
  | «from» table => exact hclosed.add rfl
  | join kind table on =>
    simp only [push, Clause.literals]
    split
    · exact hclosed.add rfl
    · exact ((hclosed.add rfl).add rfl).condition
  | joinUsing kind table columns =>
    refine hclosed.add ?_
    rw [Fragment.boundValues_append, Fragment.boundValues_append, boundValues_nameList]
    rfl
  | «where» p =>
    have hword : Adds s { s.closeList.add [.text (if s.hasWhere then "AND" else "WHERE")] with
        hasWhere := true } [] := hclosed.add rfl
    exact hword.condition
  | set column v => exact (hopen .set).add rfl
  | change column op v =>
    exact (hopen .set).add (boundValues_changePieces s.dialect column op v)
  | values row => exact (hopen .values).add (Binds.list row).grouped.bound
  | groupBy columns => exact hclosed.add (boundValues_nameList columns)
  | having p => exact (hclosed.add rfl).condition
  | orderBy column descending => exact (hopen .orderBy).add rfl
  | limit n => exact hclosed.add rfl
  | offset n => exact hclosed.add rfl
  | lock l =>
    refine hclosed.add ?_
    split <;> rfl
  | returning columns =>
    refine hclosed.add ?_
    split
    · exact boundValues_columnList columns
    · rfl
  | asSelect inner => exact hclosed.embed
  | text t => exact hclosed.add rfl
  | name n => exact (Adds.refl s).add rfl
  | bind v => exact (Adds.refl s).add rfl
  | reuse index => exact (Adds.refl s).add rfl
  | append f => exact fun herror => ⟨herror, boundValues_append_fragment s.fragment f⟩

theorem foldl_adds (clauses : List Clause) (s : Statement) :
    Adds s (clauses.foldl push s) (clauses.flatMap (Clause.literals s.dialect)) := by
  induction clauses generalizing s with
  | nil => exact Adds.refl s
  | cons c rest ih =>
    intro herror
    obtain ⟨hpushed, hrest⟩ := ih (s.push c) herror
    obtain ⟨hs, hbound⟩ := push_adds s c hpushed
    refine ⟨hs, ?_⟩
    rw [List.foldl_cons, hrest, hbound, dialect_push, List.append_assoc, List.flatMap_cons]

theorem render_eq_ok {s : Statement} {r : Rendered} (h : s.render = .ok r) :
    s.error = none ∧ s.fragment.render s.dialect = .ok r := by
  rw [render] at h
  split at h
  · cases h
  · next herror => exact ⟨herror, h⟩

/-- The binds of a statement without failures are the literals of its clauses. -/
theorem boundValues_ofClauses {d : Dialect} {clauses : List Clause}
    (h : (ofClauses d clauses).error = none) :
    Fragment.boundValues (ofClauses d clauses).fragment.pieces =
      clauses.flatMap (Clause.literals d) :=
  (foldl_adds clauses { dialect := d } h).2

end

end Statement

end Sql

end Polystore
