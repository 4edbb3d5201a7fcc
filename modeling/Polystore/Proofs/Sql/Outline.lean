import Polystore.Proofs.Except
import Polystore.Sql.Statement

/-!
What is left of pieces, of conditions and of statements when their literals are taken out. Compiling
and rendering depend on nothing else.
-/

namespace Polystore

/-- The operand with a fixed literal in place of its own; a null stays. -/
def Operand.blanked : Operand → Operand
  | .key k => .key k
  | .literal .null => .literal .null
  | .literal _ => .literal (.bool false)

/-- What a membership is tested in: of a list only the length is left. -/
def Operand.blankedList : Operand → Operand
  | .literal (.array values) => .literal (.array (values.map fun _ => .null))
  | o => o.blanked

@[simp] theorem Operand.isKey_blanked (o : Operand) : o.blanked.isKey = o.isKey := by
  cases o with
  | key k => rfl
  | literal v => cases v <;> rfl

@[simp] theorem Operand.isNull_blanked (o : Operand) : o.blanked.isNull = o.isNull := by
  cases o with
  | key k => rfl
  | literal v => cases v <;> rfl

namespace Sql

def Piece.blanked : Piece → Piece
  | .bind _ => .bind .null
  | piece => piece

/-- The pieces without the values of their binds. -/
def outline (pieces : List Piece) : List Piece :=
  pieces.map Piece.blanked

@[simp] theorem outline_nil : outline [] = [] :=
  rfl

@[simp] theorem outline_cons (piece : Piece) (rest : List Piece) :
    outline (piece :: rest) = piece.blanked :: outline rest :=
  rfl

@[simp] theorem outline_append (a b : List Piece) : outline (a ++ b) = outline a ++ outline b :=
  List.map_append

theorem grouped_outline {a b : List Piece} (h : outline a = outline b) :
    outline (grouped a) = outline (grouped b) := by
  simp [grouped, h]

section Conditions

variable (d : Dialect)

theorem operand_outline (o : Operand) :
    (operand d o.blanked).map outline = (operand d o).map outline := by
  cases o with
  | key k => rfl
  | literal v => cases v <;> rfl

theorem between_outline (left : Operand) (word : String) (right : Operand) :
    (between d left.blanked word right.blanked).map outline =
      (between d left word right).map outline := by
  refine Except.map_bind_congr (operand_outline d left) fun l l' hl => ?_
  refine Except.map_bind_congr (operand_outline d right) fun r r' hr => ?_
  simp [Except.map, pure, Except.pure, hl, hr]

theorem nullTest_outline (subject : Operand) (op : Comparison) :
    (nullTest d subject.blanked op).map outline = (nullTest d subject op).map outline := by
  rw [nullTest, nullTest]
  generalize d.nullSafe (op = .ne) = form
  obtain ⟨word, wrap⟩ := form
  split
  · refine Except.map_bind_congr (operand_outline d subject) fun s s' hs => ?_
    cases wrap <;> simp [Except.map, pure, Except.pure, hs]
  · rfl

theorem comparison_outline (left : Operand) (op : Comparison) (right : Operand) :
    (comparison d left.blanked op right.blanked).map outline =
      (comparison d left op right).map outline := by
  simp only [comparison, Operand.isKey_blanked, Operand.isNull_blanked]
  split
  · rfl
  · split
    · exact nullTest_outline d left op
    · split
      · exact nullTest_outline d right op
      · exact between_outline d left op.symbol right

theorem bindList_outline (values : List Value) :
    outline (bindList (values.map fun _ => .null)) = outline (bindList values) := by
  induction values with
  | nil => rfl
  | cons v rest ih =>
    cases rest with
    | nil => rfl
    | cons w rest => exact congrArg (fun ps => .bind .null :: .glue "," :: ps) ih

theorem membership_list (k : Key) (values : List Value) (negated : Bool) :
    (membership d (.key k) (.literal (.array (values.map fun _ => .null))) negated).map outline =
      (membership d (.key k) (.literal (.array values)) negated).map outline := by
  simp only [membership, List.isEmpty_map]
  split
  · rfl
  · refine Except.map_bind_congr (operand_outline d (.key k)) fun s s' hs => ?_
    refine congrArg Except.ok ?_
    rw [outline_append, outline_append, outline_cons, outline_cons, hs,
      grouped_outline (bindList_outline values)]

theorem membership_key (element : Operand) (k : Key) (negated : Bool) :
    membership d element (.key k) negated =
      if d.hasArrays then do
        let e ← operand d element
        let a ← operand d (.key k)
        pure (e ++ .text (if negated then "<> ALL(" else "= ANY(") :: a ++ [.glue ")"])
      else d.unsupported "array membership" := by
  cases element <;> rfl

theorem membership_outline (left right : Operand) (negated : Bool) :
    (membership d left.blanked right.blankedList negated).map outline =
      (membership d left right negated).map outline := by
  cases right with
  | key k =>
    change (membership d left.blanked (.key k) negated).map outline = _
    rw [membership_key, membership_key]
    split
    · refine Except.map_bind_congr (operand_outline d left) fun e e' he => ?_
      refine Except.map_bind_congr (operand_outline d (.key k)) fun a a' ha => ?_
      simp [Except.map, pure, Except.pure, he, ha]
    · rfl
  | literal v =>
    cases left with
    | key k =>
      cases v with
      | array values => exact membership_list d k values negated
      | _ => rfl
    | literal u => cases u <;> cases v <;> rfl

theorem range_outline (subject low high : Operand) (exclusive negated : Bool) :
    (range d subject.blanked low.blanked high.blanked exclusive negated).map outline =
      (range d subject low high exclusive negated).map outline := by
  simp only [range, Operand.isKey_blanked, Operand.isNull_blanked]
  split
  · rfl
  · split
    · rfl
    · split
      · refine Except.map_bind_congr (between_outline d subject _ low) fun f f' hf => ?_
        refine Except.map_bind_congr (between_outline d subject _ high) fun s s' hs => ?_
        simp [Except.map, pure, Except.pure, grouped, hf, hs]
      · refine Except.map_bind_congr (between_outline d subject _ low) fun f f' hf => ?_
        refine Except.map_bind_congr (operand_outline d high) fun l l' hl => ?_
        simp [Except.map, pure, Except.pure, hf, hl]

theorem like_outline (subject test : Operand) (negated : Bool) :
    (like d subject.blanked test.blanked negated).map outline =
      (like d subject test negated).map outline := by
  simp only [like, Operand.isKey_blanked]
  split
  · rfl
  · exact between_outline d subject _ test

end Conditions

end Sql

namespace Predicate

mutual

/-- The condition without its literals: which of them are null is left, and how many are listed. -/
def blanked : Predicate Operand → Predicate Operand
  | .compare left op right => .compare left.blanked op right.blanked
  | .member left right negated => .member left.blanked right.blankedList negated
  | .between subject low high exclusive negated =>
    .between subject.blanked low.blanked high.blanked exclusive negated
  | .pattern subject test negated => .pattern subject.blanked test.blanked negated
  | .not p => .not p.blanked
  | .join c items => .join c (blankedAll items)
termination_by structural p => p

def blankedAll : List (Predicate Operand) → List (Predicate Operand)
  | [] => []
  | p :: rest => p.blanked :: blankedAll rest
termination_by structural items => items

end

theorem blankedAll_append (p q : List (Predicate Operand)) :
    blankedAll (p ++ q) = blankedAll p ++ blankedAll q := by
  induction p with
  | nil => rfl
  | cons a p ih => simp only [List.cons_append, blankedAll, ih]

theorem length_blankedAll (items : List (Predicate Operand)) :
    (blankedAll items).length = items.length := by
  induction items with
  | nil => rfl
  | cons p rest ih => simp only [blankedAll, List.length_cons, ih]

mutual

theorem flat_blanked : ∀ p : Predicate Operand, p.blanked.flat = p.flat.blanked
  | .compare _ _ _ => rfl
  | .member _ _ _ => rfl
  | .between _ _ _ _ _ => rfl
  | .pattern _ _ _ => rfl
  | .not p => congrArg Predicate.not (flat_blanked p)
  | .join c items => congrArg (Predicate.join c) (terms_blanked c items)

theorem term_blanked (c : Connective) : ∀ p : Predicate Operand,
    p.blanked.term c = blankedAll (p.term c)
  | .compare _ _ _ => rfl
  | .member _ _ _ => rfl
  | .between _ _ _ _ _ => rfl
  | .pattern _ _ _ => rfl
  | .not p => congrArg (fun q => [Predicate.not q]) (flat_blanked p)
  | .join d items => by
    simp only [blanked, term]
    split
    · exact terms_blanked c items
    · simp only [blankedAll, blanked, terms_blanked d items]

theorem terms_blanked (c : Connective) : ∀ items : List (Predicate Operand),
    terms c (blankedAll items) = blankedAll (terms c items)
  | [] => rfl
  | p :: rest => by
    rw [blankedAll, terms, terms, blankedAll_append, term_blanked c p, terms_blanked c rest]

end

end Predicate

namespace Sql

theorem isComparison_blanked (p : Condition) : isComparison p.blanked = isComparison p := by
  cases p <;> rfl

theorem isAlternative_blanked (p : Condition) : isAlternative p.blanked = isAlternative p := by
  cases p with
  | join c items =>
    cases c with
    | and => rfl
    | or => simp only [Predicate.blanked, isAlternative, Predicate.length_blankedAll]
  | _ => rfl

theorem outline_intercalate (word : String) (terms : List (List Piece)) :
    outline ([Piece.text word].intercalate terms) =
      [Piece.text word].intercalate (terms.map outline) := by
  induction terms with
  | nil => rfl
  | cons term rest ih =>
    cases rest with
    | nil => simp [List.intercalate]
    | cons next rest =>
      rw [List.intercalate_cons_cons, outline_append, outline_append, ih]
      exact List.intercalate_cons_cons.symm

mutual

theorem pieces_outline (d : Dialect) : ∀ p : Condition,
    (pieces d p.blanked).map outline = (pieces d p).map outline
  | .compare left op right => comparison_outline d left op right
  | .member left right negated => membership_outline d left right negated
  | .between subject low high exclusive negated =>
    range_outline d subject low high exclusive negated
  | .pattern subject test negated => like_outline d subject test negated
  | .not p => by
    simp only [Predicate.blanked, pieces, isComparison_blanked]
    refine Except.map_bind_congr (pieces_outline d p) fun inner inner' hinner => ?_
    split
    · simp [Except.map, pure, Except.pure, hinner]
    · simp [Except.map, pure, Except.pure, grouped_outline hinner]
  | .join c items => by
    simp only [Predicate.blanked, pieces]
    refine Except.map_bind_congr (termPieces_outline d c items) fun terms terms' hterms => ?_
    cases terms with
    | nil =>
      cases terms' with
      | nil => rfl
      | cons _ _ => simp at hterms
    | cons term rest =>
      cases terms' with
      | nil => simp at hterms
      | cons term' rest' =>
        simp only [Except.map, pure, Except.pure, outline_intercalate, hterms]

theorem termPieces_outline (d : Dialect) (c : Connective) : ∀ items : List Condition,
    (termPieces d c (Predicate.blankedAll items)).map (List.map outline) =
      (termPieces d c items).map (List.map outline)
  | [] => rfl
  | p :: rest => by
    simp only [Predicate.blankedAll, termPieces, isAlternative_blanked]
    refine Except.map_bind_congr (pieces_outline d p) fun term term' hterm => ?_
    refine Except.map_bind_congr (termPieces_outline d c rest) fun terms terms' hterms => ?_
    split
    · simp [Except.map, pure, Except.pure, grouped_outline hterm, hterms]
    · simp [Except.map, pure, Except.pure, hterm, hterms]

end

theorem compile_blanked (d : Dialect) (p : Condition) :
    (compile d p.blanked).map (fun f => outline f.pieces) =
      (compile d p).map fun f => outline f.pieces := by
  have hpieces : (pieces d p.blanked.flat).map outline = (pieces d p.flat).map outline := by
    rw [Predicate.flat_blanked, pieces_outline]
  refine Except.map_bind_congr hpieces fun a b hab => ?_
  exact congrArg Except.ok hab

def Slots.blanked (s : Slots) : Slots :=
  { s with values := s.values.map fun _ => .null }

theorem Slots.length_blanked (s : Slots) : s.blanked.values.length = s.values.length :=
  List.length_map _

theorem Slots.send_blanked (s : Slots) (v : Value) : (s.send v).blanked = s.blanked.send .null := by
  simp only [blanked, send, List.map_append]
  rfl

theorem Slots.getD_blanked (s : Slots) (index : Nat) :
    s.blanked.values.getD index .null = .null := by
  rw [List.getD_eq_getElem?_getD, blanked, List.getElem?_map]
  cases s.values[index]? <;> rfl

namespace Fragment

theorem step_blanked (d : Dialect) (s : Slots) (piece : Piece) :
    step d s.blanked piece.blanked = (step d s piece).map (Prod.map id Slots.blanked) := by
  cases piece with
  | bind v => simp [step, Piece.blanked, Slots.blanked, Slots.bind, Except.map]
  | reuse index =>
    simp only [step, Piece.blanked, s.length_blanked]
    have hnumbers : s.blanked.numbers = s.numbers := rfl
    rw [hnumbers]
    cases s.numbers[index]? with
    | none => rfl
    | some number =>
      dsimp only
      split
      · rfl
      · rw [s.getD_blanked (number - 1)]
        exact congrArg (fun slots => Except.ok (_, slots)) (s.send_blanked _).symm
  | _ => rfl

theorem run_blanked (d : Dialect) (s : Slots) (pieces : List Piece) :
    run d s.blanked (outline pieces) = (run d s pieces).map (Prod.map id Slots.blanked) := by
  induction pieces generalizing s with
  | nil => rfl
  | cons piece rest ih =>
    rw [outline_cons, run, run, step_blanked]
    cases step d s piece with
    | error e => rfl
    | ok stepped =>
      obtain ⟨token, s'⟩ := stepped
      change (run d s'.blanked (outline rest) >>= _) = _
      rw [ih]
      cases hrun : run d s' rest with
      | error e => simp [Except.map, hrun, bind, Except.bind]
      | ok ran => simp [Except.map, hrun, bind, Except.bind, pure, Except.pure]

/-- What is written depends on the outline only, and so does how many values are sent. -/
theorem render_alike (d : Dialect) {f g : Fragment} (h : outline f.pieces = outline g.pieces) :
    (f.render d).map (fun r => (r.sql, r.binds.length)) =
      (g.render d).map fun r => (r.sql, r.binds.length) := by
  have hrun : (run d {} f.pieces).map (Prod.map id Slots.blanked) =
      (run d {} g.pieces).map (Prod.map id Slots.blanked) := by
    rw [← run_blanked, ← run_blanked, h]
  refine Except.map_bind_congr hrun fun a b hab => ?_
  obtain ⟨tokens, slots⟩ := a
  obtain ⟨tokens', slots'⟩ := b
  simp only [Prod.map, id_eq, Prod.mk.injEq] at hab
  have hlength : slots.values.length = slots'.values.length := by
    rw [← slots.length_blanked, hab.2, slots'.length_blanked]
  simp [Except.map, pure, Except.pure, hab.1, hlength]

end Fragment

end Sql

end Polystore
