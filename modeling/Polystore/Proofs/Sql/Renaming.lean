import Polystore.Proofs.Sql.Outline

/-!
Conditions whose columns have other names. Main statement: such a condition is compiled to the same
pieces with the other names in them.
-/

namespace Polystore

variable (f : String → String)

def Operand.renamed : Operand → Operand
  | .key (.named n) => .key (.named (f n))
  | o => o

@[simp] theorem Operand.isKey_renamed (o : Operand) : (o.renamed f).isKey = o.isKey := by
  cases o with
  | key k => cases k <;> rfl
  | literal v => rfl

@[simp] theorem Operand.isNull_renamed (o : Operand) : (o.renamed f).isNull = o.isNull := by
  cases o with
  | key k => cases k <;> rfl
  | literal v => rfl

namespace Predicate

mutual

/-- The condition with other names for its columns. -/
def renamed : Predicate Operand → Predicate Operand
  | .compare left op right => .compare (left.renamed f) op (right.renamed f)
  | .member left right negated => .member (left.renamed f) (right.renamed f) negated
  | .between subject low high exclusive negated =>
    .between (subject.renamed f) (low.renamed f) (high.renamed f) exclusive negated
  | .pattern subject test negated => .pattern (subject.renamed f) (test.renamed f) negated
  | .not p => .not p.renamed
  | .join c items => .join c (renamedAll items)
termination_by structural p => p

def renamedAll : List (Predicate Operand) → List (Predicate Operand)
  | [] => []
  | p :: rest => p.renamed :: renamedAll rest
termination_by structural items => items

end

theorem renamedAll_append (p q : List (Predicate Operand)) :
    renamedAll f (p ++ q) = renamedAll f p ++ renamedAll f q := by
  induction p with
  | nil => rfl
  | cons a p ih => simp only [List.cons_append, renamedAll, ih]

theorem length_renamedAll (items : List (Predicate Operand)) :
    (renamedAll f items).length = items.length := by
  induction items with
  | nil => rfl
  | cons p rest ih => simp only [renamedAll, List.length_cons, ih]

mutual

theorem flat_renamed : ∀ p : Predicate Operand, (p.renamed f).flat = p.flat.renamed f
  | .compare _ _ _ => rfl
  | .member _ _ _ => rfl
  | .between _ _ _ _ _ => rfl
  | .pattern _ _ _ => rfl
  | .not p => congrArg Predicate.not (flat_renamed p)
  | .join c items => congrArg (Predicate.join c) (terms_renamed c items)

theorem term_renamed (c : Connective) : ∀ p : Predicate Operand,
    (p.renamed f).term c = renamedAll f (p.term c)
  | .compare _ _ _ => rfl
  | .member _ _ _ => rfl
  | .between _ _ _ _ _ => rfl
  | .pattern _ _ _ => rfl
  | .not p => congrArg (fun q => [Predicate.not q]) (flat_renamed p)
  | .join d items => by
    simp only [renamed, term]
    split
    · exact terms_renamed c items
    · simp only [renamedAll, renamed, terms_renamed d items]

theorem terms_renamed (c : Connective) : ∀ items : List (Predicate Operand),
    terms c (renamedAll f items) = renamedAll f (terms c items)
  | [] => rfl
  | p :: rest => by
    rw [renamedAll, terms, terms, renamedAll_append, term_renamed c p, terms_renamed c rest]

end

end Predicate

namespace Sql

def Piece.renamed : Piece → Piece
  | .name n => .name (f n)
  | piece => piece

theorem isAlternative_renamed (p : Condition) : isAlternative (p.renamed f) = isAlternative p := by
  cases p with
  | join c items =>
    cases c with
    | and => rfl
    | or => simp only [Predicate.renamed, isAlternative, Predicate.length_renamedAll]
  | _ => rfl

theorem isComparison_renamed (p : Condition) : isComparison (p.renamed f) = isComparison p := by
  cases p <;> rfl

theorem grouped_renamed (pieces : List Piece) :
    (grouped pieces).map (Piece.renamed f) = grouped (pieces.map (Piece.renamed f)) := by
  simp [grouped, Piece.renamed]

section Conditions

variable {f} {d : Dialect} {ps : List Piece}

theorem operand_renamed {o : Operand} (h : operand d o = .ok ps) :
    operand d (o.renamed f) = .ok (ps.map (Piece.renamed f)) := by
  cases o with
  | key k =>
    cases k with
    | named n =>
      cases h
      rfl
    | primary =>
      cases hrow : d.rowIdentity with
      | none => simp [operand, hrow, Dialect.unsupported] at h
      | some column =>
        obtain rfl : [.text column] = ps := by simpa [operand, hrow] using h
        exact h
  | literal v =>
    cases h
    rfl

theorem between_renamed {left right : Operand} {word : String}
    (h : between d left word right = .ok ps) :
    between d (left.renamed f) word (right.renamed f) = .ok (ps.map (Piece.renamed f)) := by
  simp only [between, Except.bind_eq_ok, pure, Except.pure, Except.ok.injEq] at h
  obtain ⟨l, hl, r, hr, rfl⟩ := h
  rw [between, operand_renamed hl, operand_renamed hr, List.map_append, List.map_cons]
  rfl

theorem nullTest_renamed {subject : Operand} {op : Comparison} (h : nullTest d subject op = .ok ps) :
    nullTest d (subject.renamed f) op = .ok (ps.map (Piece.renamed f)) := by
  rw [nullTest] at h ⊢
  generalize d.nullSafe (op = .ne) = form at h ⊢
  obtain ⟨word, wrap⟩ := form
  split at h
  · next hop =>
    simp only [Except.bind_eq_ok, pure, Except.pure, Except.ok.injEq] at h
    obtain ⟨s, hs, rfl⟩ := h
    rw [if_pos hop, operand_renamed hs]
    cases wrap <;> simp [bind, Except.bind, pure, Except.pure, Piece.renamed]
  · simp [invalid] at h

theorem comparison_renamed {left right : Operand} {op : Comparison}
    (h : comparison d left op right = .ok ps) :
    comparison d (left.renamed f) op (right.renamed f) = .ok (ps.map (Piece.renamed f)) := by
  simp only [comparison, Operand.isKey_renamed, Operand.isNull_renamed] at h ⊢
  split at h
  · simp [invalid] at h
  · next hkeys =>
    rw [if_neg hkeys]
    split at h
    · next hright =>
      rw [if_pos hright]
      exact nullTest_renamed h
    · next hright =>
      rw [if_neg hright]
      split at h
      · next hleft =>
        rw [if_pos hleft]
        exact nullTest_renamed h
      · next hleft =>
        rw [if_neg hleft]
        exact between_renamed h

theorem bindList_renamed : ∀ values : List Value,
    (bindList values).map (Piece.renamed f) = bindList values
  | [] => rfl
  | [_] => rfl
  | v :: next :: rest =>
    congrArg (fun ps => Piece.bind v :: Piece.glue "," :: ps) (bindList_renamed (next :: rest))

theorem membership_renamed {left right : Operand} {negated : Bool}
    (h : membership d left right negated = .ok ps) :
    membership d (left.renamed f) (right.renamed f) negated = .ok (ps.map (Piece.renamed f)) := by
  cases right with
  | key k =>
    obtain ⟨k', hk⟩ : ∃ k', (Operand.key k).renamed f = .key k' := by cases k <;> exact ⟨_, rfl⟩
    rw [membership_key] at h
    split at h
    · next harrays =>
      simp only [Except.bind_eq_ok, pure, Except.pure, Except.ok.injEq] at h
      obtain ⟨e, he, a, ha, rfl⟩ := h
      have ha' := operand_renamed (f := f) ha
      rw [hk] at ha' ⊢
      rw [membership_key, if_pos harrays, operand_renamed he, ha']
      simp [bind, Except.bind, pure, Except.pure, Piece.renamed]
    · simp [Dialect.unsupported] at h
  | literal v =>
    unfold membership at h
    split at h
    · next k values heq =>
      cases heq
      obtain ⟨k', hk⟩ : ∃ k', (Operand.key k).renamed f = .key k' := by cases k <;> exact ⟨_, rfl⟩
      split at h
      · simp [invalid] at h
      · next hne =>
        simp only [Except.bind_eq_ok, pure, Except.pure, Except.ok.injEq] at h
        obtain ⟨s, hs, rfl⟩ := h
        have hs' := operand_renamed (f := f) hs
        rw [hk] at hs' ⊢
        change membership d (.key k') (.literal (.array values)) negated = _
        simp only [membership, if_neg hne, hs', List.map_append, List.map_cons, grouped_renamed,
          bindList_renamed]
        rfl
    · next heq => cases heq
    · simp [invalid] at h

theorem range_renamed {subject low high : Operand} {exclusive negated : Bool}
    (h : range d subject low high exclusive negated = .ok ps) :
    range d (subject.renamed f) (low.renamed f) (high.renamed f) exclusive negated =
      .ok (ps.map (Piece.renamed f)) := by
  simp only [range, Operand.isKey_renamed, Operand.isNull_renamed] at h ⊢
  split at h
  · simp [invalid] at h
  · next hkeys =>
    rw [if_neg hkeys]
    split at h
    · simp [invalid] at h
    · next hnull =>
      rw [if_neg hnull]
      split at h
      · next hexclusive =>
        simp only [Except.bind_eq_ok, pure, Except.pure, Except.ok.injEq] at h
        obtain ⟨first, hfirst, second, hsecond, rfl⟩ := h
        rw [if_pos hexclusive, between_renamed hfirst, between_renamed hsecond, grouped_renamed,
          List.map_append, List.map_cons]
        rfl
      · next hinclusive =>
        simp only [Except.bind_eq_ok, pure, Except.pure, Except.ok.injEq] at h
        obtain ⟨first, hfirst, last, hlast, rfl⟩ := h
        rw [if_neg hinclusive, between_renamed hfirst, operand_renamed hlast, List.map_append,
          List.map_cons]
        rfl

theorem like_renamed {subject test : Operand} {negated : Bool}
    (h : like d subject test negated = .ok ps) :
    like d (subject.renamed f) (test.renamed f) negated = .ok (ps.map (Piece.renamed f)) := by
  simp only [like, Operand.isKey_renamed] at h ⊢
  split at h
  · simp [invalid] at h
  · next hkeys =>
    rw [if_neg hkeys]
    exact between_renamed h

theorem intercalate_renamed (word : String) (terms : List (List Piece)) :
    ([Piece.text word].intercalate terms).map (Piece.renamed f) =
      [Piece.text word].intercalate (terms.map (List.map (Piece.renamed f))) := by
  induction terms with
  | nil => rfl
  | cons term rest ih =>
    cases rest with
    | nil => simp [List.intercalate]
    | cons next rest =>
      simp only [List.map_cons] at ih ⊢
      rw [List.intercalate_cons_cons, List.intercalate_cons_cons, List.map_append, List.map_append,
        ih]
      rfl

mutual

theorem pieces_renamed : ∀ (p : Condition) (ps : List Piece), pieces d p = .ok ps →
    pieces d (p.renamed f) = .ok (ps.map (Piece.renamed f))
  | .compare _ _ _, _, h => comparison_renamed h
  | .member _ _ _, _, h => membership_renamed h
  | .between _ _ _ _ _, _, h => range_renamed h
  | .pattern _ _ _, _, h => like_renamed h
  | .not p, ps, h => by
    simp only [pieces, Except.bind_eq_ok, pure, Except.pure, Except.ok.injEq] at h
    obtain ⟨inner, hinner, rfl⟩ := h
    rw [Predicate.renamed, pieces, pieces_renamed p inner hinner, isComparison_renamed]
    split
    · rfl
    · rw [List.map_cons, grouped_renamed]
      rfl
  | .join c items, ps, h => by
    simp only [pieces, Except.bind_eq_ok] at h
    obtain ⟨terms, hterms, h⟩ := h
    cases terms with
    | nil => simp [invalid] at h
    | cons term terms =>
      cases h
      rw [intercalate_renamed]
      simp only [Predicate.renamed, pieces, termPieces_renamed c items _ hterms, List.map_cons]
      rfl

theorem termPieces_renamed (c : Connective) : ∀ (items : List Condition) (terms : List (List Piece)),
    termPieces d c items = .ok terms →
    termPieces d c (Predicate.renamedAll f items) = .ok (terms.map (List.map (Piece.renamed f)))
  | [], _, h => by
    cases h
    rfl
  | p :: rest, _, h => by
    simp only [termPieces, Except.bind_eq_ok, pure, Except.pure, Except.ok.injEq] at h
    obtain ⟨term, hterm, terms, hterms, rfl⟩ := h
    rw [Predicate.renamedAll, termPieces, pieces_renamed p term hterm,
      termPieces_renamed c rest terms hterms, isAlternative_renamed]
    split
    · rw [List.map_cons, grouped_renamed]
      rfl
    · rfl

end

end Conditions

end Sql

end Polystore
