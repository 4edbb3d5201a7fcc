import Polystore.Proofs.Predicate.Acceptance

/-!
The columns that a compiled condition mentions. Main statement: they are columns that the condition
names, and the column that identifies a row is not among them unless the condition asks for it.
-/

namespace Polystore

/-- An operand that has no other column than those of the given names. -/
def Operand.Within (names : List String) : Operand → Prop
  | .key (.named n) => n ∈ names
  | .key .primary => False
  | .literal _ => True

namespace Sql

open Predicate

/-- A piece that has no other column than those of the given names, which are quoted. -/
def Piece.Within (d : Dialect) (names : List String) : Piece → Prop
  | .text t | .glue t => d.rowIdentity ≠ some t
  | .name n => n ∈ names
  | .bind _ => True
  | .reuse _ | .missing _ => False

/-- Pieces with columns of the given names only. -/
def Mentions (d : Dialect) (names : List String) (ps : List Piece) : Prop :=
  ∀ piece ∈ ps, piece.Within d names

variable {d : Dialect} {names : List String} {ps qs : List Piece}

theorem mentions_nil : Mentions d names [] :=
  fun _ h => absurd h List.not_mem_nil

theorem mentions_cons_iff {piece : Piece} :
    Mentions d names (piece :: ps) ↔ piece.Within d names ∧ Mentions d names ps :=
  List.forall_mem_cons

theorem mentions_append_iff :
    Mentions d names (ps ++ qs) ↔ Mentions d names ps ∧ Mentions d names qs :=
  List.forall_mem_append

/-- No dialect has a column of that name for the rows. -/
def IsWord (t : String) : Prop :=
  t ≠ "ctid" ∧ t ≠ "rowid"

instance (t : String) : Decidable (IsWord t) :=
  inferInstanceAs (Decidable (_ ∧ _))

theorem rowIdentity_ne {t : String} (h : IsWord t) : d.rowIdentity ≠ some t := by
  intro hd
  cases d with
  | postgres => exact h.1 (Option.some.inj hd).symm
  | mysql => cases hd
  | sqlite => exact h.2 (Option.some.inj hd).symm

theorem isWord_symbol (op : Comparison) : IsWord op.symbol := by
  cases op <;> decide

theorem isWord_nullSafe (d : Dialect) (negated : Bool) : IsWord (d.nullSafe negated).1 := by
  cases d <;> cases negated <;> decide

theorem mentions_operand {o : Operand} (h : operand d o = .ok ps) (ho : o.Within names) :
    Mentions d names ps := by
  cases o with
  | key k =>
    cases k with
    | named n =>
      cases h
      exact mentions_cons_iff.mpr ⟨ho, mentions_nil⟩
    | primary => exact ho.elim
  | literal v =>
    cases h
    exact mentions_cons_iff.mpr ⟨trivial, mentions_nil⟩

theorem mentions_grouped (h : Mentions d names ps) : Mentions d names (grouped ps) :=
  mentions_append_iff.mpr ⟨mentions_cons_iff.mpr ⟨rowIdentity_ne (by decide), h⟩,
    mentions_cons_iff.mpr ⟨rowIdentity_ne (by decide), mentions_nil⟩⟩

theorem mentions_between {left right : Operand} {word : String} (hword : IsWord word)
    (h : between d left word right = .ok ps) (hl : left.Within names) (hr : right.Within names) :
    Mentions d names ps := by
  simp only [between, Except.bind_eq_ok, pure, Except.pure, Except.ok.injEq] at h
  obtain ⟨l, hleft, r, hright, rfl⟩ := h
  exact mentions_append_iff.mpr ⟨mentions_operand hleft hl,
    mentions_cons_iff.mpr ⟨rowIdentity_ne hword, mentions_operand hright hr⟩⟩

theorem mentions_nullTest {subject : Operand} {op : Comparison}
    (h : nullTest d subject op = .ok ps) (hs : subject.Within names) : Mentions d names ps := by
  unfold nullTest at h
  split at h
  · simp only [Except.bind_eq_ok, pure, Except.pure, Except.ok.injEq] at h
    obtain ⟨s, hsubject, rfl⟩ := h
    have hbody : Mentions d names
        (s ++ [.text (d.nullSafe (op = .ne)).1, .text "NULL"]) :=
      mentions_append_iff.mpr ⟨mentions_operand hsubject hs,
        mentions_cons_iff.mpr ⟨rowIdentity_ne (isWord_nullSafe d _),
          mentions_cons_iff.mpr ⟨rowIdentity_ne (by decide), mentions_nil⟩⟩⟩
    split
    · exact mentions_append_iff.mpr ⟨mentions_cons_iff.mpr ⟨rowIdentity_ne (by decide), hbody⟩,
        mentions_cons_iff.mpr ⟨rowIdentity_ne (by decide), mentions_nil⟩⟩
    · exact hbody
  · cases h

theorem mentions_comparison {left right : Operand} {op : Comparison}
    (h : comparison d left op right = .ok ps) (hl : left.Within names) (hr : right.Within names) :
    Mentions d names ps := by
  unfold comparison at h
  split at h
  · cases h
  · split at h
    · exact mentions_nullTest h hl
    · split at h
      · exact mentions_nullTest h hr
      · exact mentions_between (isWord_symbol op) h hl hr

theorem mentions_bindList (values : List Value) : Mentions d names (bindList values) := by
  induction values with
  | nil => exact mentions_nil
  | cons v rest ih =>
    cases rest with
    | nil => exact mentions_cons_iff.mpr ⟨trivial, mentions_nil⟩
    | cons w rest =>
      exact mentions_cons_iff.mpr ⟨trivial,
        mentions_cons_iff.mpr ⟨rowIdentity_ne (by decide), ih⟩⟩

theorem mentions_membership {left right : Operand} {negated : Bool}
    (h : membership d left right negated = .ok ps) (hl : left.Within names)
    (hr : right.Within names) : Mentions d names ps := by
  unfold membership at h
  split at h
  · next k values =>
    split at h
    · cases h
    · simp only [Except.bind_eq_ok, pure, Except.pure, Except.ok.injEq] at h
      obtain ⟨subject, hsubject, rfl⟩ := h
      have hword : IsWord (if negated then "NOT IN" else "IN") := by
        cases negated <;> decide
      exact mentions_append_iff.mpr ⟨mentions_operand hsubject hl,
        mentions_cons_iff.mpr ⟨rowIdentity_ne hword, mentions_grouped (mentions_bindList values)⟩⟩
  · split at h
    · simp only [Except.bind_eq_ok, pure, Except.pure, Except.ok.injEq] at h
      obtain ⟨e, hleft, a, hright, rfl⟩ := h
      have hword : IsWord (if negated then "<> ALL(" else "= ANY(") := by
        cases negated <;> decide
      exact mentions_append_iff.mpr ⟨mentions_append_iff.mpr ⟨mentions_operand hleft hl,
        mentions_cons_iff.mpr ⟨rowIdentity_ne hword, mentions_operand hright hr⟩⟩,
        mentions_cons_iff.mpr ⟨rowIdentity_ne (by decide), mentions_nil⟩⟩
    · cases h
  · cases h

theorem mentions_range {subject low high : Operand} {exclusive negated : Bool}
    (h : range d subject low high exclusive negated = .ok ps) (hs : subject.Within names)
    (hl : low.Within names) (hh : high.Within names) : Mentions d names ps := by
  unfold range at h
  split at h
  · cases h
  · split at h
    · cases h
    · split at h
      · simp only [Except.bind_eq_ok, pure, Except.pure, Except.ok.injEq] at h
        obtain ⟨first, hfirst, second, hsecond, rfl⟩ := h
        have hlow : IsWord (if negated then "<" else ">=") := by cases negated <;> decide
        have hhigh : IsWord (if negated then ">=" else "<") := by cases negated <;> decide
        have hword : IsWord (if negated then "OR" else "AND") := by cases negated <;> decide
        exact mentions_grouped (mentions_append_iff.mpr ⟨mentions_between hlow hfirst hs hl,
          mentions_cons_iff.mpr ⟨rowIdentity_ne hword, mentions_between hhigh hsecond hs hh⟩⟩)
      · simp only [Except.bind_eq_ok, pure, Except.pure, Except.ok.injEq] at h
        obtain ⟨first, hfirst, last, hlast, rfl⟩ := h
        have hword : IsWord (if negated then "NOT BETWEEN" else "BETWEEN") := by
          cases negated <;> decide
        exact mentions_append_iff.mpr ⟨mentions_between hword hfirst hs hl,
          mentions_cons_iff.mpr ⟨rowIdentity_ne (by decide), mentions_operand hlast hh⟩⟩

theorem mentions_like {subject test : Operand} {negated : Bool}
    (h : like d subject test negated = .ok ps) (hs : subject.Within names)
    (ht : test.Within names) : Mentions d names ps := by
  unfold like at h
  split at h
  · cases h
  · have hword : IsWord (if negated then "NOT LIKE" else "LIKE") := by cases negated <;> decide
    exact mentions_between hword h hs ht

theorem mentions_intercalate {word : String} (hword : IsWord word) {terms : List (List Piece)}
    (h : ∀ term ∈ terms, Mentions d names term) :
    Mentions d names ([Piece.text word].intercalate terms) := by
  induction terms with
  | nil => exact mentions_nil
  | cons term terms ih =>
    obtain ⟨hterm, hterms⟩ := List.forall_mem_cons.mp h
    cases terms with
    | nil => simpa [List.intercalate] using hterm
    | cons next terms =>
      rw [List.intercalate_cons_cons]
      exact mentions_append_iff.mpr ⟨mentions_append_iff.mpr ⟨hterm,
        mentions_cons_iff.mpr ⟨rowIdentity_ne hword, mentions_nil⟩⟩, ih hterms⟩

/-- A condition that has columns of the given names only. -/
def HasColumns (names : List String) (p : Condition) : Prop :=
  ∀ t ∈ p.tests, ∀ o ∈ testOperands t, o.Within names

/-- The columns that a test names, the key apart. -/
def testColumns (t : Condition) : List String :=
  (testOperands t).filterMap fun
    | .key (.named n) => some n
    | _ => none

/-- The columns that a condition names, the key apart. -/
def columnsNamed (p : Condition) : List String :=
  p.tests.flatMap testColumns

theorem hasColumns_join {known : List String} {c : Connective} {items : List Condition}
    (h : ∀ p ∈ items, HasColumns known p) : HasColumns known (.join c items) := by
  induction items with
  | nil => exact fun t ht => absurd ht List.not_mem_nil
  | cons p items ih =>
    obtain ⟨hp, hitems⟩ := List.forall_mem_cons.mp h
    exact List.forall_mem_append.mpr ⟨hp, ih hitems⟩

mutual

theorem mentions_pieces : ∀ (p : Condition) (ps : List Piece), HasColumns names p →
    pieces d p = .ok ps → Mentions d names ps
  | .compare left op right, _, hp, h =>
    have hoperands := hp _ List.mem_cons_self
    mentions_comparison h (hoperands left (by simp [testOperands, operands]))
      (hoperands right (by simp [testOperands, operands]))
  | .member left right negated, _, hp, h =>
    have hoperands := hp _ List.mem_cons_self
    mentions_membership h (hoperands left (by simp [testOperands, operands]))
      (hoperands right (by simp [testOperands, operands]))
  | .between subject low high exclusive negated, _, hp, h =>
    have hoperands := hp _ List.mem_cons_self
    mentions_range h (hoperands subject (by simp [testOperands, operands]))
      (hoperands low (by simp [testOperands, operands]))
      (hoperands high (by simp [testOperands, operands]))
  | .pattern subject test negated, _, hp, h =>
    have hoperands := hp _ List.mem_cons_self
    mentions_like h (hoperands subject (by simp [testOperands, operands]))
      (hoperands test (by simp [testOperands, operands]))
  | .not p, ps, hp, h => by
    simp only [pieces, Except.bind_eq_ok, pure, Except.pure, Except.ok.injEq] at h
    obtain ⟨inner, hinner, rfl⟩ := h
    have hmentions := mentions_pieces p inner hp hinner
    refine mentions_cons_iff.mpr ⟨rowIdentity_ne (by decide), ?_⟩
    split
    · exact hmentions
    · exact mentions_grouped hmentions
  | .join c items, ps, hp, h => by
    simp only [pieces, Except.bind_eq_ok] at h
    obtain ⟨terms, hterms, h⟩ := h
    split at h
    · cases h
    · cases h
      have hword : IsWord (connectiveWord c) := by cases c <;> decide
      exact mentions_intercalate hword (mentions_termPieces c items terms hp hterms)
termination_by structural p => p

theorem mentions_termPieces (c : Connective) : ∀ (items : List Condition)
    (terms : List (List Piece)),
    (∀ t ∈ (foldAll testFold items).flatten, ∀ o ∈ testOperands t, o.Within names) →
      termPieces d c items = .ok terms → ∀ term ∈ terms, Mentions d names term
  | [], terms, _, h => by
    cases h
    exact fun _ hterm => absurd hterm List.not_mem_nil
  | p :: rest, terms, hitems, h => by
    simp only [termPieces, Except.bind_eq_ok, pure, Except.pure, Except.ok.injEq] at h
    obtain ⟨term, hterm, more, hmore, rfl⟩ := h
    rw [foldAll, List.flatten_cons, List.forall_mem_append] at hitems
    have hmentions := mentions_pieces p term hitems.1 hterm
    refine List.forall_mem_cons.mpr ⟨?_, mentions_termPieces c rest more hitems.2 hmore⟩
    split
    · exact mentions_grouped hmentions
    · exact hmentions
termination_by structural items => items

end

theorem mentions_compile {p : Condition} {f : Fragment} (h : compile d p = .ok f)
    (hp : HasColumns names p) : Mentions d names f.pieces := by
  rw [compile, Except.bind_eq_ok] at h
  obtain ⟨ps, hps, h⟩ := h
  cases h
  have hflat : HasColumns names p.flat := by
    rw [HasColumns, tests_flat]
    exact hp
  exact mentions_pieces p.flat ps hflat hps

end Sql

end Polystore
