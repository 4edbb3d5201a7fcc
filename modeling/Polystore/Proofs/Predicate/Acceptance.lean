import Polystore.Proofs.Document.Independence
import Polystore.Proofs.Predicate.Tests
import Polystore.Sql.PrimaryKey

/-!
What the compilers refuse. Main statements: an invalid condition is refused by all of them, unless
its faults are empty joins that merging removes; and every test of a condition that is compiled has a
key, but for the tests in expressions that are no comparisons.
-/

namespace Polystore

open Predicate

theorem Operand.exists_literal {o : Operand} (h : o.isKey = false) : ∃ v, o = .literal v := by
  cases o with
  | key k => cases h
  | literal v => exact ⟨v, rfl⟩

namespace Sql

variable {d : Dialect}

theorem each_of_termPieces {c : Connective} {items : List Condition} {terms : List (List Piece)}
    (h : termPieces d c items = .ok terms) :
    terms.length = items.length ∧ ∀ p ∈ items, ∃ ps, pieces d p = .ok ps := by
  apply each_of_pass _ _ h
  · rintro terms ⟨⟩
    rfl
  · intro p rest terms h
    simp only [termPieces, Except.bind_eq_ok, pure, Except.pure, Except.ok.injEq] at h
    obtain ⟨term, hterm, more, hmore, rfl⟩ := h
    exact ⟨⟨term, hterm⟩, _, more, hmore, rfl⟩

theorem inherited_pieces (d : Dialect) : Inherited fun p => ∃ ps, pieces d p = .ok ps where
  not := by
    rintro p ⟨ps, h⟩
    simp only [pieces, Except.bind_eq_ok] at h
    obtain ⟨inner, hinner, -⟩ := h
    exact ⟨inner, hinner⟩
  join := by
    rintro c items ⟨ps, h⟩
    simp only [pieces, Except.bind_eq_ok] at h
    obtain ⟨terms, hterms, h⟩ := h
    obtain ⟨hlength, hitems⟩ := each_of_termPieces hterms
    refine ⟨?_, hitems⟩
    rintro rfl
    obtain rfl := List.length_eq_zero_iff.mp hlength
    cases h

theorem pieces_empty_list (left : Operand) (negated : Bool) :
    ¬ ∃ ps, pieces d (.member left (.literal (.array [])) negated) = .ok ps := by
  rintro ⟨ps, h⟩
  cases left with
  | key k => cases h
  | literal v => cases h

/-- The operands of a test of rows. -/
def testOperands (t : Condition) : List Operand :=
  t.operands fun pattern => [pattern]

/-- A test of rows is written only if it has a key. -/
theorem isKey_of_pieces {t : Condition} (ht : t.isTest = true) (h : ∃ ps, pieces d t = .ok ps) :
    (testOperands t).any Operand.isKey = true := by
  obtain ⟨ps, h⟩ := h
  cases t with
  | not p => cases ht
  | join c items => cases ht
  | compare left op right =>
    rw [pieces, comparison] at h
    split at h
    · cases h
    · next hkeys => simpa [testOperands, operands, Classical.or_iff_not_imp_left] using hkeys
  | member left right negated =>
    cases left with
    | key k => rfl
    | literal v =>
      cases right with
      | key k => rfl
      | literal w => cases h
  | between subject low high exclusive negated =>
    rw [pieces, range] at h
    split at h
    · cases h
    · next hkeys => simpa [testOperands, operands, Classical.or_iff_not_imp_left] using hkeys
  | pattern subject test negated =>
    rw [pieces, like] at h
    split at h
    · cases h
    · next hkeys => simpa [testOperands, operands, Classical.or_iff_not_imp_left] using hkeys

theorem accepted_of_compile {p : Condition} {f : Fragment} (h : compile d p = .ok f) :
    ∃ ps, pieces d p.flat = .ok ps := by
  rw [compile, Except.bind_eq_ok] at h
  obtain ⟨ps, hps, -⟩ := h
  exact ⟨ps, hps⟩

theorem validate_of_compile {p : Condition} {f : Fragment} (h : compile d p = .ok f) :
    p.flat.validate = .ok () :=
  (inherited_pieces d).validate pieces_empty_list p.flat (accepted_of_compile h)

/-! ### Keys of known columns -/

namespace PrimaryKey

variable {k : PrimaryKey}

theorem validate_member_of_rename {left left' right right' : Operand} {negated : Bool}
    (hr : k.rename right = .ok right')
    (h : (member left' right' negated : Condition).validate = .ok ()) :
    (member left right negated : Condition).validate = .ok () := by
  rw [validate_member_iff] at h ⊢
  rintro rfl
  cases hr
  exact h rfl

mutual

theorem validate_flat_of_resolve : ∀ {p q : Condition}, k.resolve p = .ok q →
    q.flat.validate = .ok () → p.flat.validate = .ok ()
  | .compare _ _ _, _, _, _ => rfl
  | .member left right negated, _, h, hq => by
    simp only [resolve, Except.bind_eq_ok, pure, Except.pure, Except.ok.injEq] at h
    obtain ⟨l, -, r, hr, rfl⟩ := h
    exact validate_member_of_rename hr hq
  | .between _ _ _ _ _, _, _, _ => rfl
  | .pattern _ _ _, _, _, _ => rfl
  | .not p, _, h, hq => by
    simp only [resolve, Except.bind_eq_ok, pure, Except.pure, Except.ok.injEq] at h
    obtain ⟨q, hp, rfl⟩ := h
    show p.flat.validate = .ok ()
    exact validate_flat_of_resolve hp hq
  | .join c items, _, h, hq => by
    simp only [resolve, Except.bind_eq_ok, pure, Except.pure, Except.ok.injEq] at h
    obtain ⟨others, hitems, rfl⟩ := h
    rw [flat, validate_join_iff] at hq
    rw [flat, validate_join_iff]
    obtain ⟨hvalid, hempty⟩ := validateAll_terms_of_resolve c hitems hq.2
    exact ⟨fun hnil => hq.1 (hempty hnil), hvalid⟩
termination_by structural p => p

theorem validateAll_term_of_resolve (c : Connective) : ∀ {p q : Condition}, k.resolve p = .ok q →
    validateAll (q.term c) = .ok () →
    validateAll (p.term c) = .ok () ∧ (p.term c = [] → q.term c = [])
  | .compare _ _ _, _, _, _ => ⟨rfl, fun hnil => nomatch hnil⟩
  | .member left right negated, _, h, hq => by
    refine ⟨?_, fun hnil => nomatch hnil⟩
    simp only [resolve, Except.bind_eq_ok, pure, Except.pure, Except.ok.injEq] at h
    obtain ⟨l, -, r, hr, rfl⟩ := h
    have hmember := ((validateAll_cons_iff _ _).mp hq).1
    exact (validateAll_cons_iff _ _).mpr ⟨validate_member_of_rename hr hmember, rfl⟩
  | .between _ _ _ _ _, _, _, _ => ⟨rfl, fun hnil => nomatch hnil⟩
  | .pattern _ _ _, _, _, _ => ⟨rfl, fun hnil => nomatch hnil⟩
  | .not p, _, h, hq => by
    refine ⟨?_, fun hnil => nomatch hnil⟩
    simp only [resolve, Except.bind_eq_ok, pure, Except.pure, Except.ok.injEq] at h
    obtain ⟨q, hp, rfl⟩ := h
    rw [term, validateAll_cons_iff] at hq
    rw [term, validateAll_cons_iff]
    exact ⟨validate_flat_of_resolve hp hq.1, rfl⟩
  | .join e items, _, h, hq => by
    simp only [resolve, Except.bind_eq_ok, pure, Except.pure, Except.ok.injEq] at h
    obtain ⟨others, hitems, rfl⟩ := h
    rw [term] at hq ⊢
    split at hq
    · next heq =>
      rw [if_pos heq, term, if_pos heq]
      exact validateAll_terms_of_resolve c hitems hq
    · next hne =>
      rw [validateAll_cons_iff, validate_join_iff] at hq
      obtain ⟨hvalid, hempty⟩ := validateAll_terms_of_resolve e hitems hq.1.2
      rw [if_neg hne, validateAll_cons_iff, validate_join_iff]
      exact ⟨⟨⟨fun hnil => hq.1.1 (hempty hnil), hvalid⟩, rfl⟩, fun hnil => nomatch hnil⟩
termination_by structural p => p

theorem validateAll_terms_of_resolve (c : Connective) : ∀ {items others : List Condition},
    k.resolveAll items = .ok others → validateAll (terms c others) = .ok () →
    validateAll (terms c items) = .ok () ∧ (terms c items = [] → terms c others = [])
  | [], _, h, _ => by
    cases h
    exact ⟨rfl, fun _ => rfl⟩
  | p :: rest, _, h, hq => by
    simp only [resolveAll, Except.bind_eq_ok, pure, Except.pure, Except.ok.injEq] at h
    obtain ⟨q, hp, qs, hrest, rfl⟩ := h
    rw [terms, validateAll_append_iff] at hq
    obtain ⟨hhead, hheadEmpty⟩ := validateAll_term_of_resolve c hp hq.1
    obtain ⟨htail, htailEmpty⟩ := validateAll_terms_of_resolve c hrest hq.2
    rw [terms, validateAll_append_iff]
    refine ⟨⟨hhead, htail⟩, ?_⟩
    intro hnil
    rw [List.append_eq_nil_iff] at hnil
    rw [terms, hheadEmpty hnil.1, htailEmpty hnil.2, List.append_nil]
termination_by structural items => items

end

end PrimaryKey

theorem validate_of_compileWithKey {k : PrimaryKey} {p : Condition} {f : Fragment}
    (h : compileWithKey d k p = .ok f) : p.flat.validate = .ok () := by
  rw [compileWithKey, Except.bind_eq_ok] at h
  obtain ⟨q, hq, h⟩ := h
  exact PrimaryKey.validate_flat_of_resolve hq (validate_of_compile h)

end Sql

namespace Document

theorem each_of_filtersOf {items : List Condition} {clauses : List Filter}
    (h : filtersOf items = .ok clauses) :
    clauses.length = items.length ∧ ∀ p ∈ items, ∃ f, filterOf p = .ok f := by
  apply each_of_pass _ _ h
  · rintro clauses ⟨⟩
    rfl
  · intro p rest clauses h
    simp only [filtersOf, Except.bind_eq_ok, pure, Except.pure, Except.ok.injEq] at h
    obtain ⟨clause, hclause, more, hmore, rfl⟩ := h
    exact ⟨⟨clause, hclause⟩, _, more, hmore, rfl⟩

theorem inherited_filterOf : Inherited fun p => ∃ f, filterOf p = .ok f where
  not := by
    rintro p ⟨f, h⟩
    rw [filterOf, Except.map_eq_ok] at h
    obtain ⟨inner, hinner, -⟩ := h
    exact ⟨inner, hinner⟩
  join := by
    rintro c items ⟨f, h⟩
    simp only [filterOf, Except.bind_eq_ok] at h
    obtain ⟨clauses, hclauses, h⟩ := h
    obtain ⟨hlength, hitems⟩ := each_of_filtersOf hclauses
    refine ⟨?_, hitems⟩
    rintro rfl
    obtain rfl := List.length_eq_zero_iff.mp hlength
    cases h

theorem filterOf_empty_list (left : Operand) (negated : Bool) :
    ¬ ∃ f, filterOf (.member left (.literal (.array [])) negated) = .ok f := by
  rintro ⟨f, h⟩
  cases left with
  | key k => cases h
  | literal v => cases h

theorem each_of_expressionsOf {items : List Condition} {terms : List Bson}
    (h : expressionsOf items = .ok terms) :
    terms.length = items.length ∧ ∀ p ∈ items, ∃ e, expressionOf p = .ok e := by
  apply each_of_pass _ _ h
  · rintro terms ⟨⟩
    rfl
  · intro p rest terms h
    simp only [expressionsOf, Except.bind_eq_ok, pure, Except.pure, Except.ok.injEq] at h
    obtain ⟨term, hterm, more, hmore, rfl⟩ := h
    exact ⟨⟨term, hterm⟩, _, more, hmore, rfl⟩

theorem inherited_expressionOf : Inherited fun p => ∃ e, expressionOf p = .ok e where
  not := by
    rintro p ⟨e, h⟩
    rw [expressionOf, Except.map_eq_ok] at h
    obtain ⟨inner, hinner, -⟩ := h
    exact ⟨inner, hinner⟩
  join := by
    rintro c items ⟨e, h⟩
    simp only [expressionOf, Except.bind_eq_ok] at h
    obtain ⟨terms, hterms, h⟩ := h
    obtain ⟨hlength, hitems⟩ := each_of_expressionsOf hterms
    refine ⟨?_, hitems⟩
    rintro rfl
    obtain rfl := List.length_eq_zero_iff.mp hlength
    cases h

theorem expressionOf_empty_list (left : Operand) (negated : Bool) :
    ¬ ∃ e, expressionOf (.member left (.literal (.array [])) negated) = .ok e := by
  rintro ⟨e, h⟩
  cases h

theorem validate_of_filter {p : Condition} {f : Filter} (h : filter p = .ok f) :
    p.flat.validate = .ok () :=
  inherited_filterOf.validate filterOf_empty_list p.flat ⟨f, h⟩

theorem validate_of_expression {p : Condition} {e : Bson} (h : expression p = .ok e) :
    p.flat.validate = .ok () :=
  inherited_expressionOf.validate expressionOf_empty_list p.flat ⟨e, h⟩

/-- The operands of a test of documents. -/
def testOperands (t : Condition) : List Operand :=
  t.operands fun _ => []

/-- A test of documents has a filter only if it has a key. -/
theorem isKey_of_filterOf {t : Condition} (ht : t.isTest = true) (h : ∃ f, filterOf t = .ok f) :
    (testOperands t).any Operand.isKey = true := by
  obtain ⟨f, h⟩ := h
  cases t with
  | not p => cases ht
  | join c items => cases ht
  | compare left op right =>
    cases left with
    | key k => rfl
    | literal v =>
      cases right with
      | key k => rfl
      | literal w => cases h
  | member left right negated =>
    cases left with
    | key k => rfl
    | literal v =>
      cases right with
      | key k => rfl
      | literal w => cases h
  | between subject low high exclusive negated =>
    cases subject with
    | key k => rfl
    | literal v => cases h
  | pattern subject test negated =>
    cases subject with
    | key k => rfl
    | literal v => cases h

/-- A comparison has an expression only if it has a key. -/
theorem isKey_of_expressionOf {t : Condition} (ht : t.isComparison = true)
    (h : ∃ e, expressionOf t = .ok e) : (testOperands t).any Operand.isKey = true := by
  obtain ⟨e, h⟩ := h
  cases t with
  | compare left op right =>
    rw [expressionOf, comparisonExpression] at h
    split at h
    · cases h
    · next hkeys =>
      simpa [testOperands, operands, Classical.or_iff_not_imp_left] using hkeys
  | _ => cases ht

/-! ### Tests without a key in expressions -/

theorem operand_literal_eq_ok_iff (v : Value) :
    (∃ b, operand false (.literal v) = .ok b) ↔ Encodes v := by
  constructor
  · rintro ⟨b, h⟩
    rw [operand, Except.map_eq_ok] at h
    obtain ⟨sent, hsent, -⟩ := h
    exact ⟨sent, hsent⟩
  · rintro ⟨sent, hsent⟩
    exact ⟨quote sent, Except.map_eq_ok.mpr ⟨sent, hsent, rfl⟩⟩

theorem encodes_of_mapM {values : List Value} {items : List Bson}
    (h : (values.mapM fun v => literal v false) = .ok items) :
    items.length = values.length ∧ ∀ v ∈ values, Encodes v := by
  apply each_of_pass _ _ h
  · rintro items ⟨⟩
    rfl
  · intro v rest items h
    simp only [List.mapM_cons, Except.bind_eq_ok, pure, Except.pure, Except.ok.injEq] at h
    obtain ⟨b, hb, more, hmore, rfl⟩ := h
    exact ⟨⟨b, hb⟩, b, more, hmore, rfl⟩

theorem encodes_array {values : List Value} (h : ∀ v ∈ values, Encodes v) :
    Encodes (.array values) := by
  have hitems : ∃ items, Bson.ofItems values = .ok items := by
    induction values with
    | nil => exact ⟨[], rfl⟩
    | cons v rest ih =>
      obtain ⟨b, hb⟩ := h v List.mem_cons_self
      obtain ⟨more, hmore⟩ := ih fun w hw => h w (List.mem_cons_of_mem v hw)
      refine ⟨b :: more, ?_⟩
      simp only [Bson.ofItems, hb, hmore]
      rfl
  obtain ⟨items, hitems⟩ := hitems
  exact ⟨.array items, Except.map_eq_ok.mpr ⟨items, hitems, rfl⟩⟩

/-- What an element is looked for in is a list of values, or under a key. -/
def looksInList : Condition → Bool
  | .member _ (.literal v) _ => v.asArray?.isSome
  | _ => true

theorem haystack_literal_eq_ok_iff (v w : Value) :
    (∃ b, haystack (.literal v) (.literal w) = .ok b) ↔
      w ≠ .array [] ∧ w.asArray?.isSome = true ∧ Encodes w := by
  cases w with
  | array values =>
    constructor
    · rintro ⟨b, h⟩
      simp only [haystack, Except.bind_eq_ok, isPrimary, listed] at h
      obtain ⟨items, hitems, -⟩ := h
      split at hitems
      · cases hitems
      · next hne =>
        refine ⟨by simpa using hne, rfl, encodes_array (encodes_of_mapM hitems).2⟩
    · rintro ⟨hne, -, h⟩
      have hvalues : values ≠ [] := by simpa using hne
      obtain ⟨items, hitems, -⟩ := listed_length h hvalues false
      refine ⟨.array (items.map quote), ?_⟩
      simp only [haystack, isPrimary, hitems]
      rfl
  | _ =>
    constructor
    · rintro ⟨b, h⟩
      cases h
    · rintro ⟨-, h, -⟩
      cases h

/-- Where a test without a key is no comparison, its expression is made of whatever can be sent. -/
theorem expressionOf_keyless {t : Condition} (ht : t.isTest = true)
    (hcompare : t.isComparison = false) (hkeys : (testOperands t).any Operand.isKey = false) :
    (∃ e, expressionOf t = .ok e) ↔
      t.validate = .ok () ∧ looksInList t = true ∧ ∀ v ∈ literals t, Encodes v := by
  have hliterals : ∀ o ∈ testOperands t, ∃ v, o = .literal v := fun o ho =>
    o.exists_literal (by simpa using List.any_eq_false.mp hkeys o ho)
  cases t with
  | not p => cases ht
  | join c items => cases ht
  | compare left op right => cases hcompare
  | member left right negated =>
    obtain ⟨v, rfl⟩ := hliterals left (by simp [testOperands, operands])
    obtain ⟨w, rfl⟩ := hliterals right (by simp [testOperands, operands])
    have hsent : (∃ e, membershipExpression (.literal v) (.literal w) negated = .ok e) ↔
        (w ≠ .array [] ∧ w.asArray?.isSome = true ∧ Encodes w) ∧ Encodes v := by
      simp only [membershipExpression, Except.bind_eq_ok, ← operand_literal_eq_ok_iff v,
        ← haystack_literal_eq_ok_iff v]
      constructor
      · rintro ⟨e, container, hcontainer, element, helement, -⟩
        exact ⟨⟨container, hcontainer⟩, ⟨element, helement⟩⟩
      · rintro ⟨⟨container, hcontainer⟩, ⟨element, helement⟩⟩
        exact ⟨_, container, hcontainer, element, helement, rfl⟩
    have hboth : (∀ x ∈ literals (.member (.literal v) (.literal w) negated), Encodes x) ↔
        Encodes v ∧ Encodes w := by
      simp [literals, fold, literalFold, Operand.literals]
    rw [expressionOf, hsent, validate_member_iff, hboth]
    constructor
    · rintro ⟨⟨hne, hlist, hw⟩, hv⟩
      exact ⟨by simpa using hne, hlist, hv, hw⟩
    · rintro ⟨hne, hlist, hv, hw⟩
      exact ⟨⟨by simpa using hne, hlist, hw⟩, hv⟩
  | between subject low high exclusive negated =>
    obtain ⟨v, rfl⟩ := hliterals subject (by simp [testOperands, operands])
    obtain ⟨l, rfl⟩ := hliterals low (by simp [testOperands, operands])
    obtain ⟨h, rfl⟩ := hliterals high (by simp [testOperands, operands])
    have hsent : (∃ e, rangeExpression (.literal v) (.literal l) (.literal h) exclusive negated =
        .ok e) ↔ (Encodes v ∧ Encodes l ∧ Encodes h) := by
      simp only [rangeExpression, Except.bind_eq_ok, ← operand_literal_eq_ok_iff]
      constructor
      · rintro ⟨e, s, hs, l, hl, h, hh, -⟩
        exact ⟨⟨s, hs⟩, ⟨l, hl⟩, ⟨h, hh⟩⟩
      · rintro ⟨⟨s, hs⟩, ⟨l, hl⟩, ⟨h, hh⟩⟩
        exact ⟨_, s, hs, l, hl, h, hh, rfl⟩
    simpa [expressionOf, Predicate.validate, looksInList, literals, fold, literalFold,
      Operand.literals] using hsent
  | pattern subject test negated =>
    obtain ⟨v, rfl⟩ := hliterals subject (by simp [testOperands, operands])
    have hsent : (∃ e, patternExpression (.literal v) test negated = .ok e) ↔ Encodes v := by
      simp only [patternExpression, Except.bind_eq_ok, ← operand_literal_eq_ok_iff]
      constructor
      · rintro ⟨e, input, hinput, -⟩
        exact ⟨input, hinput⟩
      · rintro ⟨input, hinput⟩
        exact ⟨_, input, hinput, rfl⟩
    simpa [expressionOf, Predicate.validate, looksInList, literals, fold, literalFold,
      Operand.literals] using hsent

end Document

/-- What validation refuses, every compiler refuses: for rows in every dialect, with and without a
primary key of known columns, and for documents as a filter and as an expression. The exceptions are
conditions in which a join swallows empty joins of its own connective, and in which nothing else is
wrong. -/
theorem invalid_conditions_refused (p : Sql.Condition) (q : Document.Condition) :
    ((∃ e, p.validate = .error e) →
      (∀ d, (∃ e, Sql.compile d p = .error e) ∧ ∀ k, ∃ e, Sql.compileWithKey d k p = .error e) ∨
        p.swallows = true ∧ p.flat.validate = .ok ()) ∧
    ((∃ e, q.validate = .error e) →
      ((∃ e, Document.filter q = .error e) ∧ ∃ e, Document.expression q = .error e) ∨
        q.swallows = true ∧ q.flat.validate = .ok ()) := by
  constructor
  · rintro ⟨e, he⟩
    by_cases hflat : p.flat.validate = .ok ()
    · exact .inr ⟨swallows_of_validate_flat (by simp [he]) hflat, hflat⟩
    · refine .inl fun d => ⟨?_, fun k => ?_⟩
      · exact Except.exists_error_of_ne_ok fun f h => hflat (Sql.validate_of_compile h)
      · exact Except.exists_error_of_ne_ok fun f h => hflat (Sql.validate_of_compileWithKey h)
  · rintro ⟨e, he⟩
    by_cases hflat : q.flat.validate = .ok ()
    · exact .inr ⟨swallows_of_validate_flat (by simp [he]) hflat, hflat⟩
    · refine .inl ⟨?_, ?_⟩
      · exact Except.exists_error_of_ne_ok fun f h => hflat (Document.validate_of_filter h)
      · exact Except.exists_error_of_ne_ok fun e h => hflat (Document.validate_of_expression h)

/-- An empty join under another connective, and an empty list under a negation. -/
theorem invalid_conditions_refused_nested :
    let a : Operand := .key (.named "a")
    let p : Sql.Condition := .join .and [.join .or [], .compare a .eq (.literal (.int 1))]
    let q : Document.Condition := .not (.member a (.literal (.array [])) false)
    (∀ d, (∃ e, Sql.compile d p = .error e) ∧ ∀ k, ∃ e, Sql.compileWithKey d k p = .error e) ∧
      (∃ e, Document.filter q = .error e) ∧ ∃ e, Document.expression q = .error e := by
  intro a p q
  constructor
  · exact ((invalid_conditions_refused p q).1 ⟨_, rfl⟩).resolve_right fun h => nomatch h.1
  · exact ((invalid_conditions_refused p q).2 ⟨_, rfl⟩).resolve_right fun h => nomatch h.1

/-- A conjunction swallows an empty one: it is invalid, and every compiler takes it. -/
theorem swallowed_join_compiled :
    let a : Operand := .key (.named "a")
    let one : Operand := .literal (.int 1)
    let p : Sql.Condition := .join .and [.join .and [], .compare a .eq one]
    let q : Document.Condition := .join .and [.join .and [], .compare a .eq one]
    (∃ e, p.validate = .error e) ∧ (∃ e, q.validate = .error e) ∧
      (∃ f, Sql.compile .postgres p = .ok f) ∧
      (∃ f, Sql.compileWithKey .postgres ⟨"a", []⟩ p = .ok f) ∧
      (∃ f, Document.filter q = .ok f) ∧ ∃ e, Document.expression q = .ok e :=
  ⟨⟨_, rfl⟩, ⟨_, rfl⟩, ⟨_, rfl⟩, ⟨_, rfl⟩, ⟨_, rfl⟩, ⟨_, rfl⟩⟩

/-- Every test of what is compiled for rows or as a filter has a key, and so has every comparison in
an expression. In an expression, any other test without a key is taken if its literals can be sent,
and if a membership is tested in a list of values. -/
theorem compiled_tests_have_keys (p : Sql.Condition) (q : Document.Condition) :
    (∀ d f, Sql.compile d p = .ok f →
      ∀ t ∈ p.tests, (Sql.testOperands t).any Operand.isKey = true) ∧
    (∀ f, Document.filter q = .ok f →
      ∀ t ∈ q.tests, (Document.testOperands t).any Operand.isKey = true) ∧
    (∀ e, Document.expression q = .ok e →
      ∀ t ∈ q.tests, t.isComparison = true →
        (Document.testOperands t).any Operand.isKey = true) ∧
    (q.isTest = true → q.isComparison = false →
      (Document.testOperands q).any Operand.isKey = false →
      ((∃ e, Document.expression q = .ok e) ↔ q.validate = .ok () ∧
        Document.looksInList q = true ∧ ∀ v ∈ Document.literals q, Document.Encodes v)) := by
  refine ⟨?_, ?_, ?_, ?_⟩
  · intro d f h t ht
    rw [← tests_flat] at ht
    obtain ⟨htest, haccepted⟩ :=
      (Sql.inherited_pieces d).of_mem_tests p.flat (Sql.accepted_of_compile h) t ht
    exact Sql.isKey_of_pieces htest haccepted
  · intro f h t ht
    rw [← tests_flat] at ht
    obtain ⟨htest, haccepted⟩ := Document.inherited_filterOf.of_mem_tests q.flat ⟨f, h⟩ t ht
    exact Document.isKey_of_filterOf htest haccepted
  · intro e h t ht hcompare
    rw [← tests_flat] at ht
    obtain ⟨-, haccepted⟩ := Document.inherited_expressionOf.of_mem_tests q.flat ⟨e, h⟩ t ht
    exact Document.isKey_of_expressionOf hcompare haccepted
  · intro htest hcompare hkeys
    rw [← Document.expressionOf_keyless htest hcompare hkeys, Document.expression,
      flat_of_isTest htest]

/-- Tests under negations and in joins: the keys of three of them are found. -/
theorem compiled_tests_have_keys_nested :
    let a : Operand := .key (.named "a")
    let one : Operand := .literal (.int 1)
    let p : Sql.Condition := .not (.join .or [.between one a (.key .primary) true false,
      .join .or [.pattern (.literal (.string "x")) a true]])
    let q : Document.Condition := .not (.join .or [.member one a true, .compare one .lt a])
    (∀ t ∈ p.tests, (Sql.testOperands t).any Operand.isKey = true) ∧
      (∀ t ∈ q.tests, (Document.testOperands t).any Operand.isKey = true) ∧
      (∀ t ∈ q.tests, t.isComparison = true →
        (Document.testOperands t).any Operand.isKey = true) ∧
      ∃ e, Document.expression (.between one one one true true) = .ok e := by
  intro a one p q
  obtain ⟨hsql, hfilter, hexpression, -⟩ := compiled_tests_have_keys p q
  obtain ⟨-, -, -, hkeyless⟩ := compiled_tests_have_keys p (.between one one one true true)
  refine ⟨hsql .sqlite _ rfl, hfilter _ rfl, hexpression _ rfl, ?_⟩
  refine (hkeyless rfl rfl rfl).mpr ⟨rfl, rfl, ?_⟩
  show ∀ v ∈ [Value.int 1, .int 1, .int 1], Document.Encodes v
  simpa using ⟨_, rfl⟩

/-- A range, a membership and a pattern test of constants, each of which has an expression. -/
theorem keyless_tests_compiled :
    let one : Operand := .literal (.int 1)
    let text : Operand := .literal (.string "x")
    let tests : List Document.Condition := [.between one one one false false,
      .member one (.literal (.array [.int 1])) false, .pattern text ⟨.contains, "x", {}⟩ false]
    ∀ t ∈ tests, (Document.testOperands t).any Operand.isKey = false ∧
      ∃ e, Document.expression t = .ok e := by
  intro one text tests t ht
  simp only [tests, List.mem_cons, List.not_mem_nil, or_false] at ht
  rcases ht with rfl | rfl | rfl
  · exact ⟨rfl, _, rfl⟩
  · exact ⟨rfl, _, rfl⟩
  · exact ⟨rfl, _, rfl⟩

end Polystore
