import Polystore.Proofs.Document.Meaning
import Polystore.Proofs.Except

/-!
Filters and expressions say what the conditions say that they are compiled from.
-/

namespace Polystore.Document

theorem literal_eq_sent {v : Value} {withPrimary : Bool} {b : Bson}
    (h : literal v withPrimary = .ok b) : b = sent v withPrimary := by
  simp [sent, h, Except.toOption]

theorem mapM_literal_eq_sent {values : List Value} {withPrimary : Bool} {items : List Bson}
    (h : (values.mapM fun v => literal v withPrimary) = .ok items) :
    items = values.map fun v => sent v withPrimary := by
  induction values generalizing items with
  | nil =>
    cases h
    rfl
  | cons v rest ih =>
    simp only [List.mapM_cons, Except.bind_eq_ok, pure, Except.pure, Except.ok.injEq] at h
    obtain ⟨b, hb, bs, hbs, rfl⟩ := h
    rw [List.map_cons, ← literal_eq_sent hb, ← ih hbs]

theorem listed_eq_sent {values : List Value} {withPrimary : Bool} {items : List Bson}
    (h : listed values withPrimary = .ok items) :
    items = values.map fun v => sent v withPrimary := by
  rw [listed] at h
  split at h
  · simp [invalid] at h
  · exact mapM_literal_eq_sent h

theorem operand_eq_sent {withPrimary : Bool} {o : Operand} {b : Bson}
    (h : operand withPrimary o = .ok b) : b = sentOperand withPrimary o := by
  cases o with
  | key k =>
    cases h
    rfl
  | literal v =>
    rw [operand, Except.map_eq_ok] at h
    obtain ⟨inner, hinner, rfl⟩ := h
    rw [sentOperand, literal_eq_sent hinner]

theorem haystack_eq_sent {left right : Operand} {container : Bson}
    (h : haystack left right = .ok container) :
    container = sentContainer (isPrimary left) right := by
  unfold haystack at h
  split at h
  · simp only [Except.bind_eq_ok, pure, Except.pure, Except.ok.injEq] at h
    obtain ⟨items, hitems, rfl⟩ := h
    rw [listed_eq_sent hitems, List.map_map]
    rfl
  · simp [invalid] at h
  · cases h
    rfl

theorem bound_eq_sent {withPrimary : Bool} {o : Operand} {b : Bson}
    (h : bound withPrimary o = .ok b) : ∃ v, o = .literal v ∧ b = sent v withPrimary := by
  cases o with
  | key k => simp [bound, invalid] at h
  | literal v =>
    refine ⟨v, rfl, ?_⟩
    cases v <;> first
      | exact literal_eq_sent h
      | simp [bound, invalid] at h

/-- A single item stands for the join of its items. -/
theorem eq_joined_of_map_singleton (c : Connective) {truth : Option Bool} {truths : List Bool}
    (h : truth.map (fun t => [t]) = some truths) : truth = some (joined c truths) := by
  obtain ⟨t, rfl, rfl⟩ := Option.map_eq_some_iff.mp h
  rw [joined_singleton]

namespace Reading

variable (r : Reading)

section Expressions

theorem expressionTruth_single (name : String) (arguments : Bson) :
    r.expressionTruth (single name arguments) = r.applicationTruth name arguments :=
  rfl

/-- An operator that is no connective gives what it is read as. -/
theorem expressionTruth_operator {name : String}
    (h : name ≠ "$and" ∧ name ≠ "$or" ∧ name ≠ "$not") (arguments : Bson) :
    r.expressionTruth (single name arguments) = some (r.expression name arguments) := by
  obtain ⟨hand, hor, hnot⟩ := h
  rw [expressionTruth_single]
  cases arguments <;> simp [applicationTruth, hand, hor, hnot]

theorem expressionTruth_not {e : Bson} {truth : Bool} (h : r.expressionTruth e = some truth) :
    r.expressionTruth (single "$not" (.array [e])) = some (!truth) := by
  rw [expressionTruth_single]
  simp [applicationTruth, expressionsTruth, h]

theorem expressionTruth_negatedIf {e : Bson} {truth : Bool} (negated : Bool)
    (h : r.expressionTruth e = some truth) :
    r.expressionTruth (negatedIf negated e) = some (negated.xor truth) := by
  cases negated with
  | false => simpa [negatedIf] using h
  | true => simpa [negatedIf] using r.expressionTruth_not h

theorem expressionTruth_join (c : Connective) (terms : List Bson) :
    r.expressionTruth (single (connectiveName c) (.array terms)) =
      (r.expressionsTruth terms).map (joined c) := by
  rw [expressionTruth_single]
  cases c <;> simp [applicationTruth, connectiveName]

theorem expressionsTruth_singleton (e : Bson) :
    r.expressionsTruth [e] = (r.expressionTruth e).map fun t => [t] := by
  cases h : r.expressionTruth e <;> simp [expressionsTruth, h]

theorem operatorName_ne (op : Comparison) :
    operatorName op ≠ "$and" ∧ operatorName op ≠ "$or" ∧ operatorName op ≠ "$not" := by
  cases op <;> decide

theorem comparisonExpression_truth {left right : Operand} {op : Comparison} {e : Bson}
    (h : comparisonExpression left op right = .ok e) :
    r.expressionTruth e =
      some (r.comparison left op right (isPrimary left || isPrimary right)) := by
  rw [comparisonExpression] at h
  split at h
  · simp [invalid] at h
  · simp only [Except.bind_eq_ok, pure, Except.pure, Except.ok.injEq] at h
    obtain ⟨a, ha, b, hb, rfl⟩ := h
    rw [expressionTruth_operator r (operatorName_ne op), operand_eq_sent ha, operand_eq_sent hb,
      comparison]

theorem membershipExpression_truth {left right : Operand} {negated : Bool} {e : Bson}
    (h : membershipExpression left right negated = .ok e) :
    r.expressionTruth e = some (negated.xor (r.membership left right)) := by
  simp only [membershipExpression, Except.bind_eq_ok, pure, Except.pure, Except.ok.injEq] at h
  obtain ⟨container, hcontainer, element, helement, rfl⟩ := h
  apply expressionTruth_negatedIf
  rw [expressionTruth_operator r (by decide), operand_eq_sent helement,
    haystack_eq_sent hcontainer, membership]

theorem rangeExpression_truth {subject low high : Operand} {exclusive negated : Bool} {e : Bson}
    (h : rangeExpression subject low high exclusive negated = .ok e) :
    r.expressionTruth e = some (negated.xor (r.range subject low high exclusive)) := by
  simp only [rangeExpression, Except.bind_eq_ok, pure, Except.pure, Except.ok.injEq] at h
  obtain ⟨s, hs, l, hl, h, hh, rfl⟩ := h
  apply expressionTruth_negatedIf
  have habove : r.expressionTruth (single "$gte" (.array [s, l])) =
      some (r.comparison subject .ge low false) := by
    rw [expressionTruth_operator r (by decide), operand_eq_sent hs, operand_eq_sent hl]
    rfl
  have hbelow : r.expressionTruth (single (if exclusive then "$lt" else "$lte") (.array [s, h])) =
      some (r.comparison subject (if exclusive then .lt else .le) high false) := by
    rw [expressionTruth_operator r (by cases exclusive <;> decide), operand_eq_sent hs,
      operand_eq_sent hh]
    cases exclusive <;> rfl
  have hand := r.expressionTruth_join .and
    [single "$gte" (.array [s, l]), single (if exclusive then "$lt" else "$lte") (.array [s, h])]
  rw [connectiveName] at hand
  rw [hand]
  simp [expressionsTruth, habove, hbelow, joined, range]

theorem patternExpression_truth {subject : Operand} {test : Pattern} {negated : Bool} {e : Bson}
    (h : patternExpression subject test negated = .ok e) :
    r.expressionTruth e = some (negated.xor (r.matchesPattern subject test)) := by
  simp only [patternExpression, Except.bind_eq_ok, pure, Except.pure, Except.ok.injEq] at h
  obtain ⟨input, hinput, rfl⟩ := h
  apply expressionTruth_negatedIf
  rw [expressionTruth_operator r (by decide), operand_eq_sent hinput]
  rfl

mutual

theorem expressionOf_truth : ∀ (p : Condition) (e : Bson), expressionOf p = .ok e →
    r.expressionTruth e = some (r.expressionMeaning p)
  | .compare _ _ _, _, h => r.comparisonExpression_truth h
  | .member _ _ _, _, h => r.membershipExpression_truth h
  | .between _ _ _ _ _, _, h => r.rangeExpression_truth h
  | .pattern _ _ _, _, h => r.patternExpression_truth h
  | .not p, e, h => by
    rw [expressionOf, Except.map_eq_ok] at h
    obtain ⟨inner, hinner, rfl⟩ := h
    exact r.expressionTruth_not (expressionOf_truth p inner hinner)
  | .join c items, e, h => by
    simp only [expressionOf, Except.bind_eq_ok] at h
    obtain ⟨terms, hterms, h⟩ := h
    have hitems := expressionsOf_truth items terms hterms
    have hjoin := r.expressionTruth_join c terms
    rw [hitems] at hjoin
    split at h
    · simp [emptyJoin, invalid] at h
    · next term =>
      cases h
      rw [expressionsTruth_singleton] at hitems
      exact eq_joined_of_map_singleton c hitems
    · cases h
      exact hjoin

theorem expressionsOf_truth : ∀ (items : List Condition) (terms : List Bson),
    expressionsOf items = .ok terms →
    r.expressionsTruth terms = some (Predicate.foldAll r.expressionFold items)
  | [], _, h => by
    cases h
    rfl
  | p :: rest, _, h => by
    simp only [expressionsOf, Except.bind_eq_ok, pure, Except.pure, Except.ok.injEq] at h
    obtain ⟨term, hterm, terms, hterms, rfl⟩ := h
    rw [expressionsTruth, expressionOf_truth p term hterm, expressionsOf_truth rest terms hterms]
    rfl

end

end Expressions

section Filters

theorem filterTruth_single (name : String) (value : Bson) :
    r.filterTruth [(name, value)] = r.clauseTruth name value := by
  simp [filterTruth]

theorem ne_of_not_operator {field name : String} (hfield : isOperator field = false)
    (hname : isOperator name = true) : field ≠ name := by
  rintro rfl
  rw [hfield] at hname
  cases hname

theorem clauseTruth_tests {field : String} {tests : List (String × Bson)}
    (hfield : isOperator field = false) (htests : areOperators tests = true) :
    r.clauseTruth field (.document tests) = r.testsTruth field (tests.lookup "$options") tests := by
  have hexpr : field ≠ "$expr" := ne_of_not_operator hfield (by decide)
  rw [clauseTruth, if_neg hexpr, hfield, htests]
  rfl

theorem filterTruth_expr {e : Bson} {truth : Bool} (h : r.expressionTruth e = some truth) :
    r.filterTruth [("$expr", e)] = some truth := by
  cases e with
  | document fields => simpa [filterTruth_single, clauseTruth] using h
  | _ => simp [expressionTruth] at h

theorem filterTruth_nor (f : Filter) :
    r.filterTruth [("$nor", .array [.document f])] = (r.filterTruth f).map (!·) := by
  rw [filterTruth_single, clauseTruth]
  cases h : r.filterTruth f <;> simp [filtersTruth, documentTruth, h, joined]

/-- A negated filter says the opposite, wherever the negation is put. -/
theorem filterTruth_negation (f : Filter) :
    r.filterTruth (negation f) = (r.filterTruth f).map (!·) := by
  unfold negation
  split
  · next field tests =>
    split
    · next hplace =>
      rw [Bool.and_eq_true, Bool.not_eq_true'] at hplace
      obtain ⟨hfield, htests⟩ := hplace
      have hoperators : areOperators tests = true := by
        rw [negatesInPlace, Bool.and_eq_true] at htests
        rw [areOperators, Bool.and_eq_true]
        refine ⟨htests.1, ?_⟩
        rw [List.all_eq_true] at htests ⊢
        intro test htest
        exact (Bool.and_eq_true _ _ ▸ htests.2 test htest).1
      rw [filterTruth_single, filterTruth_single, clauseTruth_tests r hfield hoperators, single,
        clauseTruth_tests r hfield rfl]
      simp [testsTruth, testTruth, hoperators]
    · exact r.filterTruth_nor _
  · exact r.filterTruth_nor _

theorem filterTruth_fieldTest {field name : String} (hfield : isOperator field = false)
    (hname : isOperator name = true) (hnot : name ≠ "$not") (hoptions : name ≠ "$options")
    (value : Bson) :
    r.filterTruth (fieldTest field name value) = some (r.operatorTruth field none name value) := by
  have hoperators : areOperators [(name, value)] = true := by
    simp [areOperators, hname]
  have hlookup : List.lookup "$options" [(name, value)] = none := by
    simp [List.lookup_cons, List.lookup_nil, beq_eq_false_iff_ne.mpr hoptions.symm]
  have htest : r.testTruth field none name value = some (r.operatorTruth field none name value) := by
    cases value <;> simp [testTruth, hnot]
  rw [fieldTest, filterTruth_single, single, clauseTruth_tests r hfield hoperators, hlookup]
  simp [testsTruth, htest]

theorem filterTruth_compares {k : Key} (hk : isOperator (fieldName k) = false) (op : Comparison)
    (v : Value) : r.filterTruth (fieldTest (fieldName k) (operatorName op) (sent v (k = .primary))) =
      some (r.compares k op v) := by
  rw [filterTruth_fieldTest r hk (by cases op <;> decide) (by cases op <;> decide)
    (by cases op <;> decide)]
  cases op <;> simp [operatorTruth, operatorName, compares]

theorem comparisonFilter_truth {left right : Operand} {op : Comparison} {f : Filter}
    (hkeys : ∀ k ∈ left.keys ++ right.keys, isOperator (fieldName k) = false)
    (h : comparisonFilter left op right = .ok f) :
    r.filterTruth f = some (r.fieldComparison left op right) := by
  cases left with
  | key l =>
    cases right with
    | key k =>
      simp only [comparisonFilter, Except.bind_eq_ok, pure, Except.pure, Except.ok.injEq] at h
      obtain ⟨e, he, rfl⟩ := h
      exact r.filterTruth_expr (r.comparisonExpression_truth he)
    | literal v =>
      simp only [comparisonFilter, Except.bind_eq_ok, pure, Except.pure, Except.ok.injEq] at h
      obtain ⟨b, hb, rfl⟩ := h
      rw [literal_eq_sent hb]
      exact r.filterTruth_compares (hkeys l (by simp [Operand.keys])) op v
  | literal v =>
    cases right with
    | key k =>
      simp only [comparisonFilter, Except.bind_eq_ok, pure, Except.pure, Except.ok.injEq] at h
      obtain ⟨b, hb, rfl⟩ := h
      rw [literal_eq_sent hb]
      exact r.filterTruth_compares (hkeys k (by simp [Operand.keys])) op.flipped v
    | literal _ => simp [comparisonFilter, invalid] at h

theorem membershipFilter_truth {left right : Operand} {negated : Bool} {f : Filter}
    (hkeys : ∀ k ∈ left.keys ++ right.keys, isOperator (fieldName k) = false)
    (h : membershipFilter left right negated = .ok f) :
    r.filterTruth f = some (negated.xor (r.fieldMembership left right)) := by
  unfold membershipFilter at h
  split at h
  · next k values =>
    simp only [Except.bind_eq_ok, pure, Except.pure, Except.ok.injEq] at h
    obtain ⟨items, hitems, rfl⟩ := h
    rw [filterTruth_fieldTest r (hkeys k (by simp [Operand.keys])) (by cases negated <;> decide)
      (by cases negated <;> decide) (by cases negated <;> decide), listed_eq_sent hitems]
    cases negated <;> simp [operatorTruth, fieldMembership, sentList]
  · next v k =>
    simp only [Except.bind_eq_ok, pure, Except.pure, Except.ok.injEq] at h
    obtain ⟨b, hb, rfl⟩ := h
    have hsent : b = sent v false := literal_eq_sent hb
    rw [filterTruth_fieldTest r (hkeys k (by simp [Operand.keys])) (by cases negated <;> decide)
      (by cases negated <;> decide) (by cases negated <;> decide), hsent]
    cases negated <;> simp [operatorTruth, fieldMembership]
  · next element array =>
    split at h
    · simp [invalid] at h
    · next hnegated =>
      cases h
      rw [Bool.not_eq_true] at hnegated
      rw [hnegated, filterTruth_expr r (r.expressionTruth_operator (by decide) _), Bool.false_xor,
        fieldMembership]
  · simp [invalid] at h

theorem filterTruth_join (c : Connective) (clauses : List Bson) :
    r.filterTruth [(connectiveName c, .array clauses)] = (r.filtersTruth clauses).map (joined c) := by
  rw [filterTruth_single]
  cases c <;> simp [clauseTruth, connectiveName]

theorem filtersTruth_singleton (f : Filter) :
    r.filtersTruth [.document f] = (r.filterTruth f).map fun t => [t] := by
  cases h : r.filterTruth f <;> simp [filtersTruth, documentTruth, h]

theorem filterTruth_pair {k : Key} (hk : isOperator (fieldName k) = false) (c : Connective)
    (first second : Comparison) (v w : Value) :
    r.filterTruth [(connectiveName c, .array
        [.document (fieldTest (fieldName k) (operatorName first) (sent v (k = .primary))),
          .document (fieldTest (fieldName k) (operatorName second) (sent w (k = .primary)))])] =
      some (joined c [r.compares k first v, r.compares k second w]) := by
  rw [filterTruth_join]
  simp [filtersTruth, documentTruth, filterTruth_compares r hk]

theorem rangeFilter_truth {subject low high : Operand} {exclusive negated : Bool} {f : Filter}
    (hkeys : ∀ k ∈ subject.keys, isOperator (fieldName k) = false)
    (h : rangeFilter subject low high exclusive negated = .ok f) :
    r.filterTruth f = some (r.fieldRange subject low high exclusive negated) := by
  cases subject with
  | literal v => simp [rangeFilter, invalid] at h
  | key k =>
    simp only [rangeFilter, Except.bind_eq_ok, pure, Except.pure, Except.ok.injEq] at h
    obtain ⟨l, hl, u, hu, rfl⟩ := h
    obtain ⟨v, rfl, rfl⟩ := bound_eq_sent hl
    obtain ⟨w, rfl, rfl⟩ := bound_eq_sent hu
    have hk := hkeys k (by simp [Operand.keys])
    rw [fieldRange]
    cases negated with
    | false =>
      have hpair := r.filterTruth_pair hk .and .ge (if exclusive then .lt else .le) v w
      cases exclusive <;> simpa [joined, connectiveName, operatorName] using hpair
    | true =>
      have hpair := r.filterTruth_pair hk .or .lt (if exclusive then .ge else .gt) v w
      cases exclusive <;> simpa [joined, connectiveName, operatorName] using hpair

theorem sentOptions_cases (test : Pattern) (name : String) :
    test.sentOptions name = [] ∨ ∃ text, test.sentOptions name = [(name, .string text)] := by
  rw [Pattern.sentOptions, Pattern.optionField]
  split
  · exact .inl rfl
  · exact .inr ⟨_, rfl⟩

theorem patternFilter_truth {subject : Operand} {test : Pattern} {negated : Bool} {f : Filter}
    (hkeys : ∀ k ∈ subject.keys, isOperator (fieldName k) = false)
    (h : patternFilter subject test negated = .ok f) :
    r.filterTruth f = some (negated.xor (r.fieldPattern subject test)) := by
  cases subject with
  | literal v => simp [patternFilter, invalid] at h
  | key k =>
    have hk := hkeys k (by simp [Operand.keys])
    let tests := ("$regex", Bson.string test.source) :: test.sentOptions "$options"
    have hoperators : negatesInPlace tests = true ∧ areOperators tests = true := by
      rcases sentOptions_cases test "$options" with hnone | ⟨text, hsome⟩
      · simp only [tests, hnone]
        exact ⟨rfl, rfl⟩
      · simp only [tests, hsome]
        exact ⟨rfl, rfl⟩
    have htests : r.filterTruth [(fieldName k, .document tests)] =
        some (r.fieldPattern (.key k) test) := by
      rw [filterTruth_single, clauseTruth_tests r hk hoperators.2]
      rcases sentOptions_cases test "$options" with hnone | ⟨text, hsome⟩
      · simp [tests, hnone, testsTruth, testTruth, operatorTruth, fieldPattern, List.lookup_cons]
      · simp [tests, hsome, testsTruth, testTruth, operatorTruth, fieldPattern, List.lookup_cons]
    cases h
    cases negated with
    | false => exact htests.trans (by simp)
    | true =>
      have hnegation : negation [(fieldName k, .document tests)] =
          [(fieldName k, single "$not" (.document tests))] := by
        simp [negation, hk, hoperators.1]
      have htruth := r.filterTruth_negation [(fieldName k, .document tests)]
      rw [hnegation, htests] at htruth
      exact htruth.trans (by simp)

mutual

theorem filterOf_truth : ∀ (p : Condition) (f : Filter),
    (∀ k ∈ p.keys, isOperator (fieldName k) = false) → filterOf p = .ok f →
    r.filterTruth f = some (r.filterMeaning p)
  | .compare _ _ _, _, hkeys, h => r.comparisonFilter_truth hkeys h
  | .member _ _ _, _, hkeys, h => r.membershipFilter_truth hkeys h
  | .between subject low high _ _, _, hkeys, h =>
    r.rangeFilter_truth
      (fun k hk => hkeys k (List.mem_append_left _ (List.mem_append_left _ hk))) h
  | .pattern _ _ _, _, hkeys, h => r.patternFilter_truth hkeys h
  | .not p, f, hkeys, h => by
    rw [filterOf, Except.map_eq_ok] at h
    obtain ⟨inner, hinner, rfl⟩ := h
    rw [filterTruth_negation, filterOf_truth p inner hkeys hinner]
    rfl
  | .join c items, f, hkeys, h => by
    simp only [filterOf, Except.bind_eq_ok] at h
    obtain ⟨clauses, hclauses, h⟩ := h
    have hitems := filtersOf_truth items clauses hkeys hclauses
    have hjoin := r.filterTruth_join c (clauses.map .document)
    rw [hitems] at hjoin
    split at h
    · simp [emptyJoin, invalid] at h
    · next clause =>
      cases h
      rw [List.map_singleton, filtersTruth_singleton] at hitems
      exact eq_joined_of_map_singleton c hitems
    · cases h
      exact hjoin

theorem filtersOf_truth : ∀ (items : List Condition) (clauses : List Filter),
    (∀ k ∈ (Predicate.foldAll Predicate.keyFold items).flatten, isOperator (fieldName k) = false) →
    filtersOf items = .ok clauses →
    r.filtersTruth (clauses.map .document) = some (Predicate.foldAll r.filterFold items)
  | [], _, _, h => by
    cases h
    rfl
  | p :: rest, _, hkeys, h => by
    simp only [filtersOf, Except.bind_eq_ok, pure, Except.pure, Except.ok.injEq] at h
    obtain ⟨clause, hclause, clauses, hclauses, rfl⟩ := h
    have hhead := filterOf_truth p clause
      (fun k hk => hkeys k (List.mem_append_left _ hk)) hclause
    have hrest := filtersOf_truth rest clauses
      (fun k hk => hkeys k (List.mem_append_right _ hk)) hclauses
    rw [List.map_cons, filtersTruth, documentTruth, hhead, hrest]
    rfl

end

end Filters

end Reading

/-- Whatever a condition without operators for keys is compiled to holds of a document if and only if
the condition does, whatever the tests of fields and the operators of expressions are read as. -/
theorem compiled_documents_preserve_truth (r : Reading) (p : Condition) :
    ((∀ name, Key.named name ∈ p.keys → isOperator name = false) → ∀ f, filter p = .ok f →
      r.filterTruth f = some (r.filterMeaning p)) ∧
    (∀ e, expression p = .ok e → r.expressionTruth e = some (r.expressionMeaning p)) := by
  constructor
  · intro hnames f h
    have hkeys : ∀ k ∈ p.flat.keys, isOperator (fieldName k) = false := by
      rw [Predicate.keys_flat]
      intro k hk
      cases k with
      | named name => exact hnames name hk
      | primary => decide
    rw [r.filterOf_truth p.flat f hkeys h, r.filterMeaning_flat]
  · intro e h
    rw [r.expressionOf_truth p.flat e h, r.expressionMeaning_flat]

/-- A test that is negated twice, once in its field and once around it, beside a test of two fields. -/
theorem compiled_documents_preserve_truth_twice :
    let a : Operand := .key (.named "a")
    let p : Condition := .join .and [.not (.not (.compare (.literal (.int 1)) .lt a)),
      .not (.join .or [.compare a .eq (.key .primary), .between a (.literal (.int 1)) (.literal (.int 2))
        true true])]
    (∃ f, filter p = .ok f ∧ ∀ r : Reading, r.filterTruth f = some (r.filterMeaning p)) ∧
      ∃ e, expression p = .ok e ∧ ∀ r : Reading, r.expressionTruth e = some (r.expressionMeaning p) := by
  refine ⟨⟨_, rfl, fun r => ?_⟩, ⟨_, rfl, fun r => ?_⟩⟩
  · refine (compiled_documents_preserve_truth r _).1 ?_ _ rfl
    intro name hname
    have hname : name = "a" := by simpa [Predicate.keys, Predicate.fold, Predicate.foldAll,
      Predicate.keyFold, Operand.keys] using hname
    rw [hname]
    decide
  · exact (compiled_documents_preserve_truth r _).2 _ rfl

end Polystore.Document
