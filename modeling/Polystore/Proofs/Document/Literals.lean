import Mathlib.Data.List.Forall2
import Polystore.Proofs.Predicate.Acceptance

/-!
The literals of a condition in its filter and in its expression. Either is read at the places where the
condition has literals, the mark of a literal in an expression taken off. Main statement: a literal
stands as the same value in both, unless it is an end of a range of the primary key.
-/

namespace Polystore.Document

open Predicate

/-- A literal and what it is tested against: the primary key or not, as an end of a range or not. -/
structure Tested where
  value : Value
  primary : Bool
  bound : Bool

/-- What a literal is sent as in a filter. -/
def Tested.inFilter (t : Tested) : Except Error Bson :=
  literal t.value t.primary

/-- What a literal is sent as in an expression. -/
def Tested.inExpression (t : Tested) : Except Error Bson :=
  literal t.value (t.primary && !t.bound)

def testedOperand (primary bound : Bool) : Operand → List Tested
  | .key _ => []
  | .literal v => [⟨v, primary, bound⟩]

/-- The values of a list are tested one by one. -/
def testedList (primary : Bool) : Operand → List Tested
  | .literal (.array values) => values.map fun v => ⟨v, primary, false⟩
  | _ => []

def testedFold : Fold Pattern (List Tested) where
  compare left _ right :=
    let primary := isPrimary left || isPrimary right
    testedOperand primary false left ++ testedOperand primary false right
  member left right _ := testedOperand false false left ++ testedList (isPrimary left) right
  between subject low high _ _ :=
    testedOperand (isPrimary subject) true low ++ testedOperand (isPrimary subject) true high
  pattern _ _ _ := []
  not tested := tested
  join _ tested := tested.flatten

theorem testedFold_merges : testedFold.Merges where
  singleton _ _ := by simp [testedFold]
  append _ _ _ := by simp [testedFold]

/-- The literals of the comparisons, the lists and the ranges of a condition, in order. -/
def tested (p : Condition) : List Tested :=
  p.fold testedFold

theorem tested_flat (p : Condition) : tested p.flat = tested p :=
  fold_flat testedFold_merges p

def itemsOf : Bson → List Bson
  | .array items => items
  | _ => []

/-! ### Literals in filters -/

/-- What the operator that a field is tested with is given. -/
def operatorArgument : Filter → List Bson
  | [(_, .document [(_, b)])] => [b]
  | _ => []

/-- The filter that has been negated, in its field or around it. -/
def unnegated : Filter → Filter
  | [(field, .document [(_, tests)])] => [(field, tests)]
  | [(_, .array [.document f])] => f
  | f => f

def asFilter : Bson → Filter
  | .document f => f
  | _ => []

/-- The filters that a filter of so many terms has been joined from. -/
def clausesOf (count : Nat) (f : Filter) : List Filter :=
  if count = 1 then [f]
  else
    match f with
    | [(_, .array clauses)] => clauses.map asFilter
    | _ => []

mutual

/-- What stands in a filter where the condition has literals. -/
def literalsOfFilter : Condition → Filter → List Bson
  | .compare left _ right, f => if left.isKey && right.isKey then [] else operatorArgument f
  | .member left right _, f =>
    match left, right with
    | .key _, .literal _ => (operatorArgument f).flatMap itemsOf
    | .literal _, .key _ => operatorArgument f
    | _, _ => []
  | .between _ _ _ _ _, f => (clausesOf 2 f).flatMap operatorArgument
  | .pattern _ _ _, _ => []
  | .not p, f => literalsOfFilter p (unnegated f)
  | .join _ items, f => literalsOfFilters items (clausesOf items.length f)
termination_by structural p => p

def literalsOfFilters : List Condition → List Filter → List Bson
  | p :: rest, f :: others => literalsOfFilter p f ++ literalsOfFilters rest others
  | _, _ => []
termination_by structural items => items

end

abbrev InFilter (literals : List Tested) (sent : List Bson) : Prop :=
  List.Forall₂ (fun t b => t.inFilter = .ok b) literals sent

theorem unnegated_negation (f : Filter) : unnegated (negation f) = f := by
  unfold negation
  split
  · split
    · rfl
    · rfl
  · rfl

theorem asFilter_documents (clauses : List Filter) :
    (clauses.map Bson.document).map asFilter = clauses := by
  simp [Function.comp_def, asFilter]

theorem isPrimary_key (k : Key) : isPrimary (.key k) = decide (k = .primary) := by
  cases k <;> rfl

theorem testedOperand_inFilter {v : Value} (primary bound : Bool) {b : Bson}
    (h : literal v primary = .ok b) :
    InFilter (testedOperand primary bound (.literal v)) [b] :=
  .cons h .nil

theorem forall₂_of_listed {values : List Value} {primary : Bool} {items : List Bson}
    (h : listed values primary = .ok items) :
    List.Forall₂ (fun v b => literal v primary = .ok b) values items := by
  rw [listed] at h
  split at h
  · cases h
  · exact Except.forall₂_of_mapM h

theorem comparisonFilter_literals {left right : Operand} {op : Comparison} {f : Filter}
    (h : comparisonFilter left op right = .ok f) :
    InFilter (tested (.compare left op right)) (literalsOfFilter (.compare left op right) f) := by
  cases left with
  | key k =>
    cases right with
    | key l => exact .nil
    | literal v =>
      simp only [comparisonFilter, Except.bind_eq_ok, pure, Except.pure, Except.ok.injEq] at h
      obtain ⟨b, hb, rfl⟩ := h
      cases k <;> exact testedOperand_inFilter _ false hb
  | literal v =>
    cases right with
    | key l =>
      simp only [comparisonFilter, Except.bind_eq_ok, pure, Except.pure, Except.ok.injEq] at h
      obtain ⟨b, hb, rfl⟩ := h
      cases l <;> exact testedOperand_inFilter _ false hb
    | literal w => cases h

theorem membershipFilter_literals {left right : Operand} {negated : Bool} {f : Filter}
    (h : membershipFilter left right negated = .ok f) :
    InFilter (tested (.member left right negated))
      (literalsOfFilter (.member left right negated) f) := by
  cases left with
  | key k =>
    cases right with
    | key l => exact .nil
    | literal w =>
      cases w with
      | array values =>
        simp only [membershipFilter, Except.bind_eq_ok, pure, Except.pure, Except.ok.injEq] at h
        obtain ⟨items, hitems, rfl⟩ := h
        have hsent : InFilter (testedList (isPrimary (.key k)) (.literal (.array values))) items := by
          rw [isPrimary_key, testedList, InFilter, List.forall₂_map_left_iff]
          exact forall₂_of_listed hitems
        simpa [literalsOfFilter, operatorArgument, fieldTest, single, itemsOf, tested, fold,
          testedFold, testedOperand] using hsent
      | _ => cases h
  | literal v =>
    cases right with
    | key l =>
      simp only [membershipFilter, Except.bind_eq_ok, pure, Except.pure, Except.ok.injEq] at h
      obtain ⟨b, hb, rfl⟩ := h
      exact testedOperand_inFilter false false hb
    | literal w => cases h

theorem literal_of_bound {primary : Bool} {o : Operand} {b : Bson}
    (h : bound primary o = .ok b) : ∃ v, o = .literal v ∧ literal v primary = .ok b := by
  cases o with
  | key k => cases h
  | literal v =>
    refine ⟨v, rfl, ?_⟩
    cases v <;> first
      | exact h
      | cases h

theorem rangeFilter_literals {subject low high : Operand} {exclusive negated : Bool} {f : Filter}
    (h : rangeFilter subject low high exclusive negated = .ok f) :
    InFilter (tested (.between subject low high exclusive negated))
      (literalsOfFilter (.between subject low high exclusive negated) f) := by
  cases subject with
  | literal v => cases h
  | key k =>
    simp only [rangeFilter, Except.bind_eq_ok, pure, Except.pure, Except.ok.injEq] at h
    obtain ⟨l, hl, h, hh, rfl⟩ := h
    obtain ⟨v, rfl, hv⟩ := literal_of_bound hl
    obtain ⟨w, rfl, hw⟩ := literal_of_bound hh
    rw [← isPrimary_key] at hv hw
    exact .cons hv (.cons hw .nil)

theorem clausesOf_join {c : Connective} {items : List Condition} {f : Filter}
    (h : filterOf (.join c items) = .ok f) :
    filtersOf items = .ok (clausesOf items.length f) := by
  simp only [filterOf, Except.bind_eq_ok] at h
  obtain ⟨clauses, hclauses, h⟩ := h
  rw [hclauses, ← (each_of_filtersOf hclauses).1]
  split at h
  · cases h
  · cases h
    rfl
  · next hnil hone =>
    cases h
    have hlength : clauses.length ≠ 1 := by
      intro h
      obtain ⟨clause, hclause⟩ := List.length_eq_one_iff.mp h
      exact hone clause hclause
    rw [clausesOf, if_neg hlength, asFilter_documents]

mutual

theorem filterOf_literals : ∀ (p : Condition) (f : Filter), filterOf p = .ok f →
    InFilter (tested p) (literalsOfFilter p f)
  | .compare _ _ _, _, h => comparisonFilter_literals h
  | .member _ _ _, _, h => membershipFilter_literals h
  | .between _ _ _ _ _, _, h => rangeFilter_literals h
  | .pattern _ _ _, _, _ => .nil
  | .not p, f, h => by
    rw [filterOf, Except.map_eq_ok] at h
    obtain ⟨inner, hinner, rfl⟩ := h
    rw [literalsOfFilter, unnegated_negation]
    exact filterOf_literals p inner hinner
  | .join _ items, _, h => filtersOf_literals items _ (clausesOf_join h)
termination_by structural p => p

theorem filtersOf_literals : ∀ (items : List Condition) (clauses : List Filter),
    filtersOf items = .ok clauses →
      InFilter (foldAll testedFold items).flatten (literalsOfFilters items clauses)
  | [], _, _ => .nil
  | p :: rest, clauses, h => by
    simp only [filtersOf, Except.bind_eq_ok, pure, Except.pure, Except.ok.injEq] at h
    obtain ⟨clause, hclause, others, hothers, rfl⟩ := h
    exact List.rel_append (filterOf_literals p clause hclause)
      (filtersOf_literals rest others hothers)
termination_by structural items => items

end

/-! ### Literals in expressions -/

/-- A literal without the mark that keeps it from being evaluated. -/
def unquoted : Bson → Bson
  | .document [("$literal", b)] => b
  | b => b

theorem unquoted_quote (b : Bson) : unquoted (quote b) = b := by
  unfold quote
  split
  · split <;> rfl
  · rfl
  · rfl
  · next hstring harray hdocument =>
    unfold unquoted
    split
    · exact absurd rfl (hdocument _)
    · rfl

def argumentsOf : Bson → List Bson
  | .document [(_, .array arguments)] => arguments
  | _ => []

/-- The expression under a negation, if there is one. -/
def affirmed (negated : Bool) (e : Bson) : Bson :=
  if negated then (argumentsOf e).headD .null else e

theorem affirmed_negatedIf (negated : Bool) (e : Bson) :
    affirmed negated (negatedIf negated e) = e := by
  cases negated <;> rfl

/-- The expressions that an expression of so many terms has been joined from. -/
def termsOf (count : Nat) (e : Bson) : List Bson :=
  if count = 1 then [e] else argumentsOf e

def operandLiterals : Operand → Option Bson → List Bson
  | .literal _, some b => [unquoted b]
  | _, _ => []

def containerLiterals : Operand → Option Bson → List Bson
  | .literal _, some (.array items) => items.map unquoted
  | _, _ => []

mutual

/-- What stands in an expression where the condition has literals. -/
def literalsOfExpression : Condition → Bson → List Bson
  | .compare left _ right, e =>
    operandLiterals left (argumentsOf e)[0]? ++ operandLiterals right (argumentsOf e)[1]?
  | .member left right negated, e =>
    let arguments := argumentsOf (affirmed negated e)
    operandLiterals left arguments[0]? ++ containerLiterals right arguments[1]?
  | .between _ low high _ negated, e =>
    match argumentsOf (affirmed negated e) with
    | [above, below] =>
      operandLiterals low (argumentsOf above)[1]? ++ operandLiterals high (argumentsOf below)[1]?
    | _ => []
  | .pattern _ _ _, _ => []
  | .not p, e => literalsOfExpression p (affirmed true e)
  | .join _ items, e => literalsOfExpressions items (termsOf items.length e)
termination_by structural p => p

def literalsOfExpressions : List Condition → List Bson → List Bson
  | p :: rest, e :: others => literalsOfExpression p e ++ literalsOfExpressions rest others
  | _, _ => []
termination_by structural items => items

end

abbrev InExpression (literals : List Tested) (sent : List Bson) : Prop :=
  List.Forall₂ (fun t b => t.inExpression = .ok b) literals sent

theorem operand_literals (primary bound : Bool) {o : Operand} {b : Bson}
    (h : operand (primary && !bound) o = .ok b) :
    InExpression (testedOperand primary bound o) (operandLiterals o (some b)) := by
  cases o with
  | key k => exact .nil
  | literal v =>
    rw [operand, Except.map_eq_ok] at h
    obtain ⟨sent, hsent, rfl⟩ := h
    rw [operandLiterals, unquoted_quote]
    exact .cons hsent .nil

theorem haystack_literals {left right : Operand} {container : Bson}
    (h : haystack left right = .ok container) :
    InExpression (testedList (isPrimary left) right) (containerLiterals right (some container)) := by
  unfold haystack at h
  split at h
  · simp only [Except.bind_eq_ok, pure, Except.pure, Except.ok.injEq] at h
    obtain ⟨items, hitems, rfl⟩ := h
    have hunquoted : (items.map quote).map unquoted = items := by
      simp [Function.comp_def, unquoted_quote]
    rw [containerLiterals, hunquoted, testedList, InExpression, List.forall₂_map_left_iff]
    simpa [Tested.inExpression] using forall₂_of_listed hitems
  · cases h
  · exact .nil

theorem comparisonExpression_literals {left right : Operand} {op : Comparison} {e : Bson}
    (h : comparisonExpression left op right = .ok e) :
    InExpression (tested (.compare left op right))
      (literalsOfExpression (.compare left op right) e) := by
  rw [comparisonExpression] at h
  split at h
  · cases h
  · simp only [Except.bind_eq_ok, pure, Except.pure, Except.ok.injEq] at h
    obtain ⟨l, hl, r, hr, rfl⟩ := h
    rw [← Bool.and_true (isPrimary left || isPrimary right)] at hl hr
    exact List.rel_append (operand_literals _ false hl) (operand_literals _ false hr)

theorem membershipExpression_literals {left right : Operand} {negated : Bool} {e : Bson}
    (h : membershipExpression left right negated = .ok e) :
    InExpression (tested (.member left right negated))
      (literalsOfExpression (.member left right negated) e) := by
  simp only [membershipExpression, Except.bind_eq_ok, pure, Except.pure, Except.ok.injEq] at h
  obtain ⟨container, hcontainer, element, helement, rfl⟩ := h
  rw [literalsOfExpression, affirmed_negatedIf]
  exact List.rel_append (operand_literals false false helement)
    (haystack_literals hcontainer)

theorem rangeExpression_literals {subject low high : Operand} {exclusive negated : Bool} {e : Bson}
    (h : rangeExpression subject low high exclusive negated = .ok e) :
    InExpression (tested (.between subject low high exclusive negated))
      (literalsOfExpression (.between subject low high exclusive negated) e) := by
  simp only [rangeExpression, Except.bind_eq_ok, pure, Except.pure, Except.ok.injEq] at h
  obtain ⟨s, hs, l, hl, h, hh, rfl⟩ := h
  rw [← Bool.and_false (isPrimary subject)] at hl hh
  rw [literalsOfExpression, affirmed_negatedIf]
  exact List.rel_append (operand_literals _ true hl) (operand_literals _ true hh)

theorem termsOf_join {c : Connective} {items : List Condition} {e : Bson}
    (h : expressionOf (.join c items) = .ok e) :
    expressionsOf items = .ok (termsOf items.length e) := by
  simp only [expressionOf, Except.bind_eq_ok] at h
  obtain ⟨terms, hterms, h⟩ := h
  rw [hterms, ← (each_of_expressionsOf hterms).1]
  split at h
  · cases h
  · cases h
    rfl
  · next hnil hone =>
    cases h
    have hlength : terms.length ≠ 1 := by
      intro h
      obtain ⟨term, hterm⟩ := List.length_eq_one_iff.mp h
      exact hone term hterm
    rw [termsOf, if_neg hlength]
    rfl

mutual

theorem expressionOf_literals : ∀ (p : Condition) (e : Bson), expressionOf p = .ok e →
    InExpression (tested p) (literalsOfExpression p e)
  | .compare _ _ _, _, h => comparisonExpression_literals h
  | .member _ _ _, _, h => membershipExpression_literals h
  | .between _ _ _ _ _, _, h => rangeExpression_literals h
  | .pattern _ _ _, _, _ => .nil
  | .not p, e, h => by
    rw [expressionOf, Except.map_eq_ok] at h
    obtain ⟨inner, hinner, rfl⟩ := h
    rw [literalsOfExpression, affirmed_negatedIf]
    exact expressionOf_literals p inner hinner
  | .join _ items, _, h => expressionsOf_literals items _ (termsOf_join h)
termination_by structural p => p

theorem expressionsOf_literals : ∀ (items : List Condition) (terms : List Bson),
    expressionsOf items = .ok terms →
      InExpression (foldAll testedFold items).flatten (literalsOfExpressions items terms)
  | [], _, _ => .nil
  | p :: rest, terms, h => by
    simp only [expressionsOf, Except.bind_eq_ok, pure, Except.pure, Except.ok.injEq] at h
    obtain ⟨term, hterm, others, hothers, rfl⟩ := h
    exact List.rel_append (expressionOf_literals p term hterm)
      (expressionsOf_literals rest others hothers)
termination_by structural items => items

end

/-! ### Literals in both -/

theorem getElem?_eq_of_forall₂ {A B : Type} {r s : A → B → Prop} {literals : List A}
    {left right : List B} (hleft : List.Forall₂ r literals left)
    (hright : List.Forall₂ s literals right) {i : Nat} {t : A} (ht : literals[i]? = some t)
    (h : ∀ a b, r t a → s t b → a = b) : left[i]? = right[i]? := by
  induction hleft generalizing right i with
  | nil => cases ht
  | cons ha _ ih =>
    cases hright with
    | cons hb hrest =>
      cases i with
      | zero =>
        cases ht
        exact congrArg some (h _ _ ha hb)
      | succ i => exact ih hrest ht

/-- What a literal of a comparison, a list or a range is sent as in a filter and in an expression
that are both made of one condition. A literal compared with the primary key, or in a list that it is
looked for in, is an object identifier in both if it looks like one; an end of a range of the primary
key is one in the filter only. Every other literal is sent as the same value in both. -/
theorem literals_of_filter_and_expression {p : Condition} {f : Filter} {e : Bson}
    (hf : filter p = .ok f) (he : expression p = .ok e) :
    InFilter (tested p) (literalsOfFilter p.flat f) ∧
      InExpression (tested p) (literalsOfExpression p.flat e) ∧
      ∀ (i : Nat) (t : Tested), (tested p)[i]? = some t → (t.primary && t.bound) = false →
        (literalsOfFilter p.flat f)[i]? = (literalsOfExpression p.flat e)[i]? := by
  have hfilter := filterOf_literals p.flat f hf
  have hexpression := expressionOf_literals p.flat e he
  rw [tested_flat] at hfilter hexpression
  refine ⟨hfilter, hexpression, fun i t ht hbound => ?_⟩
  apply getElem?_eq_of_forall₂ hfilter hexpression ht
  intro a b ha hb
  have hsame : (t.primary && !t.bound) = t.primary := by
    cases hprimary : t.primary <;> simp_all
  rw [Tested.inExpression, hsame, ← Tested.inFilter, ha] at hb
  exact Except.ok.inj hb

/-- Literals compared with the primary key, in a list that it is looked for in, and the ends of a
range of another key, all under a negation. -/
theorem literals_of_filter_and_expression_nested :
    let id : Value := .string "507f1f77bcf86cd799439011"
    let p : Condition := .not (.join .or [.compare (.literal id) .lt (.key .primary),
      .join .or [.member (.key .primary) (.literal (.array [id, .int 1])) true],
      .between (.key (.named "a")) (.literal id) (.literal (.string "$a")) false true])
    ∃ f e, filter p = .ok f ∧ expression p = .ok e ∧
      InFilter (tested p) (literalsOfFilter p.flat f) ∧
      InExpression (tested p) (literalsOfExpression p.flat e) ∧
      (literalsOfFilter p.flat f)[1]? = (literalsOfExpression p.flat e)[1]? ∧
      (literalsOfFilter p.flat f)[4]? = (literalsOfExpression p.flat e)[4]? := by
  intro id p
  obtain ⟨hfilter, hexpression, hsame⟩ := literals_of_filter_and_expression (p := p) rfl rfl
  exact ⟨_, _, rfl, rfl, hfilter, hexpression, hsame 1 _ rfl rfl, hsame 4 _ rfl rfl⟩

/-- The ends of a range of the primary key: object identifiers in the filter, texts in the
expression. -/
theorem primary_range_sent_differently :
    let low : Value := .string "507f1f77bcf86cd799439011"
    let high : Value := .string "507f1f77bcf86cd799439012"
    let p : Condition := .between (.key .primary) (.literal low) (.literal high) false false
    ∃ f e, filter p = .ok f ∧ expression p = .ok e ∧
      (literalsOfFilter p.flat f)[0]? ≠ (literalsOfExpression p.flat e)[0]? ∧
      literalsOfExpression p.flat e =
        [.string "507f1f77bcf86cd799439011", .string "507f1f77bcf86cd799439012"] := by
  intro low high p
  refine ⟨_, _, rfl, rfl, ?_, rfl⟩
  intro h
  cases h

end Polystore.Document
