import Polystore.Document.Filter
import Polystore.Proofs.Except
import Polystore.Proofs.Predicate.Fold

/-!
What the store evaluates in an expression. Every text is evaluated that is not marked as a literal,
and one that starts with a dollar sign is read as a path: those texts are the paths of the keys, and
the sources of the patterns, which are not marked.
-/

namespace Polystore.Document

mutual

/-- The texts that are evaluated: those outside of literals. -/
def evaluated : Bson → List String
  | .string s => [s]
  | .array items => evaluatedItems items
  | .document fields => evaluatedFields fields
  | .codeWithScope _ scope => evaluatedFields scope
  | _ => []
termination_by structural b => b

def evaluatedItems : List Bson → List String
  | [] => []
  | b :: rest => evaluated b ++ evaluatedItems rest
termination_by structural items => items

def evaluatedFields : List (String × Bson) → List String
  | [] => []
  | (name, value) :: rest =>
    (if name = "$literal" then [] else evaluated value) ++ evaluatedFields rest
termination_by structural fields => fields

end

theorem evaluated_single {name : String} (hname : name ≠ "$literal") (value : Bson) :
    evaluated (single name value) = evaluated value := by
  simp [single, evaluated, evaluatedFields, hname]

theorem evaluated_literal (b : Bson) : evaluated (single "$literal" b) = [] := by
  simp [single, evaluated, evaluatedFields]

def patternFold : Predicate.Fold Pattern (List Pattern) where
  compare _ _ _ := []
  member _ _ _ := []
  between _ _ _ _ _ := []
  pattern _ test _ := [test]
  not patterns := patterns
  join _ patterns := patterns.flatten

theorem patternFold_merges : patternFold.Merges where
  singleton _ _ := by simp [patternFold]
  append _ _ _ := by simp [patternFold]

/-- The patterns of a condition, in the order they are written in. -/
def patterns (p : Condition) : List Pattern :=
  p.fold patternFold

theorem patterns_flat (p : Condition) : patterns p.flat = patterns p :=
  Predicate.fold_flat patternFold_merges p

/-- Among these texts, those that are read as paths are the paths of the keys and the sources of the
patterns. -/
def Exposes (texts : List String) (keys : List Key) (patterns : List Pattern) : Prop :=
  ∀ s, isOperator s = true →
    (s ∈ texts ↔ (∃ k ∈ keys, path k = .string s) ∨ ∃ t ∈ patterns, t.source = s)

namespace Exposes

variable {texts texts' : List String} {keys keys' : List Key} {patterns patterns' : List Pattern}

theorem nil : Exposes [] [] [] := by
  intro s _
  simp

theorem append (h : Exposes texts keys patterns) (h' : Exposes texts' keys' patterns') :
    Exposes (texts ++ texts') (keys ++ keys') (patterns ++ patterns') := by
  intro s hs
  rw [List.mem_append, h s hs, h' s hs]
  simp only [List.mem_append, or_and_right, exists_or]
  exact or_or_or_comm

theorem key (k : Key) : Exposes (evaluated (path k)) [k] [] := by
  intro s _
  simp [path, evaluated, eq_comm]

theorem pattern (test : Pattern) : Exposes [test.source] [] [test] := by
  intro s _
  simp [eq_comm]

/-- A text that is no path is not among them. -/
theorem plain {s : String} (hs : isOperator s = false) : Exposes [s] [] [] := by
  intro s' hs'
  have hne : s' ≠ s := by
    rintro rfl
    rw [hs] at hs'
    cases hs'
  simp [hne]

/-- It does not matter where a text stands and how often. -/
theorem congr (h : Exposes texts keys patterns) (htexts : ∀ s, s ∈ texts' ↔ s ∈ texts) :
    Exposes texts' keys patterns := by
  intro s hs
  rw [htexts, h s hs]

end Exposes

section Literals

def hasScope : Bson → Bool
  | .codeWithScope _ _ => true
  | _ => false

/-- Marking a literal takes all its texts out, and one that is no path need not be marked. -/
theorem quote_exposes {b : Bson} (hscope : hasScope b = false) :
    Exposes (evaluated (quote b)) [] [] := by
  cases b with
  | string s =>
    rw [quote]
    split
    · rw [evaluated_literal]
      exact .nil
    · next hs => exact .plain (decide_eq_false hs)
  | array items =>
    rw [quote, evaluated_literal]
    exact .nil
  | document fields =>
    rw [quote, evaluated_literal]
    exact .nil
  | codeWithScope source scope => cases hscope
  | _ => exact .nil

theorem hasScope_ofUInt64 (n : UInt64) : hasScope (Bson.ofUInt64 n) = false := by
  rw [Bson.ofUInt64]
  cases Value.int64? n.toNat <;> rfl

theorem hasScope_ofStamp (s : Calendar.Stamp) : hasScope (Bson.ofStamp s) = false := by
  rw [Bson.ofStamp]
  split <;> rfl

theorem hasScope_ofJson (json : Json) : hasScope (Bson.ofJson json) = false := by
  cases json with
  | integer i =>
    rw [Bson.ofJson]
    split
    · rfl
    · exact hasScope_ofUInt64 _
  | _ => rfl

theorem hasScope_ofPayload {p : Payload} {b : Bson} (h : Bson.ofPayload p = .ok b) :
    hasScope b = false := by
  unfold Bson.ofPayload at h
  split at h
  · split at h
    · next read hread =>
      cases h
      simp only [Bson.ofBytes?, Option.bind_eq_bind, Option.bind_eq_some_iff, pure,
        Option.some.injEq] at hread
      obtain ⟨-, -, fields, -, rfl⟩ := hread
      rfl
    · cases h
  · split at h
    · cases h
      exact hasScope_ofJson _
    · cases h
  · cases h
    rfl
  · cases h
    rfl

theorem hasScope_ofValue {v : Value} {b : Bson} (h : Bson.ofValue v = .ok b) :
    hasScope b = false := by
  cases v with
  | uint n =>
    rw [Bson.ofValue, Except.ok.injEq] at h
    rw [← h, hasScope_ofUInt64]
  | date s =>
    rw [Bson.ofValue, Except.ok.injEq] at h
    rw [← h, hasScope_ofStamp]
  | array items =>
    rw [Bson.ofValue, Except.map_eq_ok] at h
    obtain ⟨_, -, rfl⟩ := h
    rfl
  | map entries =>
    rw [Bson.ofValue, Except.map_eq_ok] at h
    obtain ⟨_, -, rfl⟩ := h
    rfl
  | payload p => exact hasScope_ofPayload h
  | _ =>
    cases h
    rfl

theorem hasScope_literal {v : Value} {withPrimary : Bool} {b : Bson}
    (h : literal v withPrimary = .ok b) : hasScope b = false := by
  cases withPrimary with
  | false => exact hasScope_ofValue h
  | true =>
    change Bson.ofKeyLiteral v = .ok b at h
    unfold Bson.ofKeyLiteral at h
    split at h
    · cases h
      rfl
    · exact hasScope_ofValue h

theorem operand_exposes {withPrimary : Bool} {o : Operand} {b : Bson}
    (h : operand withPrimary o = .ok b) : Exposes (evaluated b) o.keys [] := by
  cases o with
  | key k =>
    cases h
    exact .key k
  | literal v =>
    rw [operand, Except.map_eq_ok] at h
    obtain ⟨b, hb, rfl⟩ := h
    exact quote_exposes (hasScope_literal hb)

theorem literals_exposes {values : List Value} {withPrimary : Bool} {items : List Bson}
    (h : (values.mapM fun v => literal v withPrimary) = .ok items) :
    Exposes (evaluatedItems (items.map quote)) [] [] := by
  induction values generalizing items with
  | nil =>
    cases h
    exact .nil
  | cons v rest ih =>
    simp only [List.mapM_cons, Except.bind_eq_ok, pure, Except.pure, Except.ok.injEq] at h
    obtain ⟨b, hb, bs, hbs, rfl⟩ := h
    exact (quote_exposes (hasScope_literal hb)).append (ih hbs)

theorem haystack_exposes {left right : Operand} {container : Bson}
    (h : haystack left right = .ok container) : Exposes (evaluated container) right.keys [] := by
  unfold haystack at h
  split at h
  · simp only [Except.bind_eq_ok, pure, Except.pure, Except.ok.injEq] at h
    obtain ⟨items, hitems, rfl⟩ := h
    rw [listed] at hitems
    split at hitems
    · cases hitems
    · exact literals_exposes hitems
  · cases h
  · cases h
    exact .key _

end Literals

section Tests

theorem evaluated_negatedIf (negated : Bool) (e : Bson) :
    evaluated (negatedIf negated e) = evaluated e := by
  cases negated with
  | false => rfl
  | true =>
    rw [negatedIf, if_pos rfl, evaluated_single (by decide)]
    simp [evaluated, evaluatedItems]

theorem evaluated_pair {name : String} (hname : name ≠ "$literal") (l r : Bson) :
    evaluated (single name (.array [l, r])) = evaluated l ++ evaluated r := by
  rw [evaluated_single hname]
  simp [evaluated, evaluatedItems]

theorem operatorName_ne_literal (op : Comparison) : operatorName op ≠ "$literal" := by
  cases op <;> decide

theorem comparisonExpression_exposes {left right : Operand} {op : Comparison} {e : Bson}
    (h : comparisonExpression left op right = .ok e) :
    Exposes (evaluated e) (left.keys ++ right.keys) [] := by
  unfold comparisonExpression at h
  split at h
  · cases h
  · simp only [Except.bind_eq_ok, pure, Except.pure, Except.ok.injEq] at h
    obtain ⟨l, hl, r, hr, rfl⟩ := h
    rw [evaluated_pair (operatorName_ne_literal op)]
    exact (operand_exposes hl).append (operand_exposes hr)

theorem membershipExpression_exposes {left right : Operand} {negated : Bool} {e : Bson}
    (h : membershipExpression left right negated = .ok e) :
    Exposes (evaluated e) (left.keys ++ right.keys) [] := by
  simp only [membershipExpression, Except.bind_eq_ok, pure, Except.pure, Except.ok.injEq] at h
  obtain ⟨container, hcontainer, element, helement, rfl⟩ := h
  rw [evaluated_negatedIf, evaluated_pair (by decide)]
  exact (operand_exposes helement).append (haystack_exposes hcontainer)

theorem rangeExpression_exposes {subject low high : Operand} {exclusive negated : Bool} {e : Bson}
    (h : rangeExpression subject low high exclusive negated = .ok e) :
    Exposes (evaluated e) (subject.keys ++ low.keys ++ high.keys) [] := by
  simp only [rangeExpression, Except.bind_eq_ok, pure, Except.pure, Except.ok.injEq] at h
  obtain ⟨s, hs, l, hl, h', hh, rfl⟩ := h
  have hname : (if exclusive then "$lt" else "$lte") ≠ "$literal" := by
    cases exclusive <;> decide
  rw [evaluated_negatedIf, evaluated_pair (by decide), evaluated_pair (by decide),
    evaluated_pair hname]
  -- The subject is written twice.
  apply (((operand_exposes hs).append (operand_exposes hl)).append (operand_exposes hh)).congr
  intro text
  simp only [List.mem_append]
  grind

theorem isOperator_letters (o : PatternOptions) : isOperator (String.ofList o.letters) = false := by
  obtain ⟨i, m, s, u, x⟩ := o
  simp only [isOperator, PatternOptions.letters, String.toList_ofList]
  cases i <;> cases m <;> cases s <;> cases u <;> cases x <;> rfl

theorem options_exposes (test : Pattern) (name : String) (hname : name ≠ "$literal") :
    Exposes (evaluatedFields ((test.optionField name).map fun (name, text) =>
      (name, Bson.string text))) [] [] := by
  rw [Pattern.optionField]
  split
  · exact .nil
  · simpa [evaluatedFields, evaluated, hname] using Exposes.plain (isOperator_letters test.options)

theorem patternExpression_exposes {subject : Operand} {test : Pattern} {negated : Bool} {e : Bson}
    (h : patternExpression subject test negated = .ok e) :
    Exposes (evaluated e) subject.keys [test] := by
  simp only [patternExpression, Except.bind_eq_ok, pure, Except.pure, Except.ok.injEq] at h
  obtain ⟨input, hinput, rfl⟩ := h
  rw [evaluated_negatedIf, evaluated_single (by decide)]
  have hfields := (operand_exposes hinput).append
    ((Exposes.pattern test).append (options_exposes test "options" (by decide)))
  simpa [evaluated, evaluatedFields] using hfields

end Tests

section Conditions

theorem evaluated_join (c : Connective) (terms : List Bson) :
    evaluated (single (connectiveName c) (.array terms)) = evaluatedItems terms := by
  rw [evaluated_single (by cases c <;> decide), evaluated]

mutual

theorem expressionOf_exposes : ∀ (p : Condition) (e : Bson), expressionOf p = .ok e →
    Exposes (evaluated e) p.keys (patterns p)
  | .compare _ _ _, _, h => comparisonExpression_exposes h
  | .member _ _ _, _, h => membershipExpression_exposes h
  | .between _ _ _ _ _, _, h => rangeExpression_exposes h
  | .pattern _ _ _, _, h => patternExpression_exposes h
  | .not p, _, h => by
    rw [expressionOf, Except.map_eq_ok] at h
    obtain ⟨e, he, rfl⟩ := h
    rw [evaluated_negatedIf]
    exact expressionOf_exposes p e he
  | .join c items, _, h => by
    simp only [expressionOf, Except.bind_eq_ok] at h
    obtain ⟨terms, hterms, h⟩ := h
    have hitems := expressionsOf_exposes items terms hterms
    split at h
    · cases h
    · cases h
      rwa [evaluatedItems, evaluatedItems, List.append_nil] at hitems
    · cases h
      rw [evaluated_join]
      exact hitems
termination_by structural p => p

theorem expressionsOf_exposes : ∀ (items : List Condition) (terms : List Bson),
    expressionsOf items = .ok terms →
    Exposes (evaluatedItems terms) (Predicate.foldAll Predicate.keyFold items).flatten
      (Predicate.foldAll patternFold items).flatten
  | [], _, h => by
    cases h
    exact .nil
  | p :: rest, _, h => by
    simp only [expressionsOf, Except.bind_eq_ok, pure, Except.pure, Except.ok.injEq] at h
    obtain ⟨e, he, terms, hterms, rfl⟩ := h
    exact (expressionOf_exposes p e he).append (expressionsOf_exposes rest terms hterms)
termination_by structural items => items

end

end Conditions

/-- What is read as a path in an expression: the paths of the keys and the sources of the patterns,
and nothing that comes from a literal. -/
theorem paths_of_expression {p : Condition} {e : Bson} (h : expression p = .ok e) {s : String}
    (hs : isOperator s = true) :
    s ∈ evaluated e ↔ (∃ k ∈ p.keys, path k = .string s) ∨ ∃ t ∈ patterns p, t.source = s := by
  have hflat := expressionOf_exposes p.flat e h s hs
  rwa [Predicate.keys_flat, patterns_flat] at hflat

/-- A pattern whose source is the path of a field that the condition has no key for. -/
theorem paths_of_expression_pattern :
    let test : Pattern := ⟨.matching, "$b", {}⟩
    let p : Condition := .not (.join .and [.compare (.key (.named "a")) .eq (.literal (.string "$c")),
      .pattern (.key (.named "a")) test false])
    ∃ e, expression p = .ok e ∧ "$b" ∈ evaluated e := by
  intro test p
  refine ⟨_, rfl, ?_⟩
  apply (paths_of_expression (rfl : expression p = .ok _) (by decide)).mpr
  exact .inr ⟨test, List.mem_singleton_self test, rfl⟩

/-- Not all that is read as a path is the path of a key. -/
theorem pattern_read_as_path :
    ¬ ∀ (p : Condition) (e : Bson), expression p = .ok e → ∀ s ∈ evaluated e, isOperator s = true →
      ∃ k ∈ p.keys, path k = .string s := by
  intro hpaths
  let p : Condition := .pattern (.key (.named "a")) ⟨.matching, "$b", {}⟩ false
  obtain ⟨k, hk, hpath⟩ := hpaths p _ rfl "$b" (by decide) (by decide)
  obtain rfl : k = .named "a" := List.mem_singleton.mp hk
  simp [path, fieldName] at hpath

end Polystore.Document
