import Polystore.Proofs.Sql.Mentions
import Polystore.Proofs.Sql.Preservation

/-!
Conditions on rows whose primary key has known columns. Main statement: what is compiled asks for
the columns of the key in its place, compared as a tuple if there are several, and every other use
of such a key is refused.
-/

namespace Polystore.Sql

open Predicate

namespace Truth

theorem not_all (ts : List Truth) : (all ts).not = any (ts.map Truth.not) := by
  induction ts with
  | nil => rfl
  | cons t ts ih => rw [all, not_and, ih, List.map_cons, any]

end Truth

namespace Valuation

variable {D : Type}

/-- Equality of a column with a value. With null it asks whether the column is null, which is never
unknown. -/
def sameAs (v : Valuation D) (column : String) : Value → Truth
  | .null => v.nullTest (.key (.named column))
  | value => v.compare (.key (.named column)) .eq (.literal value)

theorem comparison_eq_literal (v : Valuation D) (column : String) (value : Value) :
    v.comparison (.key (.named column)) .eq (.literal value) = v.sameAs column value := by
  cases value <;> rfl

/-- An inequality is unknown where the equality is, and else its opposite. -/
theorem comparison_ne (v : Valuation D) (left right : Operand) :
    v.comparison left .ne right = (v.comparison left .eq right).not := by
  have hcompare : v.compare left .ne right = (v.compare left .eq right).not := by
    unfold compare
    split
    · next a b _ _ =>
      rw [holds, holds]
      cases v.same a b <;> rfl
    · rfl
  unfold comparison
  cases right.isNull with
  | true => rfl
  | false =>
    cases left.isNull with
    | true => rfl
    | false => exact hcompare

end Valuation

/-- Its only failures are those of an invalid expression. -/
def Refuses {α : Type} (x : Except Error α) : Prop :=
  ∀ e, x = .error e → ∃ cause, e = .invalidExpression cause

theorem refuses_ok {α : Type} (a : α) : Refuses (.ok a : Except Error α) := by
  rintro e ⟨⟩

theorem refuses_invalid {α : Type} (cause : ExpressionError) :
    Refuses (invalid cause : Except Error α) := by
  rintro e ⟨⟩
  exact ⟨cause, rfl⟩

theorem Refuses.bind {α β : Type} {x : Except Error α} {f : α → Except Error β} (hx : Refuses x)
    (hf : ∀ a, Refuses (f a)) : Refuses (x >>= f) := by
  intro e h
  cases x with
  | error e' =>
    cases h
    exact hx e rfl
  | ok a => exact hf a e h

namespace PrimaryKey

variable {k : PrimaryKey} {D : Type}

/-- The components of a value that a key of several columns is compared with, one for each column in
order: those of an array by position, those of a map by name, and null for all. -/
inductive Components (k : PrimaryKey) : Value → List Value → Prop where
  | position {items : List Value} : items.length = k.columns.length →
    Components k (.array items) items
  | name {entries : List (String × Value)} {values : List Value} :
    List.Forall₂ (fun column value => entries.lookup column = some value) k.columns values →
    Components k (.map entries) values
  | null : Components k .null (k.columns.map fun _ => .null)

theorem pick_eq_ok_iff {entries : List (String × Value)} {columns : List String}
    {values : List Value} : pick entries columns = .ok values ↔
      List.Forall₂ (fun column value => entries.lookup column = some value) columns values := by
  induction columns generalizing values with
  | nil =>
    rw [pick, List.forall₂_nil_left_iff, Except.ok.injEq, eq_comm]
  | cons column columns ih =>
    rw [pick, List.forall₂_cons_left_iff]
    cases entries.lookup column with
    | none =>
      constructor
      · intro h
        cases h
      · rintro ⟨v, rest, hv, -, -⟩
        cases hv
    | some w =>
      simp only [Except.bind_eq_ok, pure, Except.pure, Except.ok.injEq, ih]
      constructor
      · rintro ⟨rest, hrest, rfl⟩
        exact ⟨w, rest, rfl, hrest, rfl⟩
      · rintro ⟨v, rest, hv, hrest, rfl⟩
        cases hv
        exact ⟨rest, hrest, rfl⟩

theorem components_eq_ok_iff {w : Value} {values : List Value} :
    k.components w = .ok values ↔ Components k w values := by
  constructor
  · intro h
    unfold components at h
    split at h
    · split at h
      · next hlength =>
        cases h
        exact .position hlength
      · cases h
    · exact .name (pick_eq_ok_iff.mp h)
    · cases h
      exact .null
    · cases h
  · intro h
    cases h with
    | position hlength => exact if_pos hlength
    | name hvalues => exact pick_eq_ok_iff.mpr hvalues
    | null => rfl

/-- The value on the one side of a comparison that has the key on the other. -/
def against : Operand → Operand → Option Value
  | .key .primary, .literal w => some w
  | .literal w, .key .primary => some w
  | _, _ => none

theorem against_eq_some {left right : Operand} {w : Value} (h : against left right = some w) :
    left = .key .primary ∧ right = .literal w ∨ left = .literal w ∧ right = .key .primary := by
  unfold against at h
  split at h
  · cases h
    exact .inl ⟨rfl, rfl⟩
  · cases h
    exact .inr ⟨rfl, rfl⟩
  · cases h

/-- Is the tuple of the key's columns equal to a value? -/
def equal (k : PrimaryKey) (v : Valuation D) (w : Value) : Truth :=
  match k.components w with
  | .ok values => .all (k.columns.zipWith v.sameAs values)
  | .error _ => .unknown

/-- What stands for an operand if the key has one column. -/
def column (k : PrimaryKey) : Operand → Operand
  | .key .primary => .key (.named k.first)
  | o => o

/-- What a comparison comes to on rows with the columns of the key. -/
def comparisonMeaning (k : PrimaryKey) (v : Valuation D) (left : Operand) (op : Comparison)
    (right : Operand) : Truth :=
  match k.isComposite, against left right with
  | true, some w => .negatedIf (op = .ne) (k.equal v w)
  | _, _ => v.comparison (k.column left) op (k.column right)

/-- What a condition comes to, test by test, on rows with the columns of the key. -/
def meaningFold (k : PrimaryKey) (v : Valuation D) : Predicate.Fold Operand Truth where
  compare := k.comparisonMeaning v
  member left right negated :=
    .negatedIf negated (v.membership (k.column left) (k.column right))
  between subject low high exclusive negated :=
    .negatedIf negated (v.range (k.column subject) (k.column low) (k.column high) exclusive)
  pattern subject test negated := .negatedIf negated (v.like (k.column subject) (k.column test))
  not := Truth.not
  join := Valuation.joined

def meaning (k : PrimaryKey) (v : Valuation D) (p : Condition) : Truth :=
  p.fold (k.meaningFold v)

/-! ### What resolving does to a test -/

theorem column_of_ne {o : Operand} (h : o ≠ .key .primary) : k.column o = o := by
  unfold column
  split
  · exact absurd rfl h
  · rfl

/-- A key of several columns is no operand by itself. -/
theorem eq_column_of_rename {o r : Operand} (h : k.rename o = .ok r) :
    (k.isComposite = true → o ≠ .key .primary) ∧ r = k.column o := by
  unfold rename at h
  split at h
  · split at h
    · cases h
    · next hk =>
      cases h
      exact ⟨fun hcomposite => absurd hcomposite hk, rfl⟩
  · next hne =>
    cases h
    exact ⟨fun _ => hne, (column_of_ne hne).symm⟩

/-- One comparison for each column. -/
def terms (k : PrimaryKey) (op : Comparison) (values : List Value) : List Condition :=
  k.columns.zipWith (fun column value => .compare (.key (.named column)) op (.literal value)) values

theorem expand_eq_ok {op : Comparison} {w : Value} {q : Condition} (h : k.expand op w = .ok q) :
    op.isEquality = true ∧ ∃ values, Components k w values ∧
      q = .join (if op = .eq then .and else .or) (k.terms op values) := by
  unfold expand at h
  split at h
  · next hop =>
    simp only [Except.bind_eq_ok, components_eq_ok_iff, pure, Except.pure, Except.ok.injEq] at h
    obtain ⟨values, hvalues, rfl⟩ := h
    exact ⟨hop, values, hvalues, rfl⟩
  · cases h

/-- A comparison that is resolved has a key of several columns on one side and a literal on the
other, or it has no such key. -/
theorem comparison_eq_ok {left right : Operand} {op : Comparison} {q : Condition}
    (h : k.comparison left op right = .ok q) :
    (∃ w, k.isComposite = true ∧ against left right = some w ∧ k.expand op w = .ok q) ∨
      (k.isComposite = true → left ≠ .key .primary ∧ right ≠ .key .primary) ∧
        q = .compare (k.column left) op (k.column right) := by
  unfold comparison at h
  split at h
  · next hk =>
    split at h
    · next w => exact .inl ⟨w, hk, rfl, h⟩
    · next w => exact .inl ⟨w, hk, rfl, h⟩
    · cases h
    · cases h
    · next hleft hright _ _ =>
      cases h
      refine .inr ⟨fun _ => ⟨hleft, hright⟩, ?_⟩
      rw [column_of_ne hleft, column_of_ne hright]
  · next hk =>
    simp only [Except.bind_eq_ok, pure, Except.pure, Except.ok.injEq] at h
    obtain ⟨l, hl, r, hr, rfl⟩ := h
    rw [(eq_column_of_rename hl).2, (eq_column_of_rename hr).2]
    exact .inr ⟨fun hcomposite => absurd hcomposite hk, rfl⟩

/-- A test with the column of a key in its place. -/
def inColumns (k : PrimaryKey) : Condition → Condition
  | .compare left op right => .compare (k.column left) op (k.column right)
  | .member left right negated => .member (k.column left) (k.column right) negated
  | .between subject low high exclusive negated =>
    .between (k.column subject) (k.column low) (k.column high) exclusive negated
  | .pattern subject test negated => .pattern (k.column subject) (k.column test) negated
  | p => p

/-- A test that is resolved compares a key of several columns with a literal, or it has no such
key. -/
theorem resolve_test {t q : Condition} (ht : t.isTest = true) (h : k.resolve t = .ok q) :
    (∃ left op right w, t = .compare left op right ∧ k.isComposite = true ∧
      against left right = some w ∧ k.expand op w = .ok q) ∨
      (k.isComposite = true → .key .primary ∉ testOperands t) ∧ q = k.inColumns t := by
  cases t with
  | not p => cases ht
  | join c items => cases ht
  | compare left op right =>
    obtain ⟨w, hk, hagainst, hexpand⟩ | ⟨hprimary, rfl⟩ := comparison_eq_ok h
    · exact .inl ⟨left, op, right, w, rfl, hk, hagainst, hexpand⟩
    · refine .inr ⟨fun hk => ?_, rfl⟩
      simpa [testOperands, operands, eq_comm] using hprimary hk
  | member left right negated =>
    simp only [resolve, Except.bind_eq_ok, pure, Except.pure, Except.ok.injEq] at h
    obtain ⟨l, hl, r, hr, rfl⟩ := h
    obtain ⟨hleft, rfl⟩ := eq_column_of_rename hl
    obtain ⟨hright, rfl⟩ := eq_column_of_rename hr
    refine .inr ⟨fun hk => ?_, rfl⟩
    simpa [testOperands, operands, eq_comm] using And.intro (hleft hk) (hright hk)
  | between subject low high exclusive negated =>
    simp only [resolve, Except.bind_eq_ok, pure, Except.pure, Except.ok.injEq] at h
    obtain ⟨s, hs, l, hl, u, hu, rfl⟩ := h
    obtain ⟨hsubject, rfl⟩ := eq_column_of_rename hs
    obtain ⟨hlow, rfl⟩ := eq_column_of_rename hl
    obtain ⟨hhigh, rfl⟩ := eq_column_of_rename hu
    refine .inr ⟨fun hk => ?_, rfl⟩
    simpa [testOperands, operands, eq_comm] using
      And.intro (hsubject hk) (And.intro (hlow hk) (hhigh hk))
  | pattern subject test negated =>
    simp only [resolve, Except.bind_eq_ok, pure, Except.pure, Except.ok.injEq] at h
    obtain ⟨s, hs, u, hu, rfl⟩ := h
    obtain ⟨hsubject, rfl⟩ := eq_column_of_rename hs
    obtain ⟨htest, rfl⟩ := eq_column_of_rename hu
    refine .inr ⟨fun hk => ?_, rfl⟩
    simpa [testOperands, operands, eq_comm] using And.intro (hsubject hk) (htest hk)

/-! ### From tests to conditions -/

/-- A relation between what two folds make of a condition and of the condition it is resolved to. -/
structure Carries {A B : Type} (k : PrimaryKey) (f : Fold Operand A) (g : Fold Operand B)
    (R : A → B → Prop) : Prop where
  test {t q : Condition} : t.isTest = true → k.resolve t = .ok q → R (t.fold f) (q.fold g)
  not {a : A} {b : B} : R a b → R (f.not a) (g.not b)
  join {c : Connective} {as : List A} {bs : List B} :
    List.Forall₂ R as bs → R (f.join c as) (g.join c bs)

variable {A B : Type} {f : Fold Operand A} {g : Fold Operand B} {R : A → B → Prop}

mutual

theorem Carries.fold (h : Carries k f g R) : ∀ {p q : Condition}, k.resolve p = .ok q →
    R (p.fold f) (q.fold g)
  | .compare _ _ _, _, hq => h.test rfl hq
  | .member _ _ _, _, hq => h.test rfl hq
  | .between _ _ _ _ _, _, hq => h.test rfl hq
  | .pattern _ _ _, _, hq => h.test rfl hq
  | .not p, _, hq => by
    simp only [resolve, Except.bind_eq_ok, pure, Except.pure, Except.ok.injEq] at hq
    obtain ⟨q, hp, rfl⟩ := hq
    exact h.not (h.fold hp)
  | .join c items, _, hq => by
    simp only [resolve, Except.bind_eq_ok, pure, Except.pure, Except.ok.injEq] at hq
    obtain ⟨others, hitems, rfl⟩ := hq
    exact h.join (h.foldAll hitems)
termination_by structural p => p

theorem Carries.foldAll (h : Carries k f g R) : ∀ {items others : List Condition},
    k.resolveAll items = .ok others →
      List.Forall₂ R (Predicate.foldAll f items) (Predicate.foldAll g others)
  | [], _, hq => by
    cases hq
    exact .nil
  | p :: rest, _, hq => by
    simp only [resolveAll, Except.bind_eq_ok, pure, Except.pure, Except.ok.injEq] at hq
    obtain ⟨q, hp, qs, hrest, rfl⟩ := hq
    exact .cons (h.fold hp) (h.foldAll hrest)
termination_by structural items => items

end

/-! ### Meaning -/

theorem equal_of_components {w : Value} {values : List Value} (h : Components k w values)
    (v : Valuation D) : k.equal v w = .all (k.columns.zipWith v.sameAs values) := by
  rw [equal, components_eq_ok_iff.mpr h]

theorem meanings_terms (v : Valuation D) (op : Comparison) (columns : List String)
    (values : List Value) :
    v.meanings (columns.zipWith
      (fun column value => .compare (.key (.named column)) op (.literal value)) values) =
        columns.zipWith
          (fun column value => v.comparison (.key (.named column)) op (.literal value)) values := by
  induction columns generalizing values with
  | nil => rfl
  | cons column columns ih =>
    cases values with
    | nil => rfl
    | cons value values =>
      rw [List.zipWith_cons_cons, List.zipWith_cons_cons, Valuation.meanings, ih]
      rfl

/-- One inequality among the columns makes the tuple unequal, and nothing else does. -/
theorem meaning_expand (v : Valuation D) {op : Comparison} {w : Value} {q : Condition}
    (h : k.expand op w = .ok q) : v.meaning q = .negatedIf (op = .ne) (k.equal v w) := by
  obtain ⟨hop, values, hvalues, rfl⟩ := expand_eq_ok h
  have heq : k.columns.zipWith
      (fun column value => v.comparison (.key (.named column)) .eq (.literal value)) values =
        k.columns.zipWith v.sameAs values := by
    simp only [v.comparison_eq_literal]
  rw [equal_of_components hvalues, Valuation.meaning, terms, meanings_terms]
  cases op with
  | eq => exact congrArg Truth.all heq
  | ne =>
    have hne : k.columns.zipWith
        (fun column value => v.comparison (.key (.named column)) .ne (.literal value)) values =
          (k.columns.zipWith v.sameAs values).map Truth.not := by
      simp only [v.comparison_ne, v.comparison_eq_literal, List.map_zipWith]
    exact (congrArg Truth.any hne).trans (Truth.not_all _).symm
  | lt => cases hop
  | gt => cases hop
  | le => cases hop
  | ge => cases hop

theorem comparisonMeaning_of_against (hk : k.isComposite = true) (v : Valuation D)
    {left right : Operand} {w : Value} (h : against left right = some w) {values : List Value}
    (hvalues : Components k w values) :
    k.comparisonMeaning v left .eq right = .all (k.columns.zipWith v.sameAs values) := by
  rw [comparisonMeaning, hk, h]
  exact equal_of_components hvalues v

theorem comparisonMeaning_of_single (hk : k.isComposite = false) (v : Valuation D)
    (left right : Operand) (op : Comparison) :
    k.comparisonMeaning v left op right = v.comparison (k.column left) op (k.column right) := by
  rw [comparisonMeaning, hk]

theorem comparisonMeaning_ne (k : PrimaryKey) (v : Valuation D) (left right : Operand) :
    k.comparisonMeaning v left .ne right = (k.comparisonMeaning v left .eq right).not := by
  unfold comparisonMeaning
  split
  · rfl
  · exact v.comparison_ne _ _

/-- Where no key of several columns is compared with a literal, a test is about columns. -/
theorem meaning_inColumns (v : Valuation D) {t : Condition} (ht : t.isTest = true)
    (hprimary : k.isComposite = true → .key .primary ∉ testOperands t) :
    v.meaning (k.inColumns t) = k.meaning v t := by
  cases t with
  | not p => cases ht
  | join c items => cases ht
  | compare left op right =>
    show _ = k.comparisonMeaning v left op right
    unfold comparisonMeaning
    split
    · next w hk hagainst =>
      refine absurd ?_ (hprimary hk)
      obtain ⟨rfl, -⟩ | ⟨-, rfl⟩ := against_eq_some hagainst
      · exact List.mem_cons_self
      · exact List.mem_cons_of_mem _ List.mem_cons_self
    · rfl
  | member left right negated => rfl
  | between subject low high exclusive negated => rfl
  | pattern subject test negated => rfl

theorem carries_meaning (k : PrimaryKey) (v : Valuation D) :
    Carries k (k.meaningFold v) v.meaningFold Eq where
  test := by
    intro t q ht h
    rw [v.fold_eq_meaning]
    obtain ⟨left, op, right, w, rfl, hk, hagainst, hexpand⟩ | ⟨hprimary, rfl⟩ := resolve_test ht h
    · rw [meaning_expand v hexpand]
      show k.comparisonMeaning v left op right = _
      rw [comparisonMeaning, hk, hagainst]
    · exact (meaning_inColumns v ht hprimary).symm
  not h := congrArg Truth.not h
  join := by
    intro c as bs h
    rw [List.forall₂_eq_eq_eq] at h
    rw [h]
    rfl

theorem meaning_resolve (v : Valuation D) {p q : Condition} (h : k.resolve p = .ok q) :
    v.meaning q = k.meaning v p := by
  rw [← v.fold_eq_meaning]
  exact ((carries_meaning k v).fold h).symm

/-! ### Columns -/

theorem within_column {t : Condition} {known : List String} (h : ∀ n ∈ testColumns t, n ∈ known)
    {o : Operand} (ho : o ∈ testOperands t) : (k.column o).Within (known ++ k.columns) := by
  cases o with
  | literal v => trivial
  | key c =>
    cases c with
    | named n => exact List.mem_append_left _ (h n (List.mem_filterMap.mpr ⟨_, ho, rfl⟩))
    | primary => exact List.mem_append_right _ List.mem_cons_self

theorem testOperands_inColumns (t : Condition) :
    testOperands (k.inColumns t) = (testOperands t).map k.column := by
  cases t <;> rfl

theorem hasColumns_terms (op : Comparison) (c : Connective) (values : List Value)
    (known : List String) : HasColumns (known ++ k.columns) (.join c (k.terms op values)) := by
  refine hasColumns_join fun p hp => ?_
  rw [terms, ← List.map_uncurry_zip_eq_zipWith] at hp
  obtain ⟨⟨column, value⟩, hpair, rfl⟩ := List.mem_map.mp hp
  refine List.forall_mem_singleton.mpr ?_
  refine List.forall_mem_cons.mpr ⟨List.mem_append_right _ (List.of_mem_zip hpair).1, ?_⟩
  exact List.forall_mem_singleton.mpr trivial

/-- Every column of a resolved condition is one of the condition or of the key. -/
theorem carries_columns (k : PrimaryKey) (known : List String) :
    Carries k testFold testFold fun ts us : List Condition =>
      (∀ t ∈ ts, ∀ n ∈ testColumns t, n ∈ known) →
        ∀ u ∈ us, ∀ o ∈ testOperands u, o.Within (known ++ k.columns) where
  test := by
    intro t q ht h hknown
    have hself : t.fold testFold = [t] := tests_of_isTest ht
    rw [hself, List.forall_mem_singleton] at hknown
    obtain ⟨left, op, right, w, rfl, hk, hagainst, hexpand⟩ | ⟨-, rfl⟩ := resolve_test ht h
    · obtain ⟨-, values, -, rfl⟩ := expand_eq_ok hexpand
      exact hasColumns_terms op _ values known
    · have hisTest : (k.inColumns t).isTest = true := by
        cases t with
        | not p => cases ht
        | join c items => cases ht
        | _ => rfl
      have hcolumns : (k.inColumns t).fold testFold = [k.inColumns t] := tests_of_isTest hisTest
      rw [hcolumns, List.forall_mem_singleton, testOperands_inColumns, List.forall_mem_map]
      exact fun o ho => within_column hknown ho
  not h := h
  join := by
    intro c as bs h
    induction h with
    | nil => exact fun _ u hu => absurd hu List.not_mem_nil
    | cons hab _ ih =>
      intro hknown
      obtain ⟨ha, has⟩ := List.forall_mem_append.mp hknown
      exact List.forall_mem_append.mpr ⟨hab ha, ih has⟩

theorem hasColumns_resolve {p q : Condition} (h : k.resolve p = .ok q) :
    HasColumns (columnsNamed p ++ k.columns) q :=
  (carries_columns k (columnsNamed p)).fold h fun t ht _ hn => List.mem_flatMap.mpr ⟨t, ht, hn⟩

/-! ### What is refused -/

/-- A comparison of a key of several columns with a value for each of them. -/
def IsTupleTest (k : PrimaryKey) (t : Condition) : Prop :=
  ∃ op w values, op.isEquality = true ∧ Components k w values ∧
    (t = .compare (.key .primary) op (.literal w) ∨ t = .compare (.literal w) op (.key .primary))

/-- A test of a key of several columns that is no comparison of that kind. -/
def Misuses (k : PrimaryKey) (t : Condition) : Prop :=
  k.isComposite = true ∧ .key .primary ∈ testOperands t ∧ ¬ k.IsTupleTest t

theorem not_misuses_of_resolve {t q : Condition} (ht : t.isTest = true)
    (h : k.resolve t = .ok q) : ¬ k.Misuses t := by
  rintro ⟨hk, hprimary, hother⟩
  obtain ⟨left, op, right, w, rfl, -, hagainst, hexpand⟩ | ⟨hnone, -⟩ := resolve_test ht h
  · obtain ⟨hop, values, hvalues, -⟩ := expand_eq_ok hexpand
    refine hother ⟨op, w, values, hop, hvalues, ?_⟩
    obtain ⟨rfl, rfl⟩ | ⟨rfl, rfl⟩ := against_eq_some hagainst
    · exact .inl rfl
    · exact .inr rfl
  · exact hnone hk hprimary

theorem carries_tests (k : PrimaryKey) :
    Carries k testFold testFold fun ts (_ : List Condition) => ∀ t ∈ ts, ¬ k.Misuses t where
  test := by
    intro t q ht h
    have hself : t.fold testFold = [t] := tests_of_isTest ht
    rw [hself, List.forall_mem_singleton]
    exact not_misuses_of_resolve ht h
  not h := h
  join := by
    intro c as bs h
    induction h with
    | nil => exact fun t ht => absurd ht List.not_mem_nil
    | cons hab _ ih => exact List.forall_mem_append.mpr ⟨hab, ih⟩

theorem refuses_rename (o : Operand) : Refuses (k.rename o) := by
  unfold rename
  split
  · split
    · exact refuses_invalid _
    · exact refuses_ok _
  · exact refuses_ok _

theorem refuses_pick (entries : List (String × Value)) (columns : List String) :
    Refuses (pick entries columns) := by
  induction columns with
  | nil => exact refuses_ok _
  | cons column columns ih =>
    rw [pick]
    split
    · exact refuses_invalid _
    · exact ih.bind fun _ => refuses_ok _

theorem refuses_components (w : Value) : Refuses (k.components w) := by
  unfold components
  split
  · split
    · exact refuses_ok _
    · exact refuses_invalid _
  · exact refuses_pick _ _
  · exact refuses_ok _
  · exact refuses_invalid _

theorem refuses_expand (op : Comparison) (w : Value) : Refuses (k.expand op w) := by
  unfold expand
  split
  · exact (refuses_components w).bind fun _ => refuses_ok _
  · exact refuses_invalid _

theorem refuses_comparison (left : Operand) (op : Comparison) (right : Operand) :
    Refuses (k.comparison left op right) := by
  unfold comparison
  split
  · split
    · exact refuses_expand op _
    · exact refuses_expand op _
    · exact refuses_invalid _
    · exact refuses_invalid _
    · exact refuses_ok _
  · exact (refuses_rename left).bind fun _ => (refuses_rename right).bind fun _ => refuses_ok _

mutual

theorem refuses_resolve : ∀ p : Condition, Refuses (k.resolve p)
  | .compare left op right => refuses_comparison left op right
  | .member left right _ =>
    (refuses_rename left).bind fun _ => (refuses_rename right).bind fun _ => refuses_ok _
  | .between subject low high _ _ =>
    (refuses_rename subject).bind fun _ => (refuses_rename low).bind fun _ =>
      (refuses_rename high).bind fun _ => refuses_ok _
  | .pattern subject test _ =>
    (refuses_rename subject).bind fun _ => (refuses_rename test).bind fun _ => refuses_ok _
  | .not p => (refuses_resolve p).bind fun _ => refuses_ok _
  | .join _ items => (refuses_resolveAll items).bind fun _ => refuses_ok _
termination_by structural p => p

theorem refuses_resolveAll : ∀ items : List Condition, Refuses (k.resolveAll items)
  | [] => refuses_ok _
  | p :: rest =>
    (refuses_resolve p).bind fun _ => (refuses_resolveAll rest).bind fun _ => refuses_ok _
termination_by structural items => items

end

theorem resolve_of_misuse {p t : Condition} (ht : t ∈ p.tests) (h : k.Misuses t) :
    ∃ cause, k.resolve p = .error (.invalidExpression cause) := by
  obtain ⟨e, he⟩ := Except.exists_error_of_ne_ok fun q hq => (carries_tests k).fold hq t ht h
  obtain ⟨cause, rfl⟩ := refuses_resolve p e he
  exact ⟨cause, he⟩

end PrimaryKey

/-! ### Compiled conditions -/

theorem exists_expression_of_compile {d : Dialect} {p : Condition} {f : Fragment}
    (h : compile d p = .ok f) : ∃ e, Expression.ofPieces? d f.pieces = some e ∧
      ∀ {D : Type} (v : Valuation D), v.truth e = v.meaning p := by
  rw [compile, Except.bind_eq_ok] at h
  obtain ⟨ps, hps, h⟩ := h
  cases h
  obtain ⟨s, hwords, htruth, -⟩ := pieces_spells p.flat ps (isFlat_flat p) hps
  refine ⟨s.expression, ?_, fun v => ?_⟩
  · rw [Expression.ofPieces?, hwords]
    exact s.ofWords?_words
  · rw [s.truth_expression, htruth v, v.meaning_flat]

/-- What is compiled with the columns of a key mentions those and the columns of the condition only,
and has on every row the truth of the condition, where the key is compared with a value column by
column: equality asks for all of them, with null for null, and inequality is its opposite. A key of
one column is that column; of several columns every other use is refused. -/
theorem compileWithKey_tuples (d : Dialect) (k : PrimaryKey) (p : Condition) :
    (∀ f, compileWithKey d k p = .ok f →
      Mentions d (columnsNamed p ++ k.columns) f.pieces ∧
      ∃ e, Expression.ofPieces? d f.pieces = some e ∧
        ∀ {D : Type} (v : Valuation D), v.truth e = k.meaning v p) ∧
    (∀ {D : Type} (v : Valuation D),
      (k.isComposite = true → ∀ w values, PrimaryKey.Components k w values →
        k.meaning v (.compare (.key .primary) .eq (.literal w)) =
            .all (k.columns.zipWith v.sameAs values) ∧
          k.meaning v (.compare (.literal w) .eq (.key .primary)) =
            .all (k.columns.zipWith v.sameAs values)) ∧
      (k.isComposite = false → ∀ o,
        k.meaning v (.compare (.key .primary) .eq o) =
            v.comparison (.key (.named k.first)) .eq (k.column o) ∧
          k.meaning v (.compare o .eq (.key .primary)) =
            v.comparison (k.column o) .eq (.key (.named k.first))) ∧
      ∀ left right, k.meaning v (.compare left .ne right) =
        (k.meaning v (.compare left .eq right)).not) ∧
    ((∃ t ∈ p.tests, k.Misuses t) →
      ∃ cause, compileWithKey d k p = .error (.invalidExpression cause)) := by
  refine ⟨?_, ?_, ?_⟩
  · intro f h
    rw [compileWithKey, Except.bind_eq_ok] at h
    obtain ⟨q, hq, h⟩ := h
    obtain ⟨e, he, htruth⟩ := exists_expression_of_compile h
    refine ⟨mentions_compile h (PrimaryKey.hasColumns_resolve hq), e, he, fun v => ?_⟩
    rw [htruth v, PrimaryKey.meaning_resolve v hq]
  · intro D v
    refine ⟨?_, ?_, PrimaryKey.comparisonMeaning_ne k v⟩
    · intro hk w values hvalues
      constructor
      · exact PrimaryKey.comparisonMeaning_of_against hk v rfl hvalues
      · exact PrimaryKey.comparisonMeaning_of_against hk v rfl hvalues
    · intro hk o
      constructor
      · exact PrimaryKey.comparisonMeaning_of_single hk v _ o .eq
      · exact PrimaryKey.comparisonMeaning_of_single hk v o _ .eq
  · rintro ⟨t, ht, hmisuse⟩
    obtain ⟨cause, hcause⟩ := PrimaryKey.resolve_of_misuse ht hmisuse
    exact ⟨cause, by rw [compileWithKey, hcause]; rfl⟩

/-- A key of two columns that is unequal to a map with a null, inside a conjunction. -/
theorem compileWithKey_tuples_map :
    let k : PrimaryKey := ⟨"tenant", ["id"]⟩
    let w : Value := .map [("id", .null), ("tenant", .bool true)]
    let p : Condition := .join .and [.compare (.key (.named "x")) .eq (.literal (.bool true)),
      .compare (.literal w) .ne (.key .primary)]
    (∃ f, compileWithKey .postgres k p = .ok f ∧
      Mentions .postgres ["x", "tenant", "id"] f.pieces) ∧
    PrimaryKey.Components k w [.bool true, .null] ∧
    ∃ cause, compileWithKey .postgres k (.not (.compare (.key .primary) .lt (.literal w))) =
      .error (.invalidExpression cause) := by
  intro k w p
  obtain ⟨f, hf⟩ : ∃ f, compileWithKey .postgres k p = .ok f := ⟨_, rfl⟩
  obtain ⟨hmentions, -⟩ := (compileWithKey_tuples .postgres k p).1 f hf
  refine ⟨⟨f, hf, hmentions⟩, .name (.cons rfl (.cons rfl .nil)), ?_⟩
  refine (compileWithKey_tuples .postgres k _).2.2 ⟨_, List.mem_cons_self, rfl, ?_, ?_⟩
  · exact List.mem_cons_self
  · rintro ⟨op, _, values, hop, -, h | h⟩
    · cases h
      cases hop
    · cases h

end Polystore.Sql
