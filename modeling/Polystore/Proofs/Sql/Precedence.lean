import Polystore.Proofs.Sql.Reading

/-!
Texts put together the way that precedence asks for: factors joined by AND to terms, terms joined by
OR to sums. Main statement: a sum is read back as the expression that it was put together from.
-/

namespace Polystore.Sql

open Expression

/-- Words that are read as one item of a conjunction, whatever comes after them. -/
structure Factor where
  words : List Word
  expression : Expression
  reads : ∀ n rest, 3 * words.length ≤ n → readNot n (words ++ rest) = some (expression, rest)

/-- Factors with AND between them. -/
structure Term where
  first : Factor
  rest : List Factor := []

/-- Terms with OR between them. -/
structure Sum where
  first : Term
  rest : List Term := []

/-- Words with a word between them. -/
def chainWords (separator : Word) : List Word → List (List Word) → List Word
  | ws, [] => ws
  | ws, vs :: rest => ws ++ separator :: chainWords separator vs rest

theorem chainWords_append (separator : Word) (ws vs : List Word) (first rest : List (List Word)) :
    chainWords separator ws (first ++ vs :: rest) =
      chainWords separator ws first ++ separator :: chainWords separator vs rest := by
  induction first generalizing ws with
  | nil => rfl
  | cons us first ih => simp only [List.cons_append, chainWords, ih, List.append_assoc]

/-- Expressions with an operation between them. -/
def chain (operation : Expression → Expression → Expression) :
    Expression → List Expression → Expression
  | e, [] => e
  | e, f :: rest => operation e (chain operation f rest)

namespace Factor

/-- A test that begins with an operand. -/
def ofTest (o : Operand) (ws : List Word) (t : Test)
    (h : ∀ rest, readTest (.operand o :: ws ++ rest) = some (t, rest)) : Factor where
  words := .operand o :: ws
  expression := .test t
  reads := by
    intro n rest hn
    obtain ⟨m, rfl⟩ : ∃ m, n = m + 1 := ⟨n - 1, by simp at hn; omega⟩
    have ht := h rest
    simp only [List.cons_append] at ht ⊢
    simp only [readNot, ht, Option.map_some]

def not (f : Factor) : Factor where
  words := .not :: f.words
  expression := .not f.expression
  reads := by
    intro n rest hn
    simp only [List.length_cons] at hn
    obtain ⟨m, rfl⟩ : ∃ m, n = m + 1 := ⟨n - 1, by omega⟩
    simp only [List.cons_append, readNot, f.reads m rest (by omega), Option.map_some]

end Factor

namespace Term

def words (t : Term) : List Word :=
  chainWords .and t.first.words (t.rest.map Factor.words)

def expression (t : Term) : Expression :=
  chain .and t.first.expression (t.rest.map Factor.expression)

/-- One term after another. -/
def append (t u : Term) : Term :=
  ⟨t.first, t.rest ++ u.first :: u.rest⟩

theorem words_append (t u : Term) : (t.append u).words = t.words ++ .and :: u.words := by
  simp only [words, append, List.map_append, List.map_cons, chainWords_append]

theorem words_cons (f g : Factor) (rest : List Factor) :
    words ⟨f, g :: rest⟩ = f.words ++ .and :: words ⟨g, rest⟩ := rfl

theorem reads (t : Term) (n : Nat) (rest : List Word) (hn : 3 * t.words.length + 1 ≤ n)
    (hrest : ∀ r, rest ≠ .and :: r) : readAnd n (t.words ++ rest) = some (t.expression, rest) := by
  obtain ⟨f, fs⟩ := t
  obtain ⟨m, rfl⟩ : ∃ m, n = m + 1 := ⟨n - 1, by omega⟩
  induction fs generalizing f m with
  | nil =>
      have hf : readNot m (f.words ++ rest) = some (f.expression, rest) :=
        f.reads m rest (by simp [words, chainWords] at hn; omega)
      simp only [words, expression, List.map_nil, chainWords, chain, readAnd, hf]
      split
      · next heq =>
          obtain ⟨_, rfl⟩ := by simpa using heq
          exact absurd rfl (hrest _)
      · rfl
  | cons g fs ih =>
      rw [words_cons] at hn ⊢
      simp only [List.length_append, List.length_cons] at hn
      have hf := f.reads m (.and :: (words ⟨g, fs⟩ ++ rest)) (by omega)
      obtain ⟨k, rfl⟩ : ∃ k, m = k + 1 := ⟨m - 1, by omega⟩
      have hg := ih g k (by omega)
      simp only [List.append_assoc, List.cons_append]
      rw [readAnd, hf]
      simp only [hg, Option.map_some]
      rfl

def truth {D : Type} (v : Valuation D) (t : Term) : Truth :=
  .all ((t.first :: t.rest).map fun f => v.truth f.expression)

theorem truth_append {D : Type} (v : Valuation D) (t u : Term) :
    (t.append u).truth v = (t.truth v).and (u.truth v) := by
  rw [truth, truth, truth, ← Truth.all_append, ← List.map_append]
  rfl

theorem truth_expression {D : Type} (v : Valuation D) (t : Term) :
    v.truth t.expression = t.truth v := by
  obtain ⟨f, fs⟩ := t
  induction fs generalizing f with
  | nil => simp [expression, truth, chain, Truth.all]
  | cons g fs ih =>
      have hg := ih g
      simp only [expression, truth, List.map_cons, chain, Valuation.truth, Truth.all] at hg ⊢
      rw [hg]

end Term

namespace Sum

def words (s : Sum) : List Word :=
  chainWords .or s.first.words (s.rest.map Term.words)

def expression (s : Sum) : Expression :=
  chain .or s.first.expression (s.rest.map Term.expression)

def append (s u : Sum) : Sum :=
  ⟨s.first, s.rest ++ u.first :: u.rest⟩

theorem words_append (s u : Sum) : (s.append u).words = s.words ++ .or :: u.words := by
  simp only [words, append, List.map_append, List.map_cons, chainWords_append]

theorem words_cons (t u : Term) (rest : List Term) :
    words ⟨t, u :: rest⟩ = t.words ++ .or :: words ⟨u, rest⟩ := rfl

theorem reads (s : Sum) (n : Nat) (rest : List Word) (hn : 3 * s.words.length + 2 ≤ n)
    (hand : ∀ r, rest ≠ .and :: r) (hor : ∀ r, rest ≠ .or :: r) :
    readOr n (s.words ++ rest) = some (s.expression, rest) := by
  obtain ⟨t, ts⟩ := s
  obtain ⟨m, rfl⟩ : ∃ m, n = m + 1 := ⟨n - 1, by omega⟩
  induction ts generalizing t m with
  | nil =>
      have ht : readAnd m (t.words ++ rest) = some (t.expression, rest) :=
        t.reads m rest (by simp [words, chainWords] at hn; omega) hand
      simp only [words, expression, List.map_nil, chainWords, chain, readOr, ht]
      split
      · next heq =>
          obtain ⟨_, rfl⟩ := by simpa using heq
          exact absurd rfl (hor _)
      · rfl
  | cons u ts ih =>
      rw [words_cons] at hn ⊢
      simp only [List.length_append, List.length_cons] at hn
      have ht := t.reads m (.or :: (words ⟨u, ts⟩ ++ rest)) (by omega) (by simp)
      obtain ⟨k, rfl⟩ : ∃ k, m = k + 1 := ⟨m - 1, by omega⟩
      have hu := ih u k (by omega)
      simp only [List.append_assoc, List.cons_append]
      rw [readOr, ht]
      simp only [hu, Option.map_some]
      rfl

/-- Read as a whole, a sum gives its expression. -/
theorem ofWords?_words (s : Sum) : ofWords? s.words = some s.expression := by
  have h := s.reads (3 * s.words.length + 2) [] (Nat.le_refl _) (by simp) (by simp)
  rw [List.append_nil] at h
  rw [ofWords?, h]

def truth {D : Type} (v : Valuation D) (s : Sum) : Truth :=
  .any ((s.first :: s.rest).map (Term.truth v))

theorem truth_append {D : Type} (v : Valuation D) (s u : Sum) :
    (s.append u).truth v = (s.truth v).or (u.truth v) := by
  rw [truth, truth, truth, ← Truth.any_append, ← List.map_append]
  rfl

theorem truth_expression {D : Type} (v : Valuation D) (s : Sum) :
    v.truth s.expression = s.truth v := by
  obtain ⟨t, ts⟩ := s
  induction ts generalizing t with
  | nil => simp [expression, truth, chain, Truth.any, Term.truth_expression]
  | cons u ts ih =>
      have hu := ih u
      simp only [expression, truth, List.map_cons, chain, Valuation.truth, Truth.any] at hu ⊢
      rw [hu, Term.truth_expression]

end Sum

/-- A sum between brackets. -/
def Factor.group (s : Sum) : Factor where
  words := .opening :: s.words ++ [.closing]
  expression := s.expression
  reads := by
    intro n rest hn
    simp only [List.cons_append, List.length_cons, List.length_append, List.length_nil] at hn
    obtain ⟨m, rfl⟩ : ∃ m, n = m + 1 := ⟨n - 1, by omega⟩
    have hs := s.reads m (.closing :: rest) (by omega) (by simp) (by simp)
    simp only [List.cons_append, List.append_assoc, List.nil_append]
    rw [readNot, hs]

/-- A factor by itself. -/
def Term.ofFactor (f : Factor) : Term := ⟨f, []⟩

def Sum.ofTerm (t : Term) : Sum := ⟨t, []⟩

@[simp] theorem Term.words_ofFactor (f : Factor) : (ofFactor f).words = f.words := rfl

@[simp] theorem Term.truth_ofFactor {D : Type} (v : Valuation D) (f : Factor) :
    (ofFactor f).truth v = v.truth f.expression := by
  simp [ofFactor, truth, Truth.all]

@[simp] theorem Sum.words_ofTerm (t : Term) : (ofTerm t).words = t.words := rfl

@[simp] theorem Sum.truth_ofTerm {D : Type} (v : Valuation D) (t : Term) :
    (ofTerm t).truth v = t.truth v := by
  simp [ofTerm, truth, Truth.any]

end Polystore.Sql
