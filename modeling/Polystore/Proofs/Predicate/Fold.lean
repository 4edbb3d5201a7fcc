import Polystore.Predicate.Basic

/-!
Functions that go through a condition and put together what they find. Main statement: merging nested
joins changes nothing for those that take joins apart and together freely.
-/

namespace Polystore

def Operand.keys : Operand → List Key
  | .key k => [k]
  | .literal _ => []

def Operand.literals : Operand → List Value
  | .key _ => []
  | .literal v => [v]

namespace Predicate

/-- What to make of each test and each connective. -/
structure Fold (Test A : Type) where
  compare : Operand → Comparison → Operand → A
  member : Operand → Operand → Bool → A
  between : Operand → Operand → Operand → Bool → Bool → A
  pattern : Operand → Test → Bool → A
  not : A → A
  join : Connective → List A → A

variable {Test A : Type}

mutual

def fold (f : Fold Test A) : Predicate Test → A
  | .compare left op right => f.compare left op right
  | .member left right negated => f.member left right negated
  | .between subject low high exclusive negated => f.between subject low high exclusive negated
  | .pattern subject test negated => f.pattern subject test negated
  | .not p => f.not (p.fold f)
  | .join c items => f.join c (foldAll f items)
termination_by structural p => p

def foldAll (f : Fold Test A) : List (Predicate Test) → List A
  | [] => []
  | p :: rest => p.fold f :: foldAll f rest
termination_by structural items => items

end

/-- Joins can be nested or not. -/
structure Fold.Merges (f : Fold Test A) : Prop where
  singleton : ∀ c a, f.join c [a] = a
  append : ∀ c s t, f.join c (s ++ t) = f.join c [f.join c s, f.join c t]

theorem foldAll_append (f : Fold Test A) (p q : List (Predicate Test)) :
    foldAll f (p ++ q) = foldAll f p ++ foldAll f q := by
  induction p with
  | nil => rfl
  | cons a p ih => simp only [List.cons_append, foldAll, ih]

theorem Fold.Merges.cons {f : Fold Test A} (h : f.Merges) (c : Connective) (a : A) (rest : List A) :
    f.join c (a :: rest) = f.join c [a, f.join c rest] := by
  have happend := h.append c [a] rest
  rwa [h.singleton, List.singleton_append] at happend

mutual

theorem fold_flat {f : Fold Test A} (h : f.Merges) : ∀ p : Predicate Test, p.flat.fold f = p.fold f
  | .compare _ _ _ => rfl
  | .member _ _ _ => rfl
  | .between _ _ _ _ _ => rfl
  | .pattern _ _ _ => rfl
  | .not p => by rw [flat, fold, fold, fold_flat h p]
  | .join c items => by rw [flat, fold, fold, join_terms h c items]

/-- What a condition contributes to a join comes, joined, to what the condition comes to. -/
theorem join_term {f : Fold Test A} (h : f.Merges) (c : Connective) : ∀ p : Predicate Test,
    f.join c (foldAll f (p.term c)) = p.fold f
  | .compare _ _ _ => h.singleton c _
  | .member _ _ _ => h.singleton c _
  | .between _ _ _ _ _ => h.singleton c _
  | .pattern _ _ _ => h.singleton c _
  | .not p => by simp only [term, foldAll, h.singleton, fold, fold_flat h p]
  | .join d items => by
    rw [term]
    split
    · next heq => rw [fold, ← heq, join_terms h c items]
    · simp only [foldAll, h.singleton, fold, join_terms h d items]

theorem join_terms {f : Fold Test A} (h : f.Merges) (c : Connective) :
    ∀ items : List (Predicate Test), f.join c (foldAll f (terms c items)) = f.join c (foldAll f items)
  | [] => rfl
  | p :: rest => by
    rw [terms, foldAll_append, h.append, join_term h c p, join_terms h c rest]
    exact (h.cons c _ _).symm

end

def keyFold : Fold Test (List Key) where
  compare left _ right := left.keys ++ right.keys
  member left right _ := left.keys ++ right.keys
  between subject low high _ _ := subject.keys ++ low.keys ++ high.keys
  pattern subject _ _ := subject.keys
  not keys := keys
  join _ keys := keys.flatten

theorem keyFold_merges : (keyFold : Fold Test (List Key)).Merges where
  singleton _ _ := by simp [keyFold]
  append _ _ _ := by simp [keyFold]

/-- The keys of a condition, in the order they are written in. -/
def keys (p : Predicate Test) : List Key :=
  p.fold keyFold

theorem keys_flat (p : Predicate Test) : p.flat.keys = p.keys :=
  fold_flat keyFold_merges p

end Predicate

end Polystore
