import Polystore.Proofs.Except
import Polystore.Proofs.Predicate.Fold

/-!
The single tests of a condition, and what is accepted only with all its parts. Main statements: such
a condition has tests that are accepted alone, and is valid if no accepted membership has an empty
list; merging nested joins hides no fault but an empty join in a join of its own connective.
-/

namespace Polystore.Predicate

variable {Test : Type}

/-- Every test by itself. -/
def testFold : Fold Test (List (Predicate Test)) where
  compare left op right := [.compare left op right]
  member left right negated := [.member left right negated]
  between subject low high exclusive negated := [.between subject low high exclusive negated]
  pattern subject test negated := [.pattern subject test negated]
  not tests := tests
  join _ tests := tests.flatten

theorem testFold_merges : (testFold : Fold Test (List (Predicate Test))).Merges where
  singleton _ _ := by simp [testFold]
  append _ _ _ := by simp [testFold]

/-- The tests of a condition, in order. -/
def tests (p : Predicate Test) : List (Predicate Test) :=
  p.fold testFold

theorem tests_flat (p : Predicate Test) : p.flat.tests = p.tests :=
  fold_flat testFold_merges p

/-- The operands of a test; a pattern test may have some of its own. -/
def operands (ofTest : Test → List Operand) : Predicate Test → List Operand
  | .compare left _ right => [left, right]
  | .member left right _ => [left, right]
  | .between subject low high _ _ => [subject, low, high]
  | .pattern subject test _ => subject :: ofTest test
  | .not _ | .join _ _ => []

def isTest : Predicate Test → Bool
  | .not _ | .join _ _ => false
  | _ => true

theorem flat_of_isTest {p : Predicate Test} (h : p.isTest = true) : p.flat = p := by
  cases p with
  | not p => cases h
  | join c items => cases h
  | _ => rfl

theorem tests_of_isTest {t : Predicate Test} (ht : t.isTest = true) : t.tests = [t] := by
  cases t with
  | not p => cases ht
  | join c items => cases ht
  | compare left op right => rfl
  | member left right negated => rfl
  | between subject low high exclusive negated => rfl
  | pattern subject test negated => rfl

def isComparison : Predicate Test → Bool
  | .compare _ _ _ => true
  | _ => false

/-! ### Validity -/

theorem validate_join_iff (c : Connective) (items : List (Predicate Test)) :
    (join c items).validate = .ok () ↔ items ≠ [] ∧ validateAll items = .ok () := by
  cases items with
  | nil => simp [validate]
  | cons p rest => simp [validate]

theorem validateAll_cons_iff (p : Predicate Test) (rest : List (Predicate Test)) :
    validateAll (p :: rest) = .ok () ↔ p.validate = .ok () ∧ validateAll rest = .ok () := by
  rw [validateAll, Except.bind_eq_ok]
  constructor
  · rintro ⟨⟨⟩, hp, hrest⟩
    exact ⟨hp, hrest⟩
  · rintro ⟨hp, hrest⟩
    exact ⟨(), hp, hrest⟩

theorem validateAll_append_iff (p q : List (Predicate Test)) :
    validateAll (p ++ q) = .ok () ↔ validateAll p = .ok () ∧ validateAll q = .ok () := by
  induction p with
  | nil => simp [validateAll]
  | cons a p ih => rw [List.cons_append, validateAll_cons_iff, validateAll_cons_iff, ih, and_assoc]

theorem validate_member_iff (left right : Operand) (negated : Bool) :
    (member left right negated : Predicate Test).validate = .ok () ↔
      right ≠ .literal (.array []) := by
  constructor
  · rintro h rfl
    cases h
  · intro h
    unfold validate
    split
    · cases ‹_›
    · cases ‹_›
    · next heq =>
      cases heq
      exact absurd rfl h
    · rfl

/-! ### What is accepted only with its parts -/

/-- A negation is accepted only with what it negates, and a join only with all its items, of which
there has to be one. -/
structure Inherited (Accepted : Predicate Test → Prop) : Prop where
  not {p : Predicate Test} : Accepted (.not p) → Accepted p
  join {c : Connective} {items : List (Predicate Test)} : Accepted (.join c items) →
    items ≠ [] ∧ ∀ p ∈ items, Accepted p

/-- A pass that gives one result for each item goes through all of them. -/
theorem each_of_pass {A B : Type} {pass : List A → Except Error (List B)} {Passes : A → Prop}
    (hnil : ∀ results, pass [] = .ok results → results = [])
    (hcons : ∀ a rest results, pass (a :: rest) = .ok results →
      Passes a ∧ ∃ b more, pass rest = .ok more ∧ results = b :: more)
    {items : List A} {results : List B} (h : pass items = .ok results) :
    results.length = items.length ∧ ∀ a ∈ items, Passes a := by
  induction items generalizing results with
  | nil =>
    rw [hnil results h]
    exact ⟨rfl, fun _ ha => nomatch ha⟩
  | cons a rest ih =>
    obtain ⟨ha, b, more, hmore, rfl⟩ := hcons a rest results h
    obtain ⟨hlength, hrest⟩ := ih hmore
    exact ⟨by simp [hlength], List.forall_mem_cons.mpr ⟨ha, hrest⟩⟩

variable {Accepted : Predicate Test → Prop}

mutual

theorem Inherited.of_mem_tests (h : Inherited Accepted) : ∀ p : Predicate Test, Accepted p →
    ∀ t ∈ p.tests, t.isTest = true ∧ Accepted t
  | .compare _ _ _, hp, _, ht => by rw [List.mem_singleton.mp ht]; exact ⟨rfl, hp⟩
  | .member _ _ _, hp, _, ht => by rw [List.mem_singleton.mp ht]; exact ⟨rfl, hp⟩
  | .between _ _ _ _ _, hp, _, ht => by rw [List.mem_singleton.mp ht]; exact ⟨rfl, hp⟩
  | .pattern _ _ _, hp, _, ht => by rw [List.mem_singleton.mp ht]; exact ⟨rfl, hp⟩
  | .not p, hp, t, ht => h.of_mem_tests p (h.not hp) t ht
  | .join _ items, hp, t, ht => h.of_mem_allTests items (h.join hp).2 t ht
termination_by structural p => p

theorem Inherited.of_mem_allTests (h : Inherited Accepted) : ∀ items : List (Predicate Test),
    (∀ p ∈ items, Accepted p) →
      ∀ t ∈ (foldAll testFold items).flatten, t.isTest = true ∧ Accepted t
  | [], _, _, ht => by cases ht
  | p :: rest, hitems, t, ht => by
    rw [foldAll, List.flatten_cons, List.mem_append] at ht
    rcases ht with ht | ht
    · exact h.of_mem_tests p (hitems p List.mem_cons_self) t ht
    · exact h.of_mem_allTests rest (fun q hq => hitems q (List.mem_cons_of_mem p hq)) t ht
termination_by structural items => items

end

mutual

theorem Inherited.validate (h : Inherited Accepted)
    (hmember : ∀ left negated, ¬ Accepted (.member left (.literal (.array [])) negated)) :
    ∀ p : Predicate Test, Accepted p → p.validate = .ok ()
  | .compare _ _ _, _ => rfl
  | .member left right negated, hp => by
    rw [validate_member_iff]
    rintro rfl
    exact hmember left negated hp
  | .between _ _ _ _ _, _ => rfl
  | .pattern _ _ _, _ => rfl
  | .not p, hp => h.validate hmember p (h.not hp)
  | .join c items, hp => by
    rw [validate_join_iff]
    exact ⟨(h.join hp).1, h.validateAll hmember items (h.join hp).2⟩
termination_by structural p => p

theorem Inherited.validateAll (h : Inherited Accepted)
    (hmember : ∀ left negated, ¬ Accepted (.member left (.literal (.array [])) negated)) :
    ∀ items : List (Predicate Test), (∀ p ∈ items, Accepted p) →
      Predicate.validateAll items = .ok ()
  | [], _ => rfl
  | p :: rest, hitems => by
    rw [validateAll_cons_iff]
    constructor
    · exact h.validate hmember p (hitems p List.mem_cons_self)
    · exact h.validateAll hmember rest fun q hq => hitems q (List.mem_cons_of_mem p hq)
termination_by structural items => items

end

/-! ### Faults that merging hides -/

def isEmptyJoin (c : Connective) : Predicate Test → Bool
  | .join d items => decide (c = d) && items.isEmpty
  | _ => false

mutual

/-- Is there an empty join among the items of a join of the same connective? -/
def swallows : Predicate Test → Bool
  | .not p => p.swallows
  | .join c items => swallowsAny c items
  | _ => false
termination_by structural p => p

def swallowsAny (c : Connective) : List (Predicate Test) → Bool
  | [] => false
  | p :: rest => isEmptyJoin c p || p.swallows || swallowsAny c rest
termination_by structural items => items

end

mutual

theorem validate_of_validate_flat : ∀ p : Predicate Test, p.swallows = false →
    p.flat.validate = .ok () → p.validate = .ok ()
  | .compare _ _ _, _, h => h
  | .member _ _ _, _, h => h
  | .between _ _ _ _ _, _, h => h
  | .pattern _ _ _, _, h => h
  | .not p, hs, h => validate_of_validate_flat p hs h
  | .join c items, hs, h => by
    rw [flat, validate_join_iff] at h
    rw [validate_join_iff]
    refine ⟨?_, validateAll_of_terms c items hs h.2⟩
    rintro rfl
    exact h.1 rfl
termination_by structural p => p

/-- An item that is no empty join of the connective itself is seen through what it contributes. -/
theorem validate_of_term (c : Connective) : ∀ p : Predicate Test, isEmptyJoin c p = false →
    p.swallows = false → validateAll (p.term c) = .ok () → p.validate = .ok ()
  | .compare _ _ _, _, _, _ => rfl
  | .member _ _ _, _, _, h => (validateAll_cons_iff _ _).mp h |>.1
  | .between _ _ _ _ _, _, _, _ => rfl
  | .pattern _ _ _, _, _, _ => rfl
  | .not p, _, hs, h => validate_of_validate_flat p hs ((validateAll_cons_iff _ _).mp h).1
  | .join d items, he, hs, h => by
    rw [validate_join_iff]
    rw [term] at h
    split at h
    · next heq =>
      subst heq
      refine ⟨?_, validateAll_of_terms c items hs h⟩
      rintro rfl
      simp [isEmptyJoin] at he
    · have hjoin := (validateAll_cons_iff _ _).mp h |>.1
      rw [validate_join_iff] at hjoin
      refine ⟨?_, validateAll_of_terms d items hs hjoin.2⟩
      rintro rfl
      exact hjoin.1 rfl
termination_by structural p => p

theorem validateAll_of_terms (c : Connective) : ∀ items : List (Predicate Test),
    swallowsAny c items = false → validateAll (terms c items) = .ok () →
    validateAll items = .ok ()
  | [], _, _ => rfl
  | p :: rest, hs, h => by
    simp only [swallowsAny, Bool.or_eq_false_iff] at hs
    rw [terms, validateAll_append_iff] at h
    rw [validateAll_cons_iff]
    exact ⟨validate_of_term c p hs.1.1 hs.1.2 h.1, validateAll_of_terms c rest hs.2 h.2⟩
termination_by structural items => items

end

/-- A fault is there after merging too, unless a join has swallowed it. -/
theorem swallows_of_validate_flat {p : Predicate Test} (hp : p.validate ≠ .ok ())
    (hflat : p.flat.validate = .ok ()) : p.swallows = true := by
  rw [← Bool.not_eq_false]
  exact fun hs => hp (validate_of_validate_flat p hs hflat)

end Polystore.Predicate
