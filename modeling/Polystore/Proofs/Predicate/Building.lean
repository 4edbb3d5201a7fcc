import Polystore.Predicate.Build
import Polystore.Proofs.Predicate.Tests
import Polystore.Proofs.Sql.Meaning

/-!
Conditions that are built from tests on a key by joining and negating. Main statement: however often
that is done, no join holds one of its own connective or fewer than two items, the condition is valid,
and joining means the conjunction or the disjunction of what is joined.
-/

namespace Polystore.Predicate

open Sql (Truth)

variable {Test : Type}

/-- A condition built from tests on a key. -/
inductive Built : Predicate Test → Prop
  | compare (k : Key) (op : Comparison) (other : Operand) : Built (k.compare op other)
  | isNull (k : Key) : Built k.isNull
  | isNotNull (k : Key) : Built k.isNotNull
  | among {k : Key} {values : List Value} {negated : Bool} {p : Predicate Test}
    (h : k.among values negated = .ok p) : Built p
  | holdsElement (k : Key) (element : Value) : Built (k.holdsElement element)
  | inKey (k other : Key) : Built (k.inKey other)
  | between (k : Key) (low high : Operand) (exclusive negated : Bool) :
    Built (k.between low high exclusive negated)
  | pattern (k : Key) (test : Test) (negated : Bool) : Built (k.pattern test negated)
  | not {p : Predicate Test} (h : Built p) : Built (.not p)
  | joinAll {c : Connective} {items : List (Predicate Test)} {p : Predicate Test}
    (hitems : ∀ q ∈ items, Built q) (h : joinAll c items = .ok p) : Built p
  | joinTwo (c : Connective) {p q : Predicate Test} (hp : Built p) (hq : Built q) :
    Built (joinTwo c p q)

/-- A join has two items or more, none of which is a join of its connective, and so on within them. -/
inductive Normal : Predicate Test → Prop
  | test {p : Predicate Test} (h : p.isTest = true) : Normal p
  | not {p : Predicate Test} (h : Normal p) : Normal (.not p)
  | join {c : Connective} {items : List (Predicate Test)} (hlength : 2 ≤ items.length)
    (hinner : ∀ p ∈ items, ∀ inner, p ≠ .join c inner) (hitems : ∀ p ∈ items, Normal p) :
    Normal (.join c items)

/-! ### Joining -/

section Joining

variable {c : Connective} {items : List (Predicate Test)} {p q : Predicate Test}

theorem joinAll_eq_ok_iff : joinAll c items = .ok p ↔ items.flatMap (parts c) = [p] ∨
    2 ≤ (items.flatMap (parts c)).length ∧ p = .join c (items.flatMap (parts c)) := by
  rcases hflat : items.flatMap (parts c) with _ | ⟨first, _ | ⟨second, rest⟩⟩
  · simp [joinAll, hflat]
  · simp [joinAll, hflat]
  · simp [joinAll, hflat, eq_comm]

theorem joinAll_eq_error_iff : (∃ e, joinAll c items = .error e) ↔ items.flatMap (parts c) = [] := by
  rcases hflat : items.flatMap (parts c) with _ | ⟨first, _ | ⟨second, rest⟩⟩
  · simp [joinAll, hflat]
  · simp [joinAll, hflat]
  · simp [joinAll, hflat]

/-- Joining two conditions cannot fail where each has something to contribute. -/
theorem joinAll_pair (hp : p.parts c ≠ []) (hq : q.parts c ≠ []) :
    joinAll c [p, q] = .ok (joinTwo c p q) := by
  have hflat : [p, q].flatMap (parts c) = p.parts c ++ q.parts c := by simp
  rw [joinAll_eq_ok_iff, hflat]
  refine .inr ⟨?_, rfl⟩
  have := List.length_pos_iff.mpr hp
  have := List.length_pos_iff.mpr hq
  rw [List.length_append]
  omega

end Joining

/-! ### Normal form -/

section Forms

variable {c : Connective} {items : List (Predicate Test)} {p q : Predicate Test}

theorem parts_join_self (c : Connective) (items : List (Predicate Test)) :
    (join c items).parts c = items :=
  if_pos rfl

theorem parts_of_ne (h : ∀ inner, p ≠ .join c inner) : p.parts c = [p] := by
  cases p with
  | join d items =>
    refine if_neg ?_
    rintro rfl
    exact h items rfl
  | _ => rfl

/-- Either the condition is a join of the connective, or it is its own one part. -/
theorem parts_cases (c : Connective) (p : Predicate Test) :
    (∃ items, p = .join c items ∧ p.parts c = items) ∨
      (∀ inner, p ≠ .join c inner) ∧ p.parts c = [p] := by
  by_cases h : ∃ items, p = .join c items
  · obtain ⟨items, rfl⟩ := h
    exact .inl ⟨items, rfl, parts_join_self c items⟩
  · have hne : ∀ inner, p ≠ .join c inner := fun inner heq => h ⟨inner, heq⟩
    exact .inr ⟨hne, parts_of_ne hne⟩

/-- What a normal condition contributes to a join: something, and no join of the same connective. -/
theorem Normal.parts (h : p.Normal) (c : Connective) : p.parts c ≠ [] ∧
    ∀ q ∈ p.parts c, q.Normal ∧ ∀ inner, q ≠ .join c inner := by
  rcases parts_cases c p with ⟨items, rfl, hparts⟩ | ⟨hne, hparts⟩
  · rw [hparts]
    cases h with
    | test htest => cases htest
    | join hlength hinner hitems =>
      refine ⟨?_, fun q hq => ⟨hitems q hq, hinner q hq⟩⟩
      rintro rfl
      cases hlength
  · rw [hparts]
    refine ⟨List.cons_ne_nil p [], fun q hq => ?_⟩
    rw [List.mem_singleton.mp hq]
    exact ⟨h, hne⟩

theorem Normal.joinAll (hitems : ∀ p ∈ items, p.Normal) (h : joinAll c items = .ok p) :
    p.Normal := by
  have hflat : ∀ q ∈ items.flatMap (Predicate.parts c), q.Normal ∧ ∀ inner, q ≠ .join c inner := by
    intro q hq
    obtain ⟨item, hitem, hq⟩ := List.mem_flatMap.mp hq
    exact ((hitems item hitem).parts c).2 q hq
  rcases joinAll_eq_ok_iff.mp h with hone | ⟨hlength, rfl⟩
  · rw [hone] at hflat
    exact (hflat p List.mem_cons_self).1
  · exact .join hlength (fun q hq => (hflat q hq).2) fun q hq => (hflat q hq).1

/-- Only where there is nothing to join is there no join. -/
theorem joinAll_error_of_normal (hitems : ∀ p ∈ items, p.Normal) :
    (∃ e, joinAll c items = .error e) ↔ items = [] := by
  rw [joinAll_eq_error_iff, List.flatMap_eq_nil_iff]
  constructor
  · intro hnone
    rw [List.eq_nil_iff_forall_not_mem]
    exact fun p hp => ((hitems p hp).parts c).1 (hnone p hp)
  · rintro rfl p hp
    cases hp

/-! ### Validity -/

theorem validateAll_eq_ok_iff :
    validateAll items = .ok () ↔ ∀ p ∈ items, p.validate = .ok () := by
  induction items with
  | nil => simp [validateAll]
  | cons p rest ih => rw [validateAll_cons_iff, ih, List.forall_mem_cons]

theorem validate_of_mem_parts (h : p.validate = .ok ()) (hq : q ∈ p.parts c) :
    q.validate = .ok () := by
  rcases parts_cases c p with ⟨items, rfl, hparts⟩ | ⟨-, hparts⟩
  · rw [hparts] at hq
    exact validateAll_eq_ok_iff.mp ((validate_join_iff c items).mp h).2 q hq
  · rw [hparts, List.mem_singleton] at hq
    rwa [hq]

theorem validate_joinAll (hitems : ∀ p ∈ items, p.validate = .ok ()) (h : joinAll c items = .ok p) :
    p.validate = .ok () := by
  have hflat : ∀ q ∈ items.flatMap (Predicate.parts c), q.validate = .ok () := by
    intro q hq
    obtain ⟨item, hitem, hq⟩ := List.mem_flatMap.mp hq
    exact validate_of_mem_parts (hitems item hitem) hq
  rcases joinAll_eq_ok_iff.mp h with hone | ⟨hlength, rfl⟩
  · exact hflat p (hone ▸ List.mem_cons_self)
  · rw [validate_join_iff, validateAll_eq_ok_iff]
    refine ⟨?_, hflat⟩
    intro hnone
    rw [hnone] at hlength
    cases hlength

end Forms

theorem Built.sound {p : Predicate Test} (h : p.Built) : p.Normal ∧ p.validate = .ok () := by
  induction h with
  | compare k op other => exact ⟨.test rfl, rfl⟩
  | isNull k => exact ⟨.test rfl, rfl⟩
  | isNotNull k => exact ⟨.test rfl, rfl⟩
  | @among k values negated p h =>
    rw [Key.among] at h
    split at h
    · cases h
    · next hne =>
      cases h
      refine ⟨.test rfl, (validate_member_iff _ _ _).mpr ?_⟩
      rintro hnil
      cases hnil
      exact hne rfl
  | holdsElement k element => exact ⟨.test rfl, rfl⟩
  | inKey k other => exact ⟨.test rfl, rfl⟩
  | between k low high exclusive negated => exact ⟨.test rfl, rfl⟩
  | pattern k test negated => exact ⟨.test rfl, rfl⟩
  | not h ih => exact ⟨.not ih.1, ih.2⟩
  | joinAll hitems h ih =>
    exact ⟨.joinAll (fun q hq => (ih q hq).1) h, validate_joinAll (fun q hq => (ih q hq).2) h⟩
  | @joinTwo c p q hp hq ihp ihq =>
    have hjoin := joinAll_pair (ihp.1.parts c).1 (ihq.1.parts c).1
    have hboth : ∀ r ∈ [p, q], r.Normal ∧ r.validate = .ok () := by
      intro r hr
      simp only [List.mem_cons, List.not_mem_nil, or_false] at hr
      rcases hr with rfl | rfl
      · exact ihp
      · exact ihq
    exact ⟨.joinAll (fun r hr => (hboth r hr).1) hjoin,
      validate_joinAll (fun r hr => (hboth r hr).2) hjoin⟩

/-! ### Meaning -/

section Meaning

variable {A : Type} {f : Fold Test A} {c : Connective} {items : List (Predicate Test)}
  {p q : Predicate Test}

theorem foldAll_eq_map (f : Fold Test A) (items : List (Predicate Test)) :
    foldAll f items = items.map (fold f) := by
  induction items with
  | nil => rfl
  | cons p rest ih => rw [foldAll, ih, List.map_cons]

theorem Fold.Merges.join_parts (h : f.Merges) (c : Connective) (p : Predicate Test) :
    f.join c (foldAll f (p.parts c)) = p.fold f := by
  rcases parts_cases c p with ⟨items, rfl, hparts⟩ | ⟨-, hparts⟩
  · rw [hparts, fold]
  · rw [hparts]
    exact h.singleton c _

theorem Fold.Merges.join_flatMap_parts (h : f.Merges) (c : Connective)
    (items : List (Predicate Test)) :
    f.join c (foldAll f (items.flatMap (parts c))) = f.join c (foldAll f items) := by
  induction items with
  | nil => rfl
  | cons p rest ih =>
    rw [List.flatMap_cons, foldAll_append, h.append, h.join_parts, ih]
    exact (h.cons c _ _).symm

/-- What conditions come to together is what they come to once they are joined. -/
theorem Fold.Merges.fold_joinAll (h : f.Merges) (hp : joinAll c items = .ok p) :
    p.fold f = f.join c (items.map (fold f)) := by
  rw [← foldAll_eq_map, ← h.join_flatMap_parts]
  rcases joinAll_eq_ok_iff.mp hp with hone | ⟨-, rfl⟩
  · rw [hone]
    exact (h.singleton c _).symm
  · rw [fold]

theorem Fold.Merges.fold_joinTwo (h : f.Merges) (c : Connective) (p q : Predicate Test) :
    (joinTwo c p q).fold f = f.join c [p.fold f, q.fold f] := by
  rw [joinTwo, fold, foldAll_append, h.append, h.join_parts, h.join_parts]

end Meaning

/-- Three-valued truth, whatever the tests come to. -/
def truthFold (test : Predicate Test → Truth) : Fold Test Truth where
  compare left op right := test (.compare left op right)
  member left right negated := test (.member left right negated)
  between subject low high exclusive negated := test (.between subject low high exclusive negated)
  pattern subject pattern negated := test (.pattern subject pattern negated)
  not := Truth.not
  join := Sql.Valuation.joined

theorem truthFold_merges (test : Predicate Test → Truth) : (truthFold test).Merges where
  singleton := Sql.Valuation.joined_singleton
  append := Sql.Valuation.joined_append

def truth (test : Predicate Test → Truth) (p : Predicate Test) : Truth :=
  p.fold (truthFold test)

theorem truth_joinTwo (test : Predicate Test → Truth) (c : Connective) (p q : Predicate Test) :
    (joinTwo c p q).truth test = Sql.Valuation.joined c [p.truth test, q.truth test] :=
  (truthFold_merges test).fold_joinTwo c p q

/-- Whatever is built from tests on a key is in normal form and valid. Conditions so built can be
joined just if there is one at all. What is joined comes to the conjunction or the disjunction of its
items, whatever their tests come to. -/
theorem built_conditions_normal :
    (∀ p : Predicate Test, p.Built → p.Normal ∧ p.validate = .ok ()) ∧
    (∀ (c : Connective) (items : List (Predicate Test)), (∀ p ∈ items, p.Built) →
      ((∃ e, joinAll c items = .error e) ↔ items = [])) ∧
    (∀ (c : Connective) (items : List (Predicate Test)) (p : Predicate Test),
      joinAll c items = .ok p →
      ∀ test, p.truth test = Sql.Valuation.joined c (items.map (truth test))) ∧
    ∀ (p q : Predicate Test) (test : Predicate Test → Truth),
      (joinTwo .and p q).truth test = (p.truth test).and (q.truth test) ∧
        (joinTwo .or p q).truth test = (p.truth test).or (q.truth test) := by
  refine ⟨fun p hp => hp.sound, fun c items hitems => ?_, fun c items p hp test => ?_,
    fun p q test => ⟨?_, ?_⟩⟩
  · exact joinAll_error_of_normal fun p hp => (hitems p hp).sound.1
  · exact (truthFold_merges test).fold_joinAll hp
  · rw [truth_joinTwo, Sql.Valuation.joined, Truth.all, Truth.all, Truth.all, Truth.and_holds]
  · rw [truth_joinTwo, Sql.Valuation.joined, Truth.any, Truth.any, Truth.any, Truth.or_fails]

/-- A conjunction of two tests on different columns. -/
def bothSet : Predicate Operand :=
  joinTwo .and (Key.named "a").isNotNull (Key.named "b").isNotNull

theorem bothSet_built : bothSet.Built :=
  .joinTwo .and (.isNotNull _) (.isNotNull _)

/-- A disjunction of a single conjunction is that conjunction, and goes on as one. -/
theorem built_conditions_normal_surfaced :
    joinAll .or [bothSet] = .ok bothSet ∧
      joinTwo .and bothSet (.not bothSet) =
        .join .and [(Key.named "a").isNotNull, (Key.named "b").isNotNull, .not bothSet] ∧
      (joinTwo .and bothSet (.not bothSet)).Normal ∧ (∀ e, joinAll .or [bothSet] ≠ .error e) ∧
      bothSet.truth (fun _ => .unknown) = .unknown := by
  have hone : ∀ p ∈ [bothSet], p.Built := by simpa using bothSet_built
  have hmore := built_conditions_normal.1 _ (.joinTwo .and bothSet_built (.not bothSet_built))
  refine ⟨rfl, rfl, hmore.1, fun e he => ?_, ?_⟩
  · have hnone := (built_conditions_normal.2.1 .or [bothSet] hone).mp ⟨e, he⟩
    exact absurd hnone (List.cons_ne_nil _ _)
  · exact built_conditions_normal.2.2.1 .or [bothSet] bothSet rfl _

end Polystore.Predicate
