import Polystore.Document.Filter
import Polystore.Proofs.Except
import Polystore.Proofs.Predicate.Alike
import Polystore.Proofs.Predicate.Fold

/-!
Filters of conditions that differ in their literals only: all their fields have the same names in the
same places, and all they differ in is what stands for a literal.
-/

namespace Polystore.Document

/-- The operators whose argument is a literal. -/
def comparesLiteral (name : String) : Bool :=
  ["$eq", "$ne", "$lt", "$gt", "$lte", "$gte"].contains name

/-- The operators whose argument is a list of literals. -/
def listsLiterals (name : String) : Bool :=
  ["$in", "$nin"].contains name

/-- Of a list of literals only the length is left. -/
def blankItems : Bson → Bson
  | .array items => .array (items.map fun _ => .null)
  | b => b

mutual

/-- A filter without its literals. Expressions in filters have none. -/
def outline : Filter → Filter
  | [] => []
  | (name, value) :: rest =>
    (name, if comparesLiteral name then .null
      else if listsLiterals name then blankItems value
      else if name = "$expr" then value
      else outlineValue value) :: outline rest
termination_by structural filter => filter

def outlineValue : Bson → Bson
  | .document fields => .document (outline fields)
  | .array items => .array (outlineValues items)
  | b => b
termination_by structural b => b

def outlineValues : List Bson → List Bson
  | [] => []
  | b :: rest => outlineValue b :: outlineValues rest
termination_by structural items => items

end

theorem outline_names (f : Filter) : (outline f).map (·.1) = f.map (·.1) := by
  induction f with
  | nil => rfl
  | cons field rest ih => rw [outline, List.map_cons, List.map_cons, ih]

theorem outlineValues_documents (clauses : List Filter) :
    outlineValues (clauses.map .document) = (clauses.map outline).map .document := by
  induction clauses with
  | nil => rfl
  | cons f rest ih => simp only [List.map_cons, outlineValues, outlineValue, ih]

/-- A field that is no operator is looked into. -/
theorem outline_field {field : String} (hfield : isOperator field = false) (value : Bson) :
    outline [(field, value)] = [(field, outlineValue value)] := by
  have hne (name : String) (hname : isOperator name = true) : field ≠ name := by
    rintro rfl
    rw [hfield] at hname
    cases hname
  have hcompares : comparesLiteral field = false := by
    simp [comparesLiteral, hne _ (rfl : isOperator "$eq" = true),
      hne _ (rfl : isOperator "$ne" = true), hne _ (rfl : isOperator "$lt" = true),
      hne _ (rfl : isOperator "$gt" = true), hne _ (rfl : isOperator "$lte" = true),
      hne _ (rfl : isOperator "$gte" = true)]
  have hlists : listsLiterals field = false := by
    simp [listsLiterals, hne _ (rfl : isOperator "$in" = true),
      hne _ (rfl : isOperator "$nin" = true)]
  simp [outline, hcompares, hlists, hne _ (rfl : isOperator "$expr" = true)]

theorem outline_single {field : String} (hfield : isOperator field = false) (test : String)
    (value : Bson) :
    outline (fieldTest field test value) = [(field, .document (outline [(test, value)]))] :=
  outline_field hfield _

theorem outline_join (c : Connective) (clauses : List Filter) :
    outline [(connectiveName c, .array (clauses.map .document))] =
      [(connectiveName c, .array ((clauses.map outline).map .document))] := by
  rw [← outlineValues_documents]
  cases c <;> rfl

section Negations

/-- The filters that are negated inside their field. -/
def NegatesInside (f : Filter) : Prop :=
  ∃ field tests, f = [(field, .document tests)] ∧ isOperator field = false ∧
    negatesInPlace tests = true

theorem negation_around {f : Filter} (h : ¬ NegatesInside f) :
    negation f = [("$nor", .array [.document f])] := by
  unfold negation
  split
  · next field tests =>
    split
    · next hplace =>
      rw [Bool.and_eq_true, Bool.not_eq_true'] at hplace
      exact absurd ⟨field, tests, rfl, hplace.1, hplace.2⟩ h
    · rfl
  · rfl

theorem negatesInPlace_of_names {tests others : List (String × Bson)}
    (h : tests.map (·.1) = others.map (·.1)) : negatesInPlace tests = negatesInPlace others := by
  have hall (tests : List (String × Bson)) : negatesInPlace tests =
      (!(tests.map (·.1)).isEmpty &&
        (tests.map (·.1)).all fun name => isOperator name && name != "$not") := by
    simp [negatesInPlace, List.all_map, Function.comp_def]
  rw [hall, hall, h]

/-- Whether a filter is negated inside its field is seen without its literals. -/
theorem NegatesInside.of_outline {f g : Filter} (hfg : outline f = outline g)
    (h : NegatesInside f) : ∃ field tests others, f = [(field, .document tests)] ∧
      g = [(field, .document others)] ∧ isOperator field = false ∧
      negatesInPlace tests = true ∧ negatesInPlace others = true ∧
      outline tests = outline others := by
  obtain ⟨field, tests, rfl, hfield, htests⟩ := h
  have hnames : [field] = g.map (·.1) := by
    rw [← outline_names g, ← hfg, outline_names, List.map_singleton]
  obtain ⟨⟨name, value⟩, rfl, rfl⟩ := List.map_eq_singleton_iff.mp hnames.symm
  rw [outline_field hfield, outline_field hfield] at hfg
  cases value with
  | document others =>
    have hothers : outline tests = outline others := by simpa [outlineValue] using hfg
    refine ⟨name, tests, others, rfl, rfl, hfield, htests, ?_, hothers⟩
    rw [← htests]
    apply negatesInPlace_of_names
    rw [← outline_names, ← hothers, outline_names]
  | _ => simp [outlineValue] at hfg

/-- No literal decides where a negation is put. -/
theorem negation_outline {f g : Filter} (hfg : outline f = outline g) :
    outline (negation f) = outline (negation g) := by
  by_cases h : NegatesInside f
  · obtain ⟨field, tests, others, rfl, rfl, hfield, htests, hothers, houtline⟩ := h.of_outline hfg
    have hinside {tests : List (String × Bson)} (h : negatesInPlace tests = true) :
        outline (negation [(field, .document tests)]) =
          [(field, .document (outline [("$not", .document tests)]))] := by
      simp only [negation, hfield, h, Bool.not_false, Bool.and_self, if_true]
      exact outline_field hfield _
    have hnot (tests : List (String × Bson)) :
        outline [("$not", .document tests)] = [("$not", .document (outline tests))] := rfl
    rw [hinside htests, hinside hothers, hnot, hnot, houtline]
  · have hg : ¬ NegatesInside g := by
      intro hinside
      obtain ⟨field, others, tests, rfl, rfl, hfield, -, htests, -⟩ := hinside.of_outline hfg.symm
      exact h ⟨field, tests, rfl, hfield, htests⟩
    have hnor (f : Filter) : outline [("$nor", .array [.document f])] =
        [("$nor", .array [.document (outline f)])] := rfl
    rw [negation_around h, negation_around hg, hnor, hnor, hfg]

end Negations

/-- The value has a document form. -/
def Encodes (v : Value) : Prop :=
  ∃ b, Bson.ofValue v = .ok b

theorem Encodes.items {values : List Value} (h : Encodes (.array values)) :
    ∀ v ∈ values, Encodes v := by
  obtain ⟨b, hb⟩ := h
  rw [Bson.ofValue, Except.map_eq_ok] at hb
  obtain ⟨items, hitems, -⟩ := hb
  induction values generalizing items with
  | nil => simp
  | cons v rest ih =>
    simp only [Bson.ofItems, Except.bind_eq_ok] at hitems
    obtain ⟨b, hb, bs, hbs, -⟩ := hitems
    simpa using ⟨⟨b, hb⟩, ih bs hbs⟩

theorem Encodes.literal {v : Value} (h : Encodes v) (withPrimary : Bool) :
    ∃ b, literal v withPrimary = .ok b := by
  obtain ⟨b, hb⟩ := h
  cases withPrimary with
  | false => exact ⟨b, hb⟩
  | true =>
    show ∃ b, Bson.ofKeyLiteral v = .ok b
    unfold Bson.ofKeyLiteral
    split
    · exact ⟨_, rfl⟩
    · exact ⟨b, hb⟩

theorem listed_length {values : List Value} (h : Encodes (.array values)) (hne : values ≠ [])
    (withPrimary : Bool) :
    ∃ items, listed values withPrimary = .ok items ∧ items.length = values.length := by
  have hmap : ∀ values : List Value, (∀ v ∈ values, Encodes v) →
      ∃ items, (values.mapM fun v => literal v withPrimary) = Except.ok items ∧
        items.length = values.length := by
    intro values
    induction values with
    | nil => exact fun _ => ⟨[], rfl, rfl⟩
    | cons v rest ih =>
      intro hall
      obtain ⟨b, hb⟩ := (hall v List.mem_cons_self).literal withPrimary
      obtain ⟨bs, hbs, hlength⟩ := ih fun w hw => hall w (List.mem_cons_of_mem v hw)
      refine ⟨b :: bs, ?_, by simp [hlength]⟩
      simp [List.mapM_cons, hb, hbs, bind, Except.bind, pure, Except.pure]
  rw [listed, if_neg (by simpa using hne)]
  exact hmap values h.items

/-- The literals of a condition. A list is one literal. -/
def literalFold : Predicate.Fold Pattern (List Value) where
  compare left _ right := left.literals ++ right.literals
  member left right _ := left.literals ++ right.literals
  between subject low high _ _ := subject.literals ++ low.literals ++ high.literals
  pattern subject _ _ := subject.literals
  not values := values
  join _ values := values.flatten

theorem literalFold_merges : literalFold.Merges where
  singleton _ _ := by simp [literalFold]
  append _ _ _ := by simp [literalFold]

def literals (p : Condition) : List Value :=
  p.fold literalFold

theorem literals_flat (p : Condition) : literals p.flat = literals p :=
  Predicate.fold_flat literalFold_merges p

section Leaves

variable {left left' right right' : Operand}

theorem outline_comparison {k : Key} (hk : isOperator (fieldName k) = false) {name : String}
    (hname : comparesLiteral name = true) (b : Bson) :
    outline (fieldTest (fieldName k) name b) = [(fieldName k, .document [(name, .null)])] := by
  rw [outline_single hk]
  simp [outline, hname]

/-- Tests of one field by one operator differ in their literals only. -/
theorem outline_comparisons {k : Key} (hk : isOperator (fieldName k) = false) {name : String}
    (hname : comparesLiteral name = true) (b c : Bson) :
    (pure (fieldTest (fieldName k) name b) : Except Error Filter).map outline =
      (pure (fieldTest (fieldName k) name c) : Except Error Filter).map outline := by
  simp only [pure, Except.pure, Except.map, outline_comparison hk hname]

theorem comparesLiteral_operatorName (op : Comparison) : comparesLiteral (operatorName op) = true := by
  cases op <;> rfl

theorem literal_bind_outline {v w : Value} (hv : Encodes v) (hw : Encodes w) (withPrimary : Bool)
    {f g : Bson → Except Error Filter} (hfg : ∀ b c, (f b).map outline = (g c).map outline) :
    (literal v withPrimary >>= f).map outline = (literal w withPrimary >>= g).map outline := by
  obtain ⟨b, hb⟩ := hv.literal withPrimary
  obtain ⟨c, hc⟩ := hw.literal withPrimary
  rw [hb, hc]
  exact hfg b c

theorem comparisonFilter_alike (hleft : left.Alike left') (op : Comparison)
    (hright : right.Alike right')
    (hkeys : ∀ k ∈ left.keys ++ right.keys, isOperator (fieldName k) = false)
    (hv : ∀ v ∈ left.literals ++ right.literals, Encodes v)
    (hw : ∀ v ∈ left'.literals ++ right'.literals, Encodes v) :
    (comparisonFilter left op right).map outline =
      (comparisonFilter left' op right').map outline := by
  cases hleft with
  | key k =>
    have hk := hkeys k (by simp [Operand.keys])
    cases hright with
    | key l => rfl
    | @literal v w _ =>
      apply literal_bind_outline (hv v (by simp [Operand.literals])) (hw w (by simp [Operand.literals]))
      exact outline_comparisons hk (comparesLiteral_operatorName op)
  | @literal v w _ =>
    cases hright with
    | key k =>
      have hk := hkeys k (by simp [Operand.keys])
      apply literal_bind_outline (hv v (by simp [Operand.literals])) (hw w (by simp [Operand.literals]))
      exact outline_comparisons hk (comparesLiteral_operatorName op.flipped)
    | literal _ => rfl

theorem outline_list {k : Key} (hk : isOperator (fieldName k) = false) {name : String}
    (hname : listsLiterals name = true) (items : List Bson) :
    outline (fieldTest (fieldName k) name (.array items)) =
      [(fieldName k, .document [(name, .array (List.replicate items.length .null))])] := by
  have hcompares : comparesLiteral name = false := by
    simp only [listsLiterals, List.contains_eq_mem, List.mem_cons, List.not_mem_nil, or_false,
      decide_eq_true_eq] at hname
    rcases hname with rfl | rfl <;> rfl
  rw [outline_single hk]
  simp [outline, hcompares, hname, blankItems, List.map_const']

/-- Something that is no list is not what a key is looked for in. -/
theorem membershipFilter_other {v : Value} (hv : v.asArray? = none) (k : Key) (negated : Bool) :
    membershipFilter (.key k) (.literal v) negated = invalid .documentMembershipOperands := by
  cases v with
  | array values => cases hv
  | _ => rfl

theorem membershipFilter_alike (hleft : left.Alike left') (hright : right.AlikeListed right')
    (negated : Bool) (hkeys : ∀ k ∈ left.keys ++ right.keys, isOperator (fieldName k) = false)
    (hv : ∀ v ∈ left.literals ++ right.literals, Encodes v)
    (hw : ∀ v ∈ left'.literals ++ right'.literals, Encodes v) :
    (membershipFilter left right negated).map outline =
      (membershipFilter left' right' negated).map outline := by
  cases hleft with
  | key k =>
    have hk := hkeys k (by simp [Operand.keys])
    cases hright with
    | key l => rfl
    | @list values others hlength =>
      by_cases hempty : values = []
      · subst hempty
        obtain rfl := List.length_eq_zero_iff.mp hlength.symm
        rfl
      · have hothers : others ≠ [] := by
          rintro rfl
          exact hempty (List.length_eq_zero_iff.mp hlength)
        obtain ⟨items, hitems, hcount⟩ :=
          listed_length (hv (.array values) (by simp [Operand.literals])) hempty (k = .primary)
        obtain ⟨items', hitems', hcount'⟩ :=
          listed_length (hw (.array others) (by simp [Operand.literals])) hothers (k = .primary)
        have hname : listsLiterals (if negated then "$nin" else "$in") = true := by
          cases negated <;> rfl
        show (listed values _ >>= _).map outline = (listed others _ >>= _).map outline
        rw [hitems, hitems']
        show Except.ok (outline _) = Except.ok (outline _)
        rw [outline_list hk hname, outline_list hk hname, hcount, hcount', hlength]
    | other hvalue hother _ =>
      rw [membershipFilter_other hvalue, membershipFilter_other hother]
  | @literal v w _ =>
    cases hright with
    | key k =>
      have hk := hkeys k (by simp [Operand.keys])
      have hname : comparesLiteral (if negated then "$ne" else "$eq") = true := by
        cases negated <;> rfl
      show (literal v false >>= _).map outline = (literal w false >>= _).map outline
      apply literal_bind_outline (hv v (by simp [Operand.literals])) (hw w (by simp [Operand.literals]))
      exact outline_comparisons hk hname
    | list _ => rfl
    | other _ _ _ => rfl

theorem eq_null_of_isNull {v : Value} (h : v.isNull = true) : v = .null := by
  cases v with
  | null => rfl
  | _ => cases h

theorem bound_literal {v : Value} (hv : ¬ v.isNull = true) (withPrimary : Bool) :
    bound withPrimary (.literal v) = literal v withPrimary := by
  cases v with
  | null => exact absurd rfl hv
  | _ => rfl

theorem bound_bind_outline (h : left.Alike left') (hv : ∀ v ∈ left.literals, Encodes v)
    (hw : ∀ v ∈ left'.literals, Encodes v) {withPrimary : Bool}
    {f g : Bson → Except Error Filter} (hfg : ∀ b c, (f b).map outline = (g c).map outline) :
    (bound withPrimary left >>= f).map outline = (bound withPrimary left' >>= g).map outline := by
  cases h with
  | key k => rfl
  | @literal v w hnull =>
    by_cases hv' : v.isNull = true
    · have hw' : w.isNull = true := hnull ▸ hv'
      rw [eq_null_of_isNull hv', eq_null_of_isNull hw']
      rfl
    · have hw' : ¬ w.isNull = true := hnull ▸ hv'
      rw [bound_literal hv', bound_literal hw']
      exact literal_bind_outline (hv v (by simp [Operand.literals]))
        (hw w (by simp [Operand.literals])) withPrimary hfg

theorem rangeFilter_alike {subject subject' low low' high high' : Operand}
    (hsubject : subject.Alike subject') (hlow : low.Alike low') (hhigh : high.Alike high')
    (exclusive negated : Bool)
    (hkeys : ∀ k ∈ subject.keys ++ low.keys ++ high.keys, isOperator (fieldName k) = false)
    (hv : ∀ v ∈ subject.literals ++ low.literals ++ high.literals, Encodes v)
    (hw : ∀ v ∈ subject'.literals ++ low'.literals ++ high'.literals, Encodes v) :
    (rangeFilter subject low high exclusive negated).map outline =
      (rangeFilter subject' low' high' exclusive negated).map outline := by
  simp only [List.mem_append] at hkeys hv hw
  cases hsubject with
  | literal _ => rfl
  | key k =>
    have hk := hkeys k (by simp [Operand.keys])
    unfold rangeFilter
    dsimp only
    apply bound_bind_outline hlow (fun v h => hv v (.inl (.inr h))) fun v h => hw v (.inl (.inr h))
    intro l l'
    apply bound_bind_outline hhigh (fun v h => hv v (.inr h)) fun v h => hw v (.inr h)
    intro h h'
    have hpair (c : Connective) {low high : String} (hlow : comparesLiteral low = true)
        (hhigh : comparesLiteral high = true) (l h : Bson) :
        outline [(connectiveName c, .array [.document (fieldTest (fieldName k) low l),
          .document (fieldTest (fieldName k) high h)])] =
        [(connectiveName c, .array [.document [(fieldName k, .document [(low, .null)])],
          .document [(fieldName k, .document [(high, .null)])]])] := by
      refine (outline_join c [_, _]).trans ?_
      rw [List.map_cons, List.map_singleton, outline_comparison hk hlow, outline_comparison hk hhigh]
      rfl
    cases negated <;> cases exclusive
    · exact congrArg Except.ok ((hpair .and rfl rfl l h).trans (hpair .and rfl rfl l' h').symm)
    · exact congrArg Except.ok ((hpair .and rfl rfl l h).trans (hpair .and rfl rfl l' h').symm)
    · exact congrArg Except.ok ((hpair .or rfl rfl l h).trans (hpair .or rfl rfl l' h').symm)
    · exact congrArg Except.ok ((hpair .or rfl rfl l h).trans (hpair .or rfl rfl l' h').symm)

theorem patternFilter_alike (hleft : left.Alike left') (test : Pattern) (negated : Bool) :
    patternFilter left test negated = patternFilter left' test negated := by
  cases hleft with
  | key k => rfl
  | literal _ => rfl

end Leaves

section Connectives

theorem filterOf_not_alike {p q : Condition}
    (h : (filterOf p).map outline = (filterOf q).map outline) :
    (filterOf (.not p)).map outline = (filterOf (.not q)).map outline := by
  rw [filterOf, filterOf]
  obtain ⟨e, hp, hq⟩ | ⟨f, g, hp, hq, hfg⟩ := Except.map_eq_map_cases h
  · rw [hp, hq]
  · rw [hp, hq]
    exact congrArg Except.ok (negation_outline hfg)

theorem filterOf_join_alike (c : Connective) {items others : List Condition}
    (h : (filtersOf items).map (List.map outline) = (filtersOf others).map (List.map outline)) :
    (filterOf (.join c items)).map outline = (filterOf (.join c others)).map outline := by
  rw [filterOf, filterOf]
  apply Except.map_bind_congr h
  intro clauses clauses' hclauses
  have hlength : clauses.length = clauses'.length := by
    simpa using congrArg List.length hclauses
  match clauses, clauses' with
  | [], [] => rfl
  | [f], [g] => simpa [Except.map, pure, Except.pure] using hclauses
  | f :: f' :: fs, g :: g' :: gs =>
    have hjoin := outline_join c (f :: f' :: fs)
    rw [hclauses, ← outline_join] at hjoin
    exact congrArg Except.ok hjoin

end Connectives

mutual

theorem filterOf_alike : ∀ p q : Condition, p.Alike q →
    (∀ k ∈ p.keys, isOperator (fieldName k) = false) → (∀ v ∈ literals p, Encodes v) →
    (∀ v ∈ literals q, Encodes v) → (filterOf p).map outline = (filterOf q).map outline
  | .compare _ op _, _, h => by
    intro hkeys hv hw
    cases h with
    | compare hleft _ hright => exact comparisonFilter_alike hleft op hright hkeys hv hw
  | .member _ _ negated, _, h => by
    intro hkeys hv hw
    cases h with
    | member hleft hright => exact membershipFilter_alike hleft hright negated hkeys hv hw
  | .between _ _ _ exclusive negated, _, h => by
    intro hkeys hv hw
    cases h with
    | between hsubject hlow hhigh =>
      exact rangeFilter_alike hsubject hlow hhigh exclusive negated hkeys hv hw
  | .pattern _ test negated, _, h => by
    intro _ _ _
    cases h with
    | pattern hsubject => rw [filterOf, filterOf, patternFilter_alike hsubject test negated]
  | .not p, _, h => by
    intro hkeys hv hw
    cases h with
    | @not _ q h => exact filterOf_not_alike (filterOf_alike p q h hkeys hv hw)
  | .join c items, _, h => by
    intro hkeys hv hw
    cases h with
    | @join _ _ others h =>
      exact filterOf_join_alike c (filtersOf_alike items others h hkeys hv hw)
termination_by structural p => p

theorem filtersOf_alike : ∀ items others : List Condition, Predicate.AllAlike items others →
    (∀ k ∈ (Predicate.foldAll Predicate.keyFold items).flatten, isOperator (fieldName k) = false) →
    (∀ v ∈ (Predicate.foldAll literalFold items).flatten, Encodes v) →
    (∀ v ∈ (Predicate.foldAll literalFold others).flatten, Encodes v) →
    (filtersOf items).map (List.map outline) = (filtersOf others).map (List.map outline)
  | [], _, .nil => fun _ _ _ => rfl
  | p :: rest, q :: others, .cons hp hrest => by
    intro hkeys hv hw
    have hhead := filterOf_alike p q hp (fun k hk => hkeys k (List.mem_append_left _ hk))
      (fun v h => hv v (List.mem_append_left _ h)) fun v h => hw v (List.mem_append_left _ h)
    have htail := filtersOf_alike rest others hrest (fun k hk => hkeys k (List.mem_append_right _ hk))
      (fun v h => hv v (List.mem_append_right _ h)) fun v h => hw v (List.mem_append_right _ h)
    rw [filtersOf, filtersOf]
    apply Except.map_bind_congr hhead
    intro f g hfg
    apply Except.map_bind_congr htail
    intro fs gs hrest
    simp [Except.map, pure, Except.pure, hfg, hrest]
termination_by structural items => items

end

/-- Conditions that differ in their literals only both fail, or have filters that differ in their
literals only: no literal decides on the name or on the place of a field. -/
theorem filters_differ_in_literals {p q : Condition} (h : p.Alike q)
    (hnames : ∀ name, Key.named name ∈ p.keys → isOperator name = false)
    (hp : ∀ v ∈ literals p, ∃ b, Bson.ofValue v = .ok b)
    (hq : ∀ v ∈ literals q, ∃ b, Bson.ofValue v = .ok b) :
    (∃ e, filter p = .error e ∧ filter q = .error e) ∨
      ∃ f g, filter p = .ok f ∧ filter q = .ok g ∧ outline f = outline g := by
  apply Except.map_eq_map_cases
  apply filterOf_alike _ _ h.flat
  · rw [Predicate.keys_flat]
    intro k hk
    cases k with
    | named name => exact hnames name hk
    | primary => decide
  · rw [literals_flat]
    exact hp
  · rw [literals_flat]
    exact hq

/-- A document with an operator for a field, and texts that look like paths, against plain literals. -/
theorem filters_differ_in_literals_documents :
    let a : Operand := .key (.named "a")
    let p (v : Value) (values : List Value) : Condition :=
      .join .or [.not (.compare (.literal v) .lt a), .member a (.literal (.array values)) true]
    let gt : Value := .map [("$gt", .string "$a")]
    ∃ f g, filter (p gt [gt, .array [.string "$b"]]) = .ok f ∧
      filter (p (.int 1) [.bool true, .null]) = .ok g ∧ outline f = outline g := by
  intro a p gt
  have halike : (p gt [gt, .array [.string "$b"]]).Alike (p (.int 1) [.bool true, .null]) := by
    refine .join .or (.cons (.not (.compare ?_ .lt ?_)) (.cons (.member ?_ ?_ true) .nil))
    · exact .literal rfl
    · exact .key _
    · exact .key _
    · exact .list rfl
  refine (filters_differ_in_literals halike ?_ ?_ ?_).resolve_left ?_
  · intro name hname
    have hname : name = "a" := by simpa [p, a, Predicate.keys, Predicate.fold, Predicate.foldAll,
      Predicate.keyFold, Operand.keys] using hname
    rw [hname]
    decide
  · show ∀ v ∈ [gt, .array [gt, .array [.string "$b"]]], Encodes v
    simpa using ⟨⟨_, rfl⟩, ⟨_, rfl⟩⟩
  · show ∀ v ∈ [.int 1, .array [.bool true, .null]], Encodes v
    simpa using ⟨⟨_, rfl⟩, ⟨_, rfl⟩⟩
  · rintro ⟨e, he, -⟩
    cases he

end Polystore.Document
