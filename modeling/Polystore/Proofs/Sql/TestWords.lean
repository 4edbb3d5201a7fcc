import Polystore.Proofs.Except
import Polystore.Proofs.Sql.Precedence

/-!
The words of each kind of test. Main statement of each part: the pieces that a test is compiled to
are read back as one factor, which has the truth of the test.
-/

namespace Polystore.Sql

open Expression

theorem ofPieces?_append {d : Dialect} {ps qs : List Piece} {ws vs : List Word}
    (hp : Word.ofPieces? d ps = some ws) (hq : Word.ofPieces? d qs = some vs) :
    Word.ofPieces? d (ps ++ qs) = some (ws ++ vs) := by
  induction ps generalizing ws with
  | nil =>
      obtain rfl : [] = ws := by simpa [Word.ofPieces?] using hp
      exact hq
  | cons p ps ih =>
      simp only [Word.ofPieces?, Option.bind_eq_bind, Option.bind_eq_some_iff,
        Option.some.injEq] at hp
      obtain ⟨first, hfirst, more, hmore, rfl⟩ := hp
      simp [Word.ofPieces?, hfirst, ih hmore]

theorem ofPieces?_cons {d : Dialect} {p : Piece} {ps : List Piece} {ws vs : List Word}
    (hp : Word.ofPiece? d p = some ws) (hps : Word.ofPieces? d ps = some vs) :
    Word.ofPieces? d (p :: ps) = some (ws ++ vs) := by
  simp [Word.ofPieces?, hp, hps]

theorem ofPieces?_singleton {d : Dialect} {p : Piece} {ws : List Word}
    (hp : Word.ofPiece? d p = some ws) : Word.ofPieces? d [p] = some ws := by
  simp [Word.ofPieces?, hp]

/-- No column that identifies a row is named like a word. -/
theorem ofPiece?_text {d : Dialect} {t : String} {ws : List Word} (h : Word.ofText? t = some ws) :
    Word.ofPiece? d (.text t) = some ws := by
  have hid : d.rowIdentity ≠ some t := by
    rintro hd
    cases d with
    | postgres =>
        obtain rfl : "ctid" = t := by simpa [Dialect.rowIdentity] using hd
        exact absurd (show none = some ws from h) (by simp)
    | mysql => simp [Dialect.rowIdentity] at hd
    | sqlite =>
        obtain rfl : "rowid" = t := by simpa [Dialect.rowIdentity] using hd
        exact absurd (show none = some ws from h) (by simp)
  simp [Word.ofPiece?, hid, h]

theorem ofPiece?_glue {d : Dialect} {t : String} {ws : List Word} (h : Word.ofText? t = some ws) :
    Word.ofPiece? d (.glue t) = some ws :=
  ofPiece?_text h

theorem ofText?_symbol (op : Comparison) : Word.ofText? op.symbol = some [.compare op] := by
  cases op <;> rfl

theorem ofPieces?_operand {d : Dialect} {o : Operand} {ps : List Piece}
    (h : operand d o = .ok ps) : Word.ofPieces? d ps = some [.operand o] := by
  cases o with
  | key k =>
      cases k with
      | named n =>
          obtain rfl : [Piece.name n] = ps := by simpa [operand] using h
          rfl
      | primary =>
          cases hd : d.rowIdentity with
          | none => simp [operand, hd, Dialect.unsupported] at h
          | some column =>
              obtain rfl : [Piece.text column] = ps := by simpa [operand, hd] using h
              exact ofPieces?_singleton (by simp [Word.ofPiece?, hd])
  | literal v =>
      obtain rfl : [Piece.bind v] = ps := by simpa [operand] using h
      rfl

theorem ofPieces?_grouped {d : Dialect} {ps : List Piece} {ws : List Word}
    (h : Word.ofPieces? d ps = some ws) :
    Word.ofPieces? d (grouped ps) = some (.opening :: ws ++ [.closing]) := by
  have hopen : Word.ofPiece? d (.text "(") = some [.opening] := ofPiece?_text rfl
  have hclose : Word.ofPiece? d (.glue ")") = some [.closing] := ofPiece?_glue rfl
  exact ofPieces?_append (ofPieces?_cons hopen h) (ofPieces?_singleton hclose)

/-- The pieces are read as one factor with the given truth. -/
def SpellsFactor (d : Dialect) (ps : List Piece) (m : {D : Type} → Valuation D → Truth) : Prop :=
  ∃ f : Factor, Word.ofPieces? d ps = some f.words ∧
    ∀ {D : Type} (v : Valuation D), v.truth f.expression = m v

/-- Two operands with words between them. -/
theorem ofPieces?_between {d : Dialect} {left right : Operand} {word : String} {ps : List Piece}
    {ws : List Word} (h : between d left word right = .ok ps) (hword : Word.ofText? word = some ws) :
    Word.ofPieces? d ps = some (.operand left :: (ws ++ [.operand right])) := by
  simp only [between, Except.bind_eq_ok, pure, Except.pure, Except.ok.injEq] at h
  obtain ⟨l, hl, r, hr, rfl⟩ := h
  have hrest := ofPieces?_cons (ofPiece?_text (d := d) hword) (ofPieces?_operand hr)
  simpa using ofPieces?_append (ofPieces?_operand hl) hrest

theorem between_spells {d : Dialect} {left right : Operand} {word : String} {ps : List Piece}
    {ws : List Word} {t : Test} (h : between d left word right = .ok ps)
    (hword : Word.ofText? word = some ws)
    (hread : ∀ rest, readTest (.operand left :: (ws ++ [.operand right]) ++ rest) = some (t, rest)) :
    SpellsFactor d ps fun v => v.test t :=
  ⟨.ofTest left _ t hread, ofPieces?_between h hword, fun _ => rfl⟩

theorem compare_spells {d : Dialect} {left right : Operand} (op : Comparison)
    {ps : List Piece} (h : between d left op.symbol right = .ok ps) :
    SpellsFactor d ps fun v => v.compare left op right := by
  have hread (rest : List Word) : readTest (.operand left :: ([.compare op] ++ [.operand right]) ++
      rest) = some (.compare left op right, rest) := by
    cases op <;> rfl
  exact between_spells h (ofText?_symbol op) hread

theorem nullWords_spells {d : Dialect} {subject : Operand} {ps : List Piece} {word : String}
    {ws : List Word} (negated : Bool) (hs : operand d subject = .ok ps)
    (hword : Word.ofText? word = some ws)
    (hread : ∀ rest, readTest (.operand subject :: (ws ++ [.null]) ++ rest) =
      some (.null subject negated, rest)) :
    SpellsFactor d (ps ++ [.text word, .text "NULL"]) fun v =>
      .negatedIf negated (v.nullTest subject) := by
  have hnull : Word.ofPieces? d [.text "NULL"] = some [.null] :=
    ofPieces?_singleton (ofPiece?_text rfl)
  have hwords := ofPieces?_append (ofPieces?_operand hs)
    (ofPieces?_cons (ofPiece?_text (d := d) hword) hnull)
  exact ⟨.ofTest subject _ _ hread, hwords, fun _ => rfl⟩

/-- The one dialect without an operator for the negated test negates the whole. -/
theorem notNull_spells {d : Dialect} {ps : List Piece} {m : {D : Type} → Valuation D → Truth}
    (h : SpellsFactor d ps m) :
    SpellsFactor d (.text "NOT (" :: ps ++ [.glue ")"]) fun v => (m v).not := by
  obtain ⟨f, hwords, htruth⟩ := h
  have hopen : Word.ofPiece? d (.text "NOT (") = some [.not, .opening] := ofPiece?_text rfl
  have hclose : Word.ofPiece? d (.glue ")") = some [.closing] := ofPiece?_glue rfl
  refine ⟨.not (.group (.ofTerm (.ofFactor f))), ?_, ?_⟩
  · exact ofPieces?_append (ofPieces?_cons hopen hwords) (ofPieces?_singleton hclose)
  · intro D v
    exact congrArg Truth.not (htruth v)

theorem nullTest_spells {d : Dialect} {subject : Operand} {op : Comparison} {ps : List Piece}
    (h : nullTest d subject op = .ok ps) :
    (op = .eq ∧ SpellsFactor d ps fun v => v.nullTest subject) ∨
      (op = .ne ∧ SpellsFactor d ps fun v => (v.nullTest subject).not) := by
  cases op with
  | eq =>
      simp only [nullTest, Comparison.isEquality, if_true, Except.bind_eq_ok, pure, Except.pure,
        Except.ok.injEq] at h
      obtain ⟨s, hs, rfl⟩ := h
      refine .inl ⟨rfl, ?_⟩
      cases d with
      | postgres => exact nullWords_spells false hs rfl fun _ => rfl
      | mysql => exact nullWords_spells false hs rfl fun _ => rfl
      | sqlite => exact nullWords_spells false hs rfl fun _ => rfl
  | ne =>
      simp only [nullTest, Comparison.isEquality, if_true, Except.bind_eq_ok, pure, Except.pure,
        Except.ok.injEq] at h
      obtain ⟨s, hs, rfl⟩ := h
      refine .inr ⟨rfl, ?_⟩
      cases d with
      | postgres => exact nullWords_spells true hs rfl fun _ => rfl
      | mysql => exact notNull_spells (nullWords_spells false hs rfl fun _ => rfl)
      | sqlite => exact nullWords_spells true hs rfl fun _ => rfl
  | lt => simp [nullTest, Comparison.isEquality, invalid] at h
  | gt => simp [nullTest, Comparison.isEquality, invalid] at h
  | le => simp [nullTest, Comparison.isEquality, invalid] at h
  | ge => simp [nullTest, Comparison.isEquality, invalid] at h

theorem comparison_spells {d : Dialect} {left right : Operand} {op : Comparison} {ps : List Piece}
    (h : comparison d left op right = .ok ps) :
    SpellsFactor d ps fun v => v.comparison left op right := by
  rw [comparison] at h
  split at h
  · simp [invalid] at h
  · cases hr : right.isNull with
    | true =>
        rw [hr] at h
        obtain ⟨rfl, hs⟩ | ⟨rfl, hs⟩ := nullTest_spells h
        · simpa only [Valuation.comparison, hr] using hs
        · simpa only [Valuation.comparison, hr] using hs
    | false =>
        cases hl : left.isNull with
        | true =>
            rw [hr, hl] at h
            obtain ⟨rfl, hs⟩ | ⟨rfl, hs⟩ := nullTest_spells h
            · simpa only [Valuation.comparison, hr, hl] using hs
            · simpa only [Valuation.comparison, hr, hl] using hs
        | false =>
            rw [hr, hl] at h
            have hs := compare_spells _ h
            cases op <;> simpa only [Valuation.comparison, hr, hl] using hs

/-- The words of a list of values. -/
def listWords : List Value → List Word
  | [] => []
  | [v] => [.operand (.literal v)]
  | v :: rest => .operand (.literal v) :: .comma :: listWords rest

theorem ofPieces?_bindList (d : Dialect) (values : List Value) :
    Word.ofPieces? d (bindList values) = some (listWords values) := by
  induction values with
  | nil => rfl
  | cons v rest ih =>
      cases rest with
      | nil => rfl
      | cons w rest =>
          have hcomma : Word.ofPiece? d (.glue ",") = some [.comma] := ofPiece?_glue rfl
          have hbind : Word.ofPiece? d (.bind v) = some [.operand (.literal v)] := rfl
          exact ofPieces?_cons hbind (ofPieces?_cons hcomma ih)

theorem readList_listWords (first : Value) (more : List Value) (rest : List Word) :
    readList (listWords (first :: more) ++ .closing :: rest) =
      some ((first :: more).map .literal, rest) := by
  induction more generalizing first with
  | nil => rfl
  | cons second more ih =>
      simp only [listWords, List.cons_append, readList, ih, Option.map_some, List.map_cons]

/-- A key among listed values. -/
theorem among_spells {d : Dialect} {subject : Operand} {ps : List Piece} {values : List Value}
    (hs : operand d subject = .ok ps) (hne : values ≠ []) (negated : Bool) :
    SpellsFactor d
      (ps ++ .text (if negated then "NOT IN" else "IN") :: grouped (bindList values)) fun v =>
        .negatedIf negated (v.among subject (values.map .literal)) := by
  obtain ⟨first, more, rfl⟩ := List.exists_cons_of_ne_nil hne
  have hlist := ofPieces?_grouped (ofPieces?_bindList d (first :: more))
  have hread (rest : List Word) := readList_listWords first more rest
  cases negated with
  | false =>
      have hin : Word.ofPiece? d (.text "IN") = some [.inWord] := ofPiece?_text rfl
      refine ⟨.ofTest subject (.inWord :: .opening :: listWords (first :: more) ++ [.closing])
        (.among subject ((first :: more).map .literal) false) ?_, ?_, fun _ => rfl⟩
      · intro rest
        simp only [List.cons_append, List.append_assoc, List.nil_append, readTest, readNamed,
          hread, Option.map_some]
      · exact ofPieces?_append (ofPieces?_operand hs) (ofPieces?_cons hin hlist)
  | true =>
      have hin : Word.ofPiece? d (.text "NOT IN") = some [.not, .inWord] := ofPiece?_text rfl
      refine ⟨.ofTest subject (.not :: .inWord :: .opening :: listWords (first :: more) ++
        [.closing]) (.among subject ((first :: more).map .literal) true) ?_, ?_, fun _ => rfl⟩
      · intro rest
        simp only [List.cons_append, List.append_assoc, List.nil_append, readTest, readNamed,
          hread, Option.map_some]
      · exact ofPieces?_append (ofPieces?_operand hs) (ofPieces?_cons hin hlist)

theorem element_spells {d : Dialect} {left right : Operand} {ls rs : List Piece}
    (hl : operand d left = .ok ls) (hr : operand d right = .ok rs) (negated : Bool) :
    SpellsFactor d (ls ++ .text (if negated then "<> ALL(" else "= ANY(") :: rs ++ [.glue ")"])
      fun v => .negatedIf negated (v.element left right) := by
  have hclose : Word.ofPieces? d [.glue ")"] = some [.closing] :=
    ofPieces?_singleton (ofPiece?_glue rfl)
  cases negated with
  | false =>
      have hword : Word.ofPiece? d (.text "= ANY(") = some [.compare .eq, .any, .opening] :=
        ofPiece?_text rfl
      refine ⟨.ofTest left [.compare .eq, .any, .opening, .operand right, .closing]
        (.element left right false) (fun _ => rfl), ?_, fun _ => rfl⟩
      have hright := ofPieces?_cons hword (ofPieces?_operand hr)
      exact ofPieces?_append (ofPieces?_append (ofPieces?_operand hl) hright) hclose
  | true =>
      have hword : Word.ofPiece? d (.text "<> ALL(") = some [.compare .ne, .all, .opening] :=
        ofPiece?_text rfl
      refine ⟨.ofTest left [.compare .ne, .all, .opening, .operand right, .closing]
        (.element left right true) (fun _ => rfl), ?_, fun _ => rfl⟩
      have hright := ofPieces?_cons hword (ofPieces?_operand hr)
      exact ofPieces?_append (ofPieces?_append (ofPieces?_operand hl) hright) hclose

theorem elementOf_spells {d : Dialect} {left : Operand} {k : Key} {negated : Bool}
    {ps : List Piece}
    (h : (if d.hasArrays then do
        let e ← operand d left
        let a ← operand d (.key k)
        pure (e ++ .text (if negated then "<> ALL(" else "= ANY(") :: a ++ [.glue ")"])
      else d.unsupported "array membership") = Except.ok (ε := Error) ps) :
    SpellsFactor d ps fun v => .negatedIf negated (v.element left (.key k)) := by
  split at h
  · simp only [Except.bind_eq_ok, pure, Except.pure, Except.ok.injEq] at h
    obtain ⟨e, he, a, ha, rfl⟩ := h
    exact element_spells he ha negated
  · simp [Dialect.unsupported] at h

theorem membership_spells {d : Dialect} {left right : Operand} {negated : Bool} {ps : List Piece}
    (h : membership d left right negated = .ok ps) :
    SpellsFactor d ps fun v => .negatedIf negated (v.membership left right) := by
  unfold membership at h
  split at h
  · next k values =>
      split at h
      · simp [invalid] at h
      · next hne =>
          simp only [Except.bind_eq_ok, pure, Except.pure, Except.ok.injEq] at h
          obtain ⟨s, hs, rfl⟩ := h
          exact among_spells hs (by simpa using hne) negated
  · exact elementOf_spells h
  · simp [invalid] at h

theorem like_spells {d : Dialect} {subject pattern : Operand} {negated : Bool} {ps : List Piece}
    (h : like d subject pattern negated = .ok ps) :
    SpellsFactor d ps fun v => .negatedIf negated (v.like subject pattern) := by
  unfold like at h
  split at h
  · simp [invalid] at h
  · cases negated with
    | false => exact between_spells (t := .like subject pattern false) h rfl fun _ => rfl
    | true => exact between_spells (t := .like subject pattern true) h rfl fun _ => rfl

/-- Being at least a lower end is the same from both sides. -/
theorem compare_le_eq_ge {D : Type} (v : Valuation D) (low subject : Operand) :
    v.compare low .le subject = v.compare subject .ge low := by
  unfold Valuation.compare
  cases v.operand low <;> cases v.operand subject <;> rfl

theorem compare_lt_eq_not_ge {D : Type} (v : Valuation D) (left right : Operand) :
    v.compare left .lt right = (v.compare left .ge right).not := by
  unfold Valuation.compare
  cases v.operand left with
  | none => rfl
  | some a =>
      cases v.operand right with
      | none => rfl
      | some b => cases h : v.less a b <;> simp [Valuation.holds, h, Truth.ofBool, Truth.not]

theorem compare_ge_eq_not_lt {D : Type} (v : Valuation D) (left right : Operand) :
    v.compare left .ge right = (v.compare left .lt right).not := by
  rw [compare_lt_eq_not_ge, Truth.not_not]

theorem inclusive_spells {d : Dialect} {subject low high : Operand} {negated : Bool}
    {first last : List Piece}
    (hfirst : between d subject (if negated then "NOT BETWEEN" else "BETWEEN") low = .ok first)
    (hlast : operand d high = .ok last) :
    SpellsFactor d (first ++ .text "AND" :: last) fun v =>
      .negatedIf negated (v.range subject low high false) := by
  have hand : Word.ofPiece? d (.text "AND") = some [.and] := ofPiece?_text rfl
  have hhigh := ofPieces?_cons hand (ofPieces?_operand hlast)
  cases negated with
  | false =>
      refine ⟨.ofTest subject [.between, .operand low, .and, .operand high]
        (.range subject low high false) (fun _ => rfl), ?_, ?_⟩
      · exact ofPieces?_append (ofPieces?_between hfirst rfl) hhigh
      · intro D v
        exact congrArg (Truth.and · _) (compare_le_eq_ge v low subject).symm
  | true =>
      refine ⟨.ofTest subject [.not, .between, .operand low, .and, .operand high]
        (.range subject low high true) (fun _ => rfl), ?_, ?_⟩
      · exact ofPieces?_append (ofPieces?_between hfirst rfl) hhigh
      · intro D v
        exact congrArg (fun t => (Truth.and t _).not) (compare_le_eq_ge v low subject).symm

/-- A range without its upper end is two tests between brackets. -/
theorem exclusive_spells {d : Dialect} {subject low high : Operand} {negated : Bool}
    {first second : List Piece}
    (hfirst : between d subject (if negated then "<" else ">=") low = .ok first)
    (hsecond : between d subject (if negated then ">=" else "<") high = .ok second) :
    SpellsFactor d (grouped (first ++ .text (if negated then "OR" else "AND") :: second)) fun v =>
      .negatedIf negated (v.range subject low high true) := by
  cases negated with
  | false =>
      obtain ⟨f, hf, htf⟩ := compare_spells .ge hfirst
      obtain ⟨g, hg, htg⟩ := compare_spells .lt hsecond
      have hand : Word.ofPiece? d (.text "AND") = some [.and] := ofPiece?_text rfl
      refine ⟨.group (.ofTerm ⟨f, [g]⟩), ?_, ?_⟩
      · exact ofPieces?_grouped (ofPieces?_append hf (ofPieces?_cons hand hg))
      · intro D v
        calc v.truth (.and f.expression g.expression)
          _ = (v.compare subject .ge low).and (v.compare subject .lt high) := by
            rw [Valuation.truth, htf v, htg v]
          _ = v.range subject low high true := by
            rw [← compare_le_eq_ge]
            rfl
  | true =>
      obtain ⟨f, hf, htf⟩ := compare_spells .lt hfirst
      obtain ⟨g, hg, htg⟩ := compare_spells .ge hsecond
      have hor : Word.ofPiece? d (.text "OR") = some [.or] := ofPiece?_text rfl
      refine ⟨.group ⟨.ofFactor f, [.ofFactor g]⟩, ?_, ?_⟩
      · exact ofPieces?_grouped (ofPieces?_append hf (ofPieces?_cons hor hg))
      · intro D v
        calc v.truth (.or f.expression g.expression)
          _ = (v.compare subject .lt low).or (v.compare subject .ge high) := by
            rw [Valuation.truth, htf v, htg v]
          _ = ((v.compare subject .ge low).and (v.compare subject .lt high)).not := by
            rw [Truth.not_and, ← compare_lt_eq_not_ge, ← compare_ge_eq_not_lt]
          _ = (v.range subject low high true).not := by
            rw [← compare_le_eq_ge]
            rfl

theorem range_spells {d : Dialect} {subject low high : Operand} {exclusive negated : Bool}
    {ps : List Piece} (h : range d subject low high exclusive negated = .ok ps) :
    SpellsFactor d ps fun v => .negatedIf negated (v.range subject low high exclusive) := by
  unfold range at h
  split at h
  · simp [invalid] at h
  · split at h
    · simp [invalid] at h
    · cases exclusive with
      | true =>
          simp only [if_true, Except.bind_eq_ok, pure, Except.pure, Except.ok.injEq] at h
          obtain ⟨first, hfirst, second, hsecond, rfl⟩ := h
          exact exclusive_spells hfirst hsecond
      | false =>
          simp only [Bool.false_eq_true, if_false, Except.bind_eq_ok, pure, Except.pure,
            Except.ok.injEq] at h
          obtain ⟨first, hfirst, last, hlast, rfl⟩ := h
          exact inclusive_spells hfirst hlast

end Polystore.Sql
