import Mathlib.Data.List.Forall2
import Polystore.Proofs.Sql.TestWords

/-!
Compiled conditions keep their meaning. Every test is written as one factor and every join as a term
or a sum, so that the pieces are read back with the structure that they were written from.
-/

namespace Polystore.Sql

open Expression

mutual

/-- No item of a join is a join of the same connective. -/
def IsFlat : Condition → Prop
  | .not p => IsFlat p
  | .join c items => AreFlat c items
  | _ => True
termination_by structural p => p

/-- Conditions that can be the items of a join. -/
def AreFlat (c : Connective) : List Condition → Prop
  | [] => True
  | p :: rest => (∀ items, p ≠ .join c items) ∧ IsFlat p ∧ AreFlat c rest
termination_by structural items => items

end

theorem areFlat_append {c : Connective} {p q : List Condition} (hp : AreFlat c p)
    (hq : AreFlat c q) : AreFlat c (p ++ q) := by
  induction p with
  | nil => exact hq
  | cons a p ih => exact ⟨hp.1, hp.2.1, ih hp.2.2⟩

mutual

theorem isFlat_flat : ∀ p : Condition, IsFlat p.flat
  | .compare _ _ _ => trivial
  | .member _ _ _ => trivial
  | .between _ _ _ _ _ => trivial
  | .pattern _ _ _ => trivial
  | .not p => isFlat_flat p
  | .join c items => areFlat_terms c items

theorem areFlat_term (c : Connective) : ∀ p : Condition, AreFlat c (p.term c)
  | .compare _ _ _ => ⟨by simp, trivial, trivial⟩
  | .member _ _ _ => ⟨by simp, trivial, trivial⟩
  | .between _ _ _ _ _ => ⟨by simp, trivial, trivial⟩
  | .pattern _ _ _ => ⟨by simp, trivial, trivial⟩
  | .not p => ⟨by simp, isFlat_flat p, trivial⟩
  | .join d items => by
    rw [Predicate.term]
    split
    · exact areFlat_terms c items
    · next h =>
        refine ⟨?_, areFlat_terms d items, trivial⟩
        rintro other heq
        exact h (by simpa using (Predicate.join.inj heq).1.symm)

theorem areFlat_terms (c : Connective) : ∀ items : List Condition,
    AreFlat c (Predicate.terms c items)
  | [] => trivial
  | p :: rest => areFlat_append (areFlat_term c p) (areFlat_terms c rest)

end

/-- The pieces are the words of a sum that says what the condition says. A condition that has no
brackets around it in a conjunction is one term. -/
def Spells (d : Dialect) (ps : List Piece) (p : Condition) : Prop :=
  ∃ s : Sum, Word.ofPieces? d ps = some s.words ∧
    (∀ {D : Type} (v : Valuation D), s.truth v = v.meaning p) ∧
    (isAlternative p = false → s.rest = [])

/-- The pieces are the words of a term that says what the condition says. -/
def SpellsTerm (d : Dialect) (p : Condition) (ps : List Piece) : Prop :=
  ∃ t : Term, Word.ofPieces? d ps = some t.words ∧
    ∀ {D : Type} (v : Valuation D), t.truth v = v.meaning p

theorem spells_of_factor {d : Dialect} {ps : List Piece} {p : Condition}
    (h : SpellsFactor d ps fun v => v.meaning p) : Spells d ps p := by
  obtain ⟨f, hwords, htruth⟩ := h
  exact ⟨.ofTerm (.ofFactor f), hwords, fun v => by simpa using htruth v, fun _ => rfl⟩

theorem spellsFactor_grouped {d : Dialect} {ps : List Piece} {p : Condition} (h : Spells d ps p) :
    SpellsFactor d (grouped ps) fun v => v.meaning p := by
  obtain ⟨s, hwords, htruth, -⟩ := h
  refine ⟨.group s, ofPieces?_grouped hwords, ?_⟩
  intro D v
  exact (s.truth_expression v).trans (htruth v)

theorem spellsTerm_of_factor {d : Dialect} {ps : List Piece} {p : Condition}
    (h : SpellsFactor d ps fun v => v.meaning p) : SpellsTerm d p ps := by
  obtain ⟨f, hwords, htruth⟩ := h
  exact ⟨.ofFactor f, hwords, fun v => by simpa using htruth v⟩

theorem spellsTerm_of_spells {d : Dialect} {ps : List Piece} {p : Condition} (h : Spells d ps p)
    (hp : isAlternative p = false) : SpellsTerm d p ps := by
  obtain ⟨⟨t, rest⟩, hwords, htruth, hrest⟩ := h
  obtain rfl : rest = [] := hrest hp
  exact ⟨t, hwords, fun v => by simpa using (Sum.truth_ofTerm v t).symm.trans (htruth v)⟩

/-- Terms with AND between them are one term. -/
theorem and_spells {d : Dialect} {items : List Condition} {terms : List (List Piece)}
    (h : List.Forall₂ (SpellsTerm d) items terms) (hne : terms ≠ []) :
    SpellsTerm d (.join .and items) ([Piece.text "AND"].intercalate terms) := by
  induction h with
  | nil => exact absurd rfl hne
  | @cons p term items terms hp hrest ih =>
      obtain ⟨t, hwords, htruth⟩ := hp
      cases hrest with
      | nil =>
          refine ⟨t, by simpa [List.intercalate] using hwords, ?_⟩
          intro D v
          simp [htruth v, Valuation.meaning, Valuation.meanings]
      | @cons q term' items terms hq hrest =>
          obtain ⟨u, hwords', htruth'⟩ := ih (by simp)
          have hand : Word.ofPiece? d (.text "AND") = some [.and] := ofPiece?_text rfl
          refine ⟨t.append u, ?_, ?_⟩
          · rw [Term.words_append]
            have := ofPieces?_append hwords (ofPieces?_cons hand hwords')
            simpa [List.intercalate] using this
          · intro D v
            rw [Term.truth_append, htruth v, htruth' v]
            rfl

/-- Terms with OR between them are one sum of as many terms. -/
theorem or_spells {d : Dialect} {items : List Condition} {terms : List (List Piece)}
    (h : List.Forall₂ (SpellsTerm d) items terms) (hne : terms ≠ []) :
    ∃ s : Sum, Word.ofPieces? d ([Piece.text "OR"].intercalate terms) = some s.words ∧
      (∀ {D : Type} (v : Valuation D), s.truth v = v.meaning (.join .or items)) ∧
      s.rest.length + 1 = items.length := by
  induction h with
  | nil => exact absurd rfl hne
  | @cons p term items terms hp hrest ih =>
      obtain ⟨t, hwords, htruth⟩ := hp
      cases hrest with
      | nil =>
          refine ⟨.ofTerm t, by simpa [List.intercalate] using hwords, ?_, rfl⟩
          intro D v
          simp [htruth v, Valuation.meaning, Valuation.meanings]
      | @cons q term' items terms hq hrest =>
          obtain ⟨s, hwords', htruth', hlength⟩ := ih (by simp)
          have hor : Word.ofPiece? d (.text "OR") = some [.or] := ofPiece?_text rfl
          refine ⟨(Sum.ofTerm t).append s, ?_, ?_, ?_⟩
          · rw [Sum.words_append]
            have := ofPieces?_append hwords (ofPieces?_cons hor hwords')
            simpa [List.intercalate] using this
          · intro D v
            rw [Sum.truth_append, Sum.truth_ofTerm, htruth v, htruth' v]
            rfl
          · simp only [Sum.append, Sum.ofTerm, List.nil_append, List.length_cons] at hlength ⊢
            omega

theorem join_spells {d : Dialect} {c : Connective} {items : List Condition}
    {terms : List (List Piece)} (h : List.Forall₂ (SpellsTerm d) items terms) (hne : terms ≠ []) :
    Spells d ([Piece.text (connectiveWord c)].intercalate terms) (.join c items) := by
  cases c with
  | and =>
      obtain ⟨t, hwords, htruth⟩ := and_spells h hne
      exact ⟨.ofTerm t, hwords, fun v => by simpa using htruth v, fun _ => rfl⟩
  | or =>
      obtain ⟨s, hwords, htruth, hlength⟩ := or_spells h hne
      refine ⟨s, hwords, htruth, ?_⟩
      intro halone
      apply List.eq_nil_of_length_eq_zero
      simp only [isAlternative, decide_eq_false_iff_not] at halone
      omega

/-- A condition in a disjunction needs no brackets, since it is no disjunction itself. -/
theorem isAlternative_of_ne_or {p : Condition} (h : ∀ items, p ≠ .join .or items) :
    isAlternative p = false := by
  unfold isAlternative
  split
  · next items => exact absurd rfl (h items)
  · rfl

theorem spellsTerm_of_item {d : Dialect} {c : Connective} {p : Condition} {ps : List Piece}
    (h : Spells d ps p) (hc : ∀ items, p ≠ .join c items) :
    SpellsTerm d p (if c = .and && isAlternative p then grouped ps else ps) := by
  cases c with
  | and =>
      cases hp : isAlternative p with
      | true => exact spellsTerm_of_factor (spellsFactor_grouped h)
      | false => exact spellsTerm_of_spells h hp
  | or => exact spellsTerm_of_spells h (isAlternative_of_ne_or hc)

theorem not_spells {d : Dialect} {p : Condition} {ps : List Piece} (h : Spells d ps p)
    (hcompare : isComparison p = true → SpellsFactor d ps fun v => v.meaning p) :
    Spells d (.text "NOT" :: if isComparison p then ps else grouped ps) (.not p) := by
  have hnot : Word.ofPiece? d (.text "NOT") = some [.not] := ofPiece?_text rfl
  have hinner : SpellsFactor d (if isComparison p then ps else grouped ps)
      fun v => v.meaning p := by
    split
    · next hp => exact hcompare hp
    · exact spellsFactor_grouped h
  obtain ⟨f, hwords, htruth⟩ := hinner
  refine spells_of_factor ⟨f.not, ofPieces?_cons hnot hwords, ?_⟩
  intro D v
  exact congrArg Truth.not (htruth v)

theorem comparison_factor {d : Dialect} {p : Condition} {ps : List Piece}
    (h : pieces d p = .ok ps) (hp : isComparison p = true) :
    SpellsFactor d ps fun v => v.meaning p := by
  cases p with
  | compare left op right => exact comparison_spells h
  | member _ _ _ => simp [isComparison] at hp
  | between _ _ _ _ _ => simp [isComparison] at hp
  | pattern _ _ _ => simp [isComparison] at hp
  | not _ => simp [isComparison] at hp
  | join _ _ => simp [isComparison] at hp

mutual

theorem pieces_spells {d : Dialect} : ∀ (p : Condition) (ps : List Piece), IsFlat p →
    pieces d p = .ok ps → Spells d ps p
  | .compare _ _ _, _, _, h => spells_of_factor (comparison_spells h)
  | .member _ _ _, _, _, h => spells_of_factor (membership_spells h)
  | .between _ _ _ _ _, _, _, h => spells_of_factor (range_spells h)
  | .pattern _ _ _, _, _, h => spells_of_factor (like_spells h)
  | .not p, ps, hflat, h => by
    simp only [pieces, Except.bind_eq_ok, pure, Except.pure, Except.ok.injEq] at h
    obtain ⟨inner, hinner, rfl⟩ := h
    exact not_spells (pieces_spells p inner hflat hinner) (comparison_factor hinner)
  | .join c items, ps, hflat, h => by
    simp only [pieces, Except.bind_eq_ok] at h
    obtain ⟨terms, hterms, h⟩ := h
    have hitems := termPieces_spells c items terms hflat hterms
    split at h
    · simp [invalid] at h
    · next hne =>
        obtain rfl : _ = ps := by simpa [pure, Except.pure] using h
        exact join_spells hitems (by simpa using hne)

theorem termPieces_spells {d : Dialect} (c : Connective) : ∀ (items : List Condition)
    (terms : List (List Piece)), AreFlat c items → termPieces d c items = .ok terms →
    List.Forall₂ (SpellsTerm d) items terms
  | [], terms, _, h => by
    obtain rfl : [] = terms := by simpa [termPieces] using h
    exact .nil
  | p :: rest, terms, hflat, h => by
    simp only [termPieces, Except.bind_eq_ok, pure, Except.pure, Except.ok.injEq] at h
    obtain ⟨term, hterm, more, hmore, rfl⟩ := h
    exact .cons (spellsTerm_of_item (pieces_spells p term hflat.2.1 hterm) hflat.1)
      (termPieces_spells c rest more hflat.2.2 hmore)

end

/-- Whatever a condition is compiled to, in any dialect, is read with the precedence of SQL as an
expression that has the truth of the condition on every row. -/
theorem compile_preserves_meaning (d : Dialect) (p : Condition) (f : Fragment)
    (h : compile d p = .ok f) :
    ∃ e, Expression.ofPieces? d f.pieces = some e ∧
      ∀ {D : Type} (v : Valuation D), v.truth e = v.meaning p := by
  simp only [compile, Except.bind_eq_ok, pure, Except.pure, Except.ok.injEq] at h
  obtain ⟨ps, hps, rfl⟩ := h
  obtain ⟨s, hwords, htruth, -⟩ := pieces_spells p.flat ps (isFlat_flat p) hps
  refine ⟨s.expression, ?_, ?_⟩
  · simp only [Expression.ofPieces?, hwords, Option.bind_eq_bind, Option.bind_some]
    exact s.ofWords?_words
  · intro D v
    rw [s.truth_expression, htruth v, v.meaning_flat]

/-- A negated test for null and a half-open range in a disjunction, where nulls have no negated
test. -/
theorem compile_preserves_meaning_mysql :
    let a : Operand := .key (.named "a")
    let b : Operand := .key (.named "b")
    let p : Condition := .join .and [.not (.compare a .ne (.literal .null)),
      .join .or [.compare b .eq (.literal (.bool true)), .between b a (.literal (.bool true)) true true]]
    ∃ f, compile .mysql p = .ok f ∧ ∃ e, Expression.ofPieces? .mysql f.pieces = some e ∧
      ∀ {D : Type} (v : Valuation D), v.truth e = v.meaning p :=
  ⟨_, rfl, compile_preserves_meaning .mysql _ _ rfl⟩

end Polystore.Sql
