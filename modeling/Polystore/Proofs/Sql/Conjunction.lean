import Polystore.Proofs.Sql.Cores
import Polystore.Proofs.Sql.Independence
import Polystore.Proofs.Sql.Wording
import Polystore.Proofs.Text.Split

/-!
Conditions in statements. Main statement: the text behind WHERE is read as the conjunction of all
conditions that were added, and the text behind HAVING or ON as the one condition that was given.
-/

namespace Polystore.Sql

open Fragment

section Conditions

variable {d : Dialect} {p : Condition} {ps : List Piece}

/-- A condition among others is one term. -/
theorem standing_spells (h : standing d p = .ok ps) : SpellsTerm d p ps := by
  obtain ⟨f, hf, rfl⟩ := Except.map_eq_ok.mp h
  simp only [compile, Except.bind_eq_ok, pure, Except.pure, Except.ok.injEq] at hf
  obtain ⟨qs, hqs, rfl⟩ := hf
  have hspells := pieces_spells p.flat qs (isFlat_flat p) hqs
  have hflat : SpellsTerm d p.flat (if isAlternative p.flat then grouped qs else qs) := by
    split
    · exact spellsTerm_of_factor (spellsFactor_grouped hspells)
    · next hp => exact spellsTerm_of_spells hspells (Bool.eq_false_iff.mpr hp)
  obtain ⟨t, hwords, htruth⟩ := hflat
  exact ⟨t, hwords, fun v => (htruth v).trans (v.meaning_flat p)⟩

theorem standing_renamed (f : String → String) (h : standing d p = .ok ps) :
    standing d (p.renamed f) = .ok (ps.map (Piece.renamed f)) := by
  obtain ⟨g, hg, rfl⟩ := Except.map_eq_ok.mp h
  simp only [compile, Except.bind_eq_ok, pure, Except.pure, Except.ok.injEq] at hg
  obtain ⟨qs, hqs, rfl⟩ := hg
  have hrenamed : compile d (p.renamed f) = .ok ⟨qs.map (Piece.renamed f)⟩ := by
    rw [compile, Predicate.flat_renamed, pieces_renamed p.flat qs hqs]
    rfl
  rw [standing, hrenamed, Predicate.flat_renamed, Except.map, isAlternative_renamed]
  split
  · rw [grouped_renamed]
  · rfl

theorem meanings_eq_map {D : Type} (v : Valuation D) (items : List Condition) :
    v.meanings items = items.map v.meaning := by
  induction items with
  | nil => rfl
  | cons p rest ih => rw [Valuation.meanings, ih, List.map_cons]

/-- The text of a term is read as what it says, with names in the case of the dialect. -/
theorem reads_term {binds : List Value} {base : Nat} (hworded : Worded d conditionTexts ps)
    (hspells : SpellsTerm d p (ps.map (Piece.renamed d.foldName)))
    (hbinds : boundValues ps <+: binds.drop base) :
    ∃ e, Expression.ofLexemes? d binds (base + 1) (written d (base + 1) ps) = some e ∧
      ∀ {D : Type} (v : Valuation D), v.truth e = v.meaning p := by
  obtain ⟨t, hwords, htruth⟩ := hspells
  refine ⟨(Sum.ofTerm t).expression, ?_, ?_⟩
  · rw [Expression.ofLexemes?, read_written hworded base hbinds, hwords]
    exact (Sum.ofTerm t).ofWords?_words
  · intro D v
    rw [Sum.truth_expression, Sum.truth_ofTerm, htruth v]

/-- Conditions as they stand after each other. -/
theorem conjunction_spells {conditions : List Condition} {terms : List (List Piece)}
    (h : List.Forall₂ (fun q term => standing d q = .ok term) conditions terms) (hne : terms ≠ []) :
    SpellsTerm d (.join .and (conditions.map (Predicate.renamed d.foldName)))
      (([Piece.text "AND"].intercalate terms).map (Piece.renamed d.foldName)) := by
  rw [intercalate_renamed]
  refine and_spells ?_ (by simpa using hne)
  rw [List.forall₂_map_left_iff, List.forall₂_map_right_iff]
  exact h.imp fun q term hq => standing_spells (standing_renamed d.foldName hq)

theorem conjunction_phrase {conditions : List Condition} {terms : List (List Piece)}
    (h : List.Forall₂ (fun q term => standing d q = .ok term) conditions terms) (hne : terms ≠ []) :
    Phrase d ([Piece.text "AND"].intercalate terms) := by
  refine intercalate_phrase (by decide) ?_ hne
  clear hne
  induction h with
  | nil => exact fun _ hterm => absurd hterm List.not_mem_nil
  | cons hq _ ih => exact List.forall_mem_cons.mpr ⟨standing_phrase hq, ih⟩

theorem conjunction_binds {conditions : List Condition} {terms : List (List Piece)}
    (h : List.Forall₂ (fun q term => standing d q = .ok term) conditions terms) :
    Binds ([Piece.text "AND"].intercalate terms) (conditions.map Predicate.literals).flatten := by
  refine intercalate_binds "AND" ?_
  rw [List.forall₂_map_right_iff]
  exact h.flip.imp fun term q hq => standing_binds hq

end Conditions

/-- What a statement with conditions begins with. -/
inductive Opening : List Clause → Prop
  | select (columns : List String) (table : String) : Opening [.select columns, .from table]
  | update (table : String) (first : String × Value) (rest : List (String × Value)) :
    Opening (.update table :: (first :: rest).map fun entry => .set entry.1 entry.2)
  | deleteFrom (table : String) : Opening [.deleteFrom table]

/-- The texts before the conditions of such a statement. -/
def openingTexts : List String :=
  ["SELECT", "*", "FROM", "UPDATE", "SET", "=", "DELETE FROM", ","]

/-- A word that is a placeholder. -/
def Lexeme.isMark (d : Dialect) : Lexeme → Bool
  | .name _ => false
  | .word text => d.placeholder.isMark text

section Openings

variable {d : Dialect} {opening : List Clause} {texts : List String} {a b : List Piece}

theorem Opening.plain (h : Opening opening) :
    ∀ c ∈ opening, c.failure? d = none ∧ c.isWhere = false := by
  intro c hc
  cases h with
  | select columns table =>
    simp only [List.mem_cons, List.not_mem_nil, or_false] at hc
    obtain rfl | rfl := hc <;> exact ⟨rfl, rfl⟩
  | update table first rest =>
    obtain rfl | hset := List.mem_cons.mp hc
    · exact ⟨rfl, rfl⟩
    · obtain ⟨entry, -, rfl⟩ := List.mem_map.mp hset
      exact ⟨rfl, rfl⟩
  | deleteFrom table =>
    obtain rfl := List.mem_singleton.mp hc
    exact ⟨rfl, rfl⟩

theorem among_nameList : ∀ columns : List String,
    ∀ piece ∈ Statement.nameList columns, piece.IsAmong openingTexts
  | [] => fun _ h => absurd h List.not_mem_nil
  | [_] => by simp [Statement.nameList, Piece.IsAmong]
  | _ :: next :: rest => List.forall_mem_cons.mpr ⟨trivial, List.forall_mem_cons.mpr
      ⟨⟨by decide, .inl rfl⟩, among_nameList (next :: rest)⟩⟩

theorem among_columnList (columns : List String) :
    ∀ piece ∈ Statement.columnList columns, piece.IsAmong openingTexts := by
  rw [Statement.columnList]
  split
  · exact List.forall_mem_singleton.mpr (by decide : "*" ∈ openingTexts)
  · exact among_nameList columns

theorem among_sets (entries : List (String × Value)) {s : Statement}
    (h : ∀ piece ∈ s.fragment.pieces, piece.IsAmong openingTexts) :
    ∀ piece ∈ ((entries.map fun entry => Clause.set entry.1 entry.2).foldl Statement.push
      s).fragment.pieces, piece.IsAmong openingTexts := by
  induction entries generalizing s with
  | nil => exact h
  | cons entry rest ih =>
    refine ih ?_
    have hgrows := (Statement.openClause_grows s .set).add
      [.name entry.1, .text "=", .bind entry.2]
    change ∀ piece ∈ ((s.openClause .set).add _).fragment.pieces, _
    rw [hgrows.pieces]
    refine List.forall_mem_append.mpr ⟨h, List.forall_mem_cons.mpr ⟨?_, ?_⟩⟩
    · split
      · exact ⟨by decide, .inl rfl⟩
      · exact (by decide : "SET" ∈ openingTexts)
    · exact List.forall_mem_cons.mpr ⟨trivial, List.forall_mem_cons.mpr
        ⟨(by decide : "=" ∈ openingTexts), List.forall_mem_singleton.mpr trivial⟩⟩

theorem Opening.among (h : Opening opening) : ∀ piece ∈
    (Statement.ofClauses d opening).fragment.pieces, piece.IsAmong openingTexts := by
  cases h with
  | select columns table =>
    change ∀ piece ∈ ([] ++ .text "SELECT" :: Statement.columnList columns) ++
      [.text "FROM", .name table], _
    refine List.forall_mem_append.mpr ⟨List.forall_mem_append.mpr ⟨fun _ h => absurd h
      List.not_mem_nil, List.forall_mem_cons.mpr ⟨(by decide : "SELECT" ∈ openingTexts),
        among_columnList columns⟩⟩, ?_⟩
    exact List.forall_mem_cons.mpr ⟨(by decide : "FROM" ∈ openingTexts),
      List.forall_mem_singleton.mpr trivial⟩
  | update table first rest =>
    refine among_sets (first :: rest) ?_
    exact List.forall_mem_cons.mpr ⟨(by decide : "UPDATE" ∈ openingTexts),
      List.forall_mem_singleton.mpr trivial⟩
  | deleteFrom table =>
    exact List.forall_mem_cons.mpr ⟨(by decide : "DELETE FROM" ∈ openingTexts),
      List.forall_mem_singleton.mpr trivial⟩

theorem Piece.IsAmong.mono {others : List String} {piece : Piece} (h : piece.IsAmong texts)
    (hsubset : texts ⊆ others) : piece.IsAmong others := by
  cases piece with
  | text t => exact hsubset h
  | glue t => exact ⟨hsubset h.1, h.2⟩
  | _ => exact h

theorem binds_of_among (h : ∀ piece ∈ a, piece.IsAmong texts) : Binds a (boundValues a) :=
  ⟨rfl, fun _ hmem => h _ hmem, fun _ hmem => h _ hmem⟩

theorem written_append (number : Nat) (a b : List Piece) :
    written d number (a ++ b) =
      written d number a ++ written d (number + (boundValues a).length) b := by
  induction a generalizing number with
  | nil => rfl
  | cons piece rest ih =>
    have hnext : piece.next number + (boundValues rest).length =
        number + (boundValues (piece :: rest)).length := by
      cases piece with
      | bind v => exact Nat.add_right_comm number 1 _
      | _ => rfl
    rw [List.cons_append, written, written, List.append_assoc, ih, hnext]

theorem isMark_mark (p : Placeholder) (number : Nat) : p.isMark (p.mark number) = true := by
  rw [← Placeholder.isSome_number? p number, Placeholder.number?_mark]
  rfl

theorem mark_ne_where (p : Placeholder) (number : Nat) : p.mark number ≠ "WHERE".toList := by
  cases p <;> exact fun h => by cases h

theorem lexemes_opening {piece : Piece} (h : piece.IsAmong openingTexts) (number : Nat) :
    .word "WHERE".toList ∉ piece.lexemes d number ∧
      (piece.lexemes d number).countP (Lexeme.isMark d) = (boundValues [piece]).length := by
  have htexts : ∀ t ∈ openingTexts, .word "WHERE".toList ∉ (Word.stretches t.toList).map Lexeme.word ∧
      ((Word.stretches t.toList).map Lexeme.word).countP (Lexeme.isMark d) = 0 := by
    cases d <;> decide
  cases piece with
  | text t => exact htexts t h
  | glue t => exact htexts t h.1
  | name n => exact ⟨by simp [Piece.lexemes], rfl⟩
  | bind v =>
    refine ⟨?_, ?_⟩
    · rw [Piece.lexemes, List.mem_singleton, Lexeme.word.injEq]
      exact (mark_ne_where _ _).symm
    · rw [Piece.lexemes, List.countP_singleton, Lexeme.isMark, isMark_mark, if_pos rfl]
      rfl
  | reuse index => exact h.elim
  | missing operation => exact h.elim

/-- Before the conditions there is no WHERE, and there are as many placeholders as binds. -/
theorem written_opening (h : ∀ piece ∈ a, piece.IsAmong openingTexts) (number : Nat) :
    .word "WHERE".toList ∉ written d number a ∧
      (written d number a).countP (Lexeme.isMark d) = (boundValues a).length := by
  induction a generalizing number with
  | nil => exact ⟨List.not_mem_nil, rfl⟩
  | cons piece rest ih =>
    obtain ⟨hpiece, hrest⟩ := List.forall_mem_cons.mp h
    obtain ⟨hword, hcount⟩ := lexemes_opening (d := d) hpiece number
    obtain ⟨hlater, hcounts⟩ := ih hrest (piece.next number)
    rw [written, List.mem_append, List.countP_append, hcount, hcounts, not_or, ← List.length_append,
      ← boundValues_append]
    exact ⟨⟨hword, hlater⟩, rfl⟩

end Openings

section Wheres

variable {d : Dialect} {opening : List Clause} {p : Condition} {ps : List Condition}

theorem exists_standing {conditions : List Condition}
    (h : ∀ q ∈ conditions, ∃ f, compile d q = .ok f) :
    ∃ terms, List.Forall₂ (fun q term => standing d q = .ok term) conditions terms := by
  induction conditions with
  | nil => exact ⟨[], .nil⟩
  | cons q rest ih =>
    obtain ⟨⟨f, hf⟩, hrest⟩ := List.forall_mem_cons.mp h
    obtain ⟨terms, hterms⟩ := ih hrest
    exact ⟨_ :: terms, .cons (Except.map_eq_ok.mpr ⟨f, hf, rfl⟩) hterms⟩

theorem wheres_grow {s : Statement} (hs : s.hasWhere = true) {terms : List (List Piece)}
    (h : List.Forall₂ (fun q term => standing s.dialect q = .ok term) ps terms) :
    ((ps.map Clause.where).foldl Statement.push s).fragment.pieces =
      s.fragment.pieces ++ terms.flatMap (.text "AND" :: ·) := by
  induction ps generalizing s terms with
  | nil =>
    cases h
    exact (List.append_nil _).symm
  | cons q rest ih =>
    cases h with
    | @cons _ term _ terms hq hrest =>
      have hflag : (s.push (.where q)).hasWhere = true := by
        rw [Statement.hasWhere_push, hs, Bool.true_or]
      rw [← Statement.dialect_push s (.where q)] at hrest
      rw [List.map_cons, List.foldl_cons, ih hflag hrest, (Statement.where_grows s q).pieces, hs, hq,
        List.flatMap_cons, List.append_assoc]
      rfl

/-- After the opening come WHERE and the conditions with AND between them. -/
theorem conditions_pieces (hopening : Opening opening) {terms : List (List Piece)}
    (h : List.Forall₂ (fun q term => standing d q = .ok term) (p :: ps) terms) :
    (Statement.ofClauses d (opening ++ (p :: ps).map .where)).fragment.pieces =
      (Statement.ofClauses d opening).fragment.pieces ++
        .text "WHERE" :: [Piece.text "AND"].intercalate terms := by
  have hfresh : (Statement.ofClauses d opening).hasWhere = false := by
    rw [Statement.hasWhere_ofClauses, List.any_eq_false]
    exact fun c hc => Bool.eq_false_iff.mp (hopening.plain (d := d) c hc).2
  have hflag : ((Statement.ofClauses d opening).push (.where p)).hasWhere = true := by
    rw [Statement.hasWhere_push]
    exact Bool.or_true _
  have hdialect : ((Statement.ofClauses d opening).push (.where p)).dialect = d := by
    rw [Statement.dialect_push, Statement.dialect_ofClauses]
  cases h with
  | @cons _ term _ terms hp hps =>
    rw [← hdialect] at hps
    have hrest := wheres_grow hflag hps
    rw [Statement.ofClauses_append, List.map_cons, List.foldl_cons, hrest,
      (Statement.where_grows _ p).pieces, hfresh, Statement.dialect_ofClauses, hp,
      Text.intercalate_cons_eq, List.append_assoc]
    rfl

end Wheres

/-- The opening and the conditions contain no failure. -/
theorem Opening.findSome?_eq_none {d : Dialect} {opening : List Clause} {conditions : List Condition}
    (hopening : Opening opening) (h : ∀ q ∈ conditions, ∃ f, compile d q = .ok f) :
    (opening ++ conditions.map Clause.where).findSome? (Clause.failure? d) = none := by
  rw [List.findSome?_eq_none_iff]
  intro c hc
  obtain hc | hc := List.mem_append.mp hc
  · exact (hopening.plain c hc).1
  · obtain ⟨q, hq, rfl⟩ := List.mem_map.mp hc
    obtain ⟨f, hf⟩ := h q hq
    simp only [Clause.failure?, Clause.conditionFailure?, hf]

/-- The texts in a statement with conditions. -/
theorem lexed_texts (d : Dialect) :
    ∀ t ∈ openingTexts ++ "WHERE" :: (d.rowIdentity.toList ++ conditionTexts),
      Lexes d t.toList ((Word.stretches t.toList).map .word) := by
  cases d <;> decide

theorem among_wheres {d : Dialect} {a b : List Piece}
    (ha : ∀ piece ∈ a, piece.IsAmong openingTexts) (hb : Worded d conditionTexts b) :
    ∀ piece ∈ a ++ .text "WHERE" :: b, piece.IsAmong
      (openingTexts ++ "WHERE" :: (d.rowIdentity.toList ++ conditionTexts)) := by
  refine List.forall_mem_append.mpr ⟨fun piece hmem => ?_, List.forall_mem_cons.mpr
    ⟨List.mem_append_right _ List.mem_cons_self, fun piece hmem => ?_⟩⟩
  · exact (ha piece hmem).mono (List.subset_append_left _ _)
  · exact (hb piece hmem).mono fun t ht => List.mem_append_right _ (List.mem_cons_of_mem _ ht)

/-- The text after the first WHERE is read as the conjunction of all conditions. -/
theorem wheres_conjoin {d : Dialect} {opening : List Clause} {p : Condition} {ps : List Condition}
    (hopening : Opening opening) (hcompile : ∀ q ∈ p :: ps, ∃ f, compile d q = .ok f) :
    ∃ r before after e,
      (Statement.ofClauses d (opening ++ (p :: ps).map .where)).render = .ok r ∧
        lexemes d r.sql.toList = before ++ .word "WHERE".toList :: after ∧
        .word "WHERE".toList ∉ before ∧
        Expression.ofLexemes? d r.binds (before.countP (Lexeme.isMark d) + 1) after = some e ∧
        ∀ {D : Type} (v : Valuation D),
          v.truth e = .all ((p :: ps).map fun q => v.meaning (q.renamed d.foldName)) := by
  obtain ⟨terms, hterms⟩ := exists_standing hcompile
  have hne : terms ≠ [] := by
    rintro rfl
    cases hterms
  have hamong := hopening.among (d := d)
  have hpieces := conditions_pieces hopening hterms
  have hphrase := conjunction_phrase hterms hne
  have hbinds := conjunction_binds hterms
  have hspells := conjunction_spells hterms hne
  generalize (Statement.ofClauses d opening).fragment.pieces = a at hamong hpieces
  generalize [Piece.text "AND"].intercalate terms = b at hpieces hphrase hbinds hspells
  -- The statement is rendered, and all binds are sent.
  have hwhole : Binds (Statement.ofClauses d (opening ++ (p :: ps).map .where)).fragment.pieces
      (boundValues a ++ boundValues b) := by
    rw [hpieces, hbinds.bound]
    exact (binds_of_among hamong).append (hbinds.text_cons "WHERE")
  obtain ⟨r, hr, hsent⟩ := hwhole.exists_render (d := d)
  have hsql := (eq_of_render hr).1
  rw [← Statement.render_of_failure?_eq_none (hopening.findSome?_eq_none hcompile)] at hr
  -- The text is cut into what is written for the opening and for the conditions.
  have htexts := among_wheres hamong hphrase.worded
  have hlexes := (textAfter_lexes (lexed_texts d) htexts 0).1
  rw [← hpieces, ← hsql, hpieces, written_append] at hlexes
  obtain ⟨hfirst, hcount⟩ := written_opening (d := d) hamong 1
  have hdrop : r.binds.drop (boundValues a).length = boundValues b := by
    rw [hsent, List.drop_left]
  obtain ⟨e, he, htruth⟩ := reads_term hphrase.worded hspells ⟨[], by rw [List.append_nil, hdrop]⟩
  refine ⟨r, written d 1 a, written d ((boundValues a).length + 1) b, e, hr, ?_, hfirst, ?_, ?_⟩
  · rw [hlexes, Nat.zero_add, Nat.add_comm 1]
    rfl
  · rw [hcount]
    exact he
  · intro D v
    rw [htruth v]
    change Truth.all (v.meanings _) = _
    rw [meanings_eq_map, List.map_map]
    rfl

section Behind

variable {d : Dialect} {init a b : List Piece} {p : Condition} {r : Rendered}

theorem Phrase.texts_ne_empty (h : Phrase d b) :
    ∀ text, .text text ∈ b ∨ .glue text ∈ b → text ≠ "" := by
  have htexts : ∀ t ∈ d.rowIdentity.toList ++ conditionTexts, t ≠ "" := by
    cases d <;> decide
  rintro text (hmem | hmem)
  · exact htexts text (h.worded _ hmem)
  · exact htexts text (h.worded _ hmem).1

/-- Words behind which a blank is due. -/
def Closed (word : String) : Prop :=
  ∃ c, word.toList.getLast? = some c ∧ c ≠ '(' ∧ Text.isBlank c = false

/-- The text of pieces ends as the last one does. -/
theorem blankDue_of_closed {word : String} (hword : Closed word) (hbegins : beginsGlued b = false)
    (init : List Piece) : BlankDue (textAfter d 0 (init ++ [.text word])) b := by
  obtain ⟨c, hlast, hc⟩ := hword
  have hne (text : String) (h : .text text ∈ [Piece.text word] ∨ .glue text ∈ [Piece.text word]) :
      text ≠ "" := by
    rintro rfl
    obtain h | h := h
    · cases List.mem_singleton.mp h
      cases hlast
    · cases List.mem_singleton.mp h
  obtain ⟨blank, -, htext⟩ :=
    textAfter_append d init ((complete_iff [.text word]).mpr trivial) (List.cons_ne_nil _ _) hne
  have hself : textAfter d (boundValues init).length [.text word] = word := by
    change String.ofList ([] ++ word.toList) = word
    rw [List.nil_append, String.ofList_toList]
  rw [hself] at htext
  refine ⟨hbegins, c, ?_, hc⟩
  rw [show init ++ [.text word] = init ++ [Piece.text word].map (Piece.moved _) from rfl, htext,
    String.toList_append, List.getLast?_append, hlast]
  rfl

/-- Numbers after what has been sent are those after what has been bound, where they matter. -/
theorem textAfter_sent (h : (⟨a⟩ : Fragment).render d = .ok r) (b : List Piece) :
    textAfter d (boundValues a).length b = textAfter d r.binds.length b := by
  obtain ⟨-, resolved, -, hsent⟩ := eq_of_render h
  cases hreusable : d.placeholder.isReusable with
  | true => rw [hsent, sent, if_pos hreusable]
  | false => rw [textAfter_eq_of_single hreusable, textAfter_eq_of_single hreusable r.binds.length]

/-- A condition behind a word is read as what it says. -/
theorem reads_behind {word : String} {values binds : List Value} (hword : Closed word)
    (hphrase : Phrase d b) (hbinds : Binds b values)
    (hspells : SpellsTerm d p (b.map (Piece.renamed d.foldName)))
    (hr : (⟨init ++ [.text word] ++ b⟩ : Fragment).render d = .ok r) (hfront : r.binds <+: binds) :
    ∃ r₀ text e, (⟨init ++ [.text word]⟩ : Fragment).render d = .ok r₀ ∧
      r.sql = r₀.sql ++ " " ++ text ∧
      Expression.ofLexemes? d binds (r₀.binds.length + 1) (lexemes d text.toList) = some e ∧
      ∀ {D : Type} (v : Valuation D), v.truth e = v.meaning p := by
  obtain ⟨r₀, hr₀, -⟩ := exists_render_append hr
  obtain ⟨t, ht, hvalues⟩ := hbinds.exists_render (d := d) (f := ⟨b⟩)
  obtain ⟨u, hu, hsent⟩ := render_append hr₀ ht
  have hmoved := hbinds.moved (boundValues (init ++ [.text word])).length
  rw [hmoved] at hu
  obtain rfl := Except.ok.inj (hr.symm.trans hu)
  obtain ⟨blank, hblank, htext⟩ := textAfter_append d (init ++ [.text word])
    (exists_render_iff.mp ⟨t, ht⟩) hphrase.ne_nil hphrase.texts_ne_empty
  obtain ⟨rfl, -⟩ := hblank.resolve_right fun h => h.2 (blankDue_of_closed hword hphrase.begins init)
  rw [hmoved, textAfter_sent hr₀] at htext
  have hlexes := (textAfter_lexes (conditionTexts_lexed d) hphrase.worded r₀.binds.length).1
  have hlater : boundValues b <+: binds.drop r₀.binds.length := by
    obtain ⟨more, rfl⟩ := hfront
    rw [hsent, hvalues, hbinds.bound, List.append_assoc, List.drop_left]
    exact List.prefix_append _ _
  obtain ⟨e, he, htruth⟩ := reads_term hphrase.worded hspells hlater
  refine ⟨r₀, textAfter d r₀.binds.length b, e, hr₀, ?_, hlexes ▸ he, htruth⟩
  rw [(eq_of_render hr).1, htext, ← (eq_of_render hr₀).1]

end Behind

/-- These words stand before the condition of a clause. -/
inductive Introduces : List Clause → Clause → Condition → Prop
  | having (p : Condition) : Introduces [.text "HAVING"] (.having p) p
  | on {kind : JoinKind} (table : String) (p : Condition) : kind ≠ .cross →
    Introduces [.text kind.word, .name table, .text "ON"] (.join kind table p) p

section Clauses

variable {d : Dialect} {words before after : List Clause} {c : Clause} {p : Condition}
  {b : List Piece} {r : Rendered}

theorem Introduces.failure? (h : Introduces words c p) :
    c.failure? d = Clause.conditionFailure? d p ∧ words.findSome? (Clause.failure? d) = none := by
  cases h with
  | having => exact ⟨rfl, rfl⟩
  | on table p hkind => exact ⟨if_neg hkind, rfl⟩

theorem Introduces.pieces (h : Introduces words c p) (hp : standing d p = .ok b)
    (before : List Clause) : ∃ init word, Closed word ∧
      (Statement.ofClauses d (before ++ words)).fragment.pieces = init ++ [.text word] ∧
      (Statement.ofClauses d (before ++ [c])).fragment.pieces = init ++ [.text word] ++ b := by
  have hclosed := Statement.closeList_grows (Statement.ofClauses d before)
  rw [Statement.ofClauses_concat, Statement.ofClauses_append]
  cases h with
  | having =>
    refine ⟨_, "HAVING", ⟨'G', rfl, by decide, by decide⟩, rfl, ?_⟩
    have hgrows := (hclosed.add [.text "HAVING"]).condition p
    rw [Statement.dialect_ofClauses, hp] at hgrows
    exact hgrows.pieces.trans (List.append_assoc ..).symm
  | @on kind table p hkind =>
    refine ⟨(Statement.ofClauses d before).fragment.pieces ++ [.text kind.word, .name table], "ON",
      ⟨'N', rfl, by decide, by decide⟩, ?_, ?_⟩
    · rw [List.append_cons (Statement.ofClauses d before).fragment.pieces]
      rfl
    · have hgrows := ((hclosed.add [.text kind.word, .name table]).add [.text "ON"]).condition p
      rw [Statement.dialect_ofClauses, hp] at hgrows
      rw [Statement.push, if_neg hkind, hgrows.pieces]
      simp only [List.append_assoc, List.nil_append]
      rfl

theorem exists_standing_of_failure? (h : Clause.conditionFailure? d p = none) :
    ∃ b, standing d p = .ok b := by
  rw [Clause.conditionFailure?] at h
  split at h
  · cases h
  · next f hf => exact ⟨_, Except.map_eq_ok.mpr ⟨f, hf, rfl⟩⟩

/-- The condition behind HAVING or ON is read as the one that was given. -/
theorem reads_introduced (h : Introduces words c p)
    (hr : (Statement.ofClauses d (before ++ c :: after)).render = .ok r) :
    ∃ r₀ r₁ text e, (Statement.ofClauses d (before ++ words)).render = .ok r₀ ∧
      (Statement.ofClauses d (before ++ [c])).render = .ok r₁ ∧
      r₁.sql = r₀.sql ++ " " ++ text ∧ r₁.sql.toList <+: r.sql.toList ∧
      Expression.ofLexemes? d r.binds (r₀.binds.length + 1) (lexemes d text.toList) = some e ∧
      ∀ {D : Type} (v : Valuation D), v.truth e = v.meaning (p.renamed d.foldName) := by
  rw [List.append_cons] at hr
  have hnone := Statement.failure?_eq_none_of_render hr
  rw [List.findSome?_append, Option.or_eq_none_iff] at hnone
  obtain ⟨r₁, hr₁, htext, hfront⟩ :=
    Statement.exists_render_of_prefix hnone.1 (Statement.pieces_prefix d _ after) hr
  have hfragment := (Statement.render_of_failure?_eq_none hnone.1).symm.trans hr₁
  obtain ⟨hbefore, hc⟩ : before.findSome? (Clause.failure? d) = none ∧
      [c].findSome? (Clause.failure? d) = none := by
    rw [← Option.or_eq_none_iff, ← List.findSome?_append]
    exact hnone.1
  have hcondition : Clause.conditionFailure? d p = none := by
    rw [← h.failure?.1]
    simpa using hc
  obtain ⟨b, hb⟩ := exists_standing_of_failure? hcondition
  obtain ⟨init, word, hword, hwords, hpieces⟩ := h.pieces hb before
  rw [show (Statement.ofClauses d (before ++ [c])).fragment = ⟨_⟩ from
    congrArg Fragment.mk hpieces] at hfragment
  obtain ⟨r₀, text, e, hr₀, hsql, he, htruth⟩ := reads_behind hword (standing_phrase hb)
    (standing_binds hb) (standing_spells (standing_renamed d.foldName hb)) hfragment hfront
  refine ⟨r₀, r₁, text, e, ?_, hr₁, hsql, htext, he, htruth⟩
  rw [Statement.render_of_failure?_eq_none]
  · rw [show (Statement.ofClauses d (before ++ words)).fragment = ⟨_⟩ from
      congrArg Fragment.mk hwords]
    exact hr₀
  · rw [List.findSome?_append, hbefore, h.failure?.2]
    rfl

end Clauses

/-- **Conditions are conjoined.** If a statement consists of an opening and of conditions that compile,
it is rendered, and its text after the first WHERE is read as the conjunction of all of them. In any
statement that is rendered, the text behind HAVING or ON is read as the one condition that was given
with it. What is sent stands for the placeholders, and the names are those that the dialect compares. -/
theorem conditions_conjoin (d : Dialect) :
    (∀ opening p ps, Opening opening → (∀ q ∈ p :: ps, ∃ f, compile d q = .ok f) →
      ∃ r before after e,
        (Statement.ofClauses d (opening ++ (p :: ps).map .where)).render = .ok r ∧
          lexemes d r.sql.toList = before ++ .word "WHERE".toList :: after ∧
          .word "WHERE".toList ∉ before ∧
          Expression.ofLexemes? d r.binds (before.countP (Lexeme.isMark d) + 1) after = some e ∧
          ∀ {D : Type} (v : Valuation D),
            v.truth e = .all ((p :: ps).map fun q => v.meaning (q.renamed d.foldName))) ∧
    (∀ words c p before after r, Introduces words c p →
      (Statement.ofClauses d (before ++ c :: after)).render = .ok r →
      ∃ r₀ r₁ text e, (Statement.ofClauses d (before ++ words)).render = .ok r₀ ∧
        (Statement.ofClauses d (before ++ [c])).render = .ok r₁ ∧
        r₁.sql = r₀.sql ++ " " ++ text ∧ r₁.sql.toList <+: r.sql.toList ∧
        Expression.ofLexemes? d r.binds (r₀.binds.length + 1) (lexemes d text.toList) = some e ∧
        ∀ {D : Type} (v : Valuation D), v.truth e = v.meaning (p.renamed d.foldName)) :=
  ⟨fun _ _ _ hopening hcompile => wheres_conjoin hopening hcompile,
    fun _ _ _ _ _ _ hwords hr => reads_introduced hwords hr⟩

/-- A condition on one column. -/
def equals (column : String) (n : Int64) : Condition :=
  .compare (.key (.named column)) .eq (.literal (.int n))

/-- A disjunction of a conjunction, under a join of its own. -/
def nested : Condition :=
  .join .or [.join .and [.join .or [equals "A" 1, .join .and [equals "b" 2]]]]

theorem conditions_conjoin_nested :
    (∃ (r : Rendered) (before after : List Lexeme) (e : Expression),
      r.sql = "DELETE FROM \"t\" WHERE (\"a\" = $1 OR \"b\" = $2) AND \"c\" = $3" ∧
      lexemes .postgres r.sql.toList = before ++ .word "WHERE".toList :: after ∧
      Expression.ofLexemes? .postgres r.binds (before.countP (Lexeme.isMark .postgres) + 1) after =
        some e ∧
      ∀ {D : Type} (v : Valuation D), v.truth e =
        .all ([nested, equals "c" 3].map fun q => v.meaning (q.renamed (Dialect.foldName .postgres)))) ∧
    ∃ text e, text = "(\"a\" = $1 OR \"b\" = $2)" ∧
      Expression.ofLexemes? .postgres [.int 1, .int 2] 1 (lexemes .postgres text.toList) = some e ∧
      ∀ {D : Type} (v : Valuation D),
        v.truth e = v.meaning (nested.renamed (Dialect.foldName .postgres)) := by
  obtain ⟨hwheres, hbehind⟩ := conditions_conjoin .postgres
  refine ⟨?_, ?_⟩
  · have hcompile : ∀ q ∈ [nested, equals "c" 3], ∃ f, compile .postgres q = .ok f :=
      List.forall_mem_cons.mpr ⟨⟨_, rfl⟩, List.forall_mem_singleton.mpr ⟨_, rfl⟩⟩
    obtain ⟨r, before, after, e, hr, hlexes, -, he, htruth⟩ :=
      hwheres [.deleteFrom "t"] nested [equals "c" 3] (.deleteFrom "t") hcompile
    obtain rfl := Except.ok.inj hr
    exact ⟨_, before, after, e, rfl, hlexes, he, htruth⟩
  · obtain ⟨r₀, r₁, text, e, hr₀, hr₁, hsql, -, he, htruth⟩ :=
      hbehind _ _ _ [.select [], .from "t", .groupBy ["a"]] [] _ (.having nested) rfl
    obtain rfl := Except.ok.inj hr₀
    obtain rfl := Except.ok.inj hr₁
    refine ⟨text, e, ?_, he, htruth⟩
    have hlists := congrArg String.toList hsql
    rw [String.toList_append] at hlists
    exact String.toList_inj.mp (List.append_cancel_left (hlists.symm.trans rfl))

end Polystore.Sql
