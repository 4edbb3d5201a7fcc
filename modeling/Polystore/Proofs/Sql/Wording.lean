import Polystore.Proofs.Number.Written
import Polystore.Proofs.Sql.Clauses
import Polystore.Proofs.Sql.Lexemes
import Polystore.Proofs.Sql.Preservation
import Polystore.Proofs.Sql.Renaming

/-!
The words of conditions in texts. A name is a column, and a placeholder is the value that is sent for
it. Main statement: the text of a condition is read as the words of its pieces, with names in the case
of the dialect.
-/

namespace Polystore.Sql

namespace Placeholder

/-- The number of the value that a word stands for if it is a placeholder, the `next`-th one of the
text. -/
def number? (p : Placeholder) (next : Nat) (text : List Char) : Option Nat :=
  match p, text with
  | .dollar, '$' :: row => Text.readNat? row
  | .numbered, '?' :: row => Text.readNat? row
  | .single, ['?'] => some next
  | _, _ => none

def isMark (p : Placeholder) (text : List Char) : Bool :=
  (p.number? 1 text).isSome

theorem isSome_number? (p : Placeholder) (next : Nat) (text : List Char) :
    (p.number? next text).isSome = p.isMark text := by
  unfold isMark number?
  split <;> rfl

theorem number?_mark (p : Placeholder) (number : Nat) :
    p.number? number (p.mark number) = some number := by
  cases p with
  | dollar => exact Text.readNat?_digits number
  | numbered => exact Text.readNat?_digits number
  | single => rfl

end Placeholder

namespace Word

/-- A word that is no placeholder. -/
def ofPlain? (d : Dialect) (text : List Char) : Option Word :=
  if d.rowIdentity.map String.toList = some text then some (.operand (.key .primary))
  else ofChars? text

/-- The words of a text by its lexemes, of which the first placeholder is the `next`-th one. -/
def ofLexemes? (d : Dialect) (binds : List Value) : Nat → List Lexeme → Option (List Word)
  | _, [] => some []
  | next, .name text :: rest =>
    (ofLexemes? d binds next rest).map (.operand (.key (.named (String.ofList text))) :: ·)
  | next, .word text :: rest =>
    match d.placeholder.number? next text with
    | some number => do
      let v ← binds[number - 1]?
      let more ← ofLexemes? d binds (next + 1) rest
      some (.operand (.literal v) :: more)
    | none => do
      let word ← ofPlain? d text
      let more ← ofLexemes? d binds next rest
      some (word :: more)

end Word

/-- The expression that a text spells by its lexemes, of which the first placeholder is the `next`-th
one. -/
def Expression.ofLexemes? (d : Dialect) (binds : List Value) (next : Nat) (ls : List Lexeme) :
    Option Expression := do
  ofWords? (← Word.ofLexemes? d binds next ls)

/-- The texts in compiled conditions. -/
def conditionTexts : List String :=
  ["(", "NOT", "NOT (", "AND", "OR", "=", "<>", "<", ">", "<=", ">=", "IN", "NOT IN", "= ANY(",
    "<> ALL(", "BETWEEN", "NOT BETWEEN", "LIKE", "NOT LIKE", "IS NOT DISTINCT FROM",
    "IS DISTINCT FROM", "<=>", "IS", "IS NOT", "NULL", ",", ")"]

/-- A piece with one of some texts, or with none. -/
def Piece.IsAmong (texts : List String) : Piece → Prop
  | .text t => t ∈ texts
  | .glue t => t ∈ texts ∧ (t = "," ∨ t = ")")
  | .name _ | .bind _ => True
  | .reuse _ | .missing _ => False

/-- Pieces with some texts, and the column that identifies a row. -/
def Worded (d : Dialect) (texts : List String) (pieces : List Piece) : Prop :=
  ∀ piece ∈ pieces, piece.IsAmong (d.rowIdentity.toList ++ texts)

theorem conditionTexts_lexed (d : Dialect) : ∀ t ∈ d.rowIdentity.toList ++ conditionTexts,
    Lexes d t.toList ((Word.stretches t.toList).map .word) := by
  cases d <;> decide

/-- The lexemes of a piece. A bind is a placeholder with its number. -/
def Piece.lexemes (d : Dialect) (number : Nat) : Piece → List Lexeme
  | .text t | .glue t => (Word.stretches t.toList).map .word
  | .name n => [.name (n.toList.flatMap d.foldChar)]
  | .bind _ => [.word (d.placeholder.mark number)]
  | .reuse _ | .missing _ => []

/-- The number of the next bind. -/
def Piece.next (number : Nat) : Piece → Nat
  | .bind _ => number + 1
  | _ => number

/-- The lexemes of pieces, of which the first bind has this number. -/
def written (d : Dialect) : Nat → List Piece → List Lexeme
  | _, [] => []
  | number, piece :: rest => piece.lexemes d number ++ written d (piece.next number) rest

section Lexing

open Fragment

variable {d : Dialect} {texts : List String}

theorem filled_lexes (hlexed : ∀ t ∈ texts, Lexes d t.toList ((Word.stretches t.toList).map .word))
    {pieces : List Piece} (h : ∀ piece ∈ pieces, piece.IsAmong texts) (met count : Nat) :
    ∃ lss, List.Forall₂ (Token.Lexes d)
        (filled d (marks d ((targets met pieces).map (· + count))) pieces) lss ∧
      lss.flatten = written d (met + count + 1) pieces := by
  induction pieces generalizing met with
  | nil => exact ⟨[], .nil, rfl⟩
  | cons piece rest ih =>
    obtain ⟨hpiece, hrest⟩ := List.forall_mem_cons.mp h
    cases piece with
    | text t =>
      obtain ⟨lss, hlss, hflat⟩ := ih hrest met
      exact ⟨_ :: lss, .cons ⟨hlexed t hpiece, fun hglued => nomatch hglued⟩ hlss,
        congrArg (_ ++ ·) hflat⟩
    | glue t =>
      obtain ⟨lss, hlss, hflat⟩ := ih hrest met
      refine ⟨_ :: lss, .cons ⟨hlexed t hpiece.1, fun _ => ?_⟩ hlss, congrArg (_ ++ ·) hflat⟩
      obtain rfl | rfl := hpiece.2
      · exact ⟨',', [], rfl, rfl⟩
      · exact ⟨')', [], rfl, rfl⟩
    | name n =>
      obtain ⟨lss, hlss, hflat⟩ := ih hrest met
      exact ⟨_ :: lss, .cons ⟨lexes_quoteName d n.toList, fun hglued => nomatch hglued⟩ hlss,
        congrArg (_ ++ ·) hflat⟩
    | bind v =>
      obtain ⟨lss, hlss, hflat⟩ := ih hrest (met + 1)
      rw [Nat.add_right_comm met 1 count] at hflat
      exact ⟨_ :: lss, .cons ⟨lexes_mark d (met + count + 1), fun hglued => nomatch hglued⟩ hlss,
        congrArg (_ ++ ·) hflat⟩
    | reuse index => exact hpiece.elim
    | missing operation => exact hpiece.elim

/-- The text of pieces is cut into their lexemes. -/
theorem textAfter_lexes (hlexed : ∀ t ∈ texts, Lexes d t.toList ((Word.stretches t.toList).map .word))
    {pieces : List Piece} (h : ∀ piece ∈ pieces, piece.IsAmong texts) (count : Nat) :
    Lexes d (textAfter d count pieces).toList (written d (count + 1) pieces) := by
  obtain ⟨lss, hlss, hflat⟩ := filled_lexes hlexed h 0 count
  rw [Nat.zero_add] at hflat
  rw [textAfter, String.toList_ofList, ← hflat]
  exact layout_lexes hlss

end Lexing

section Reading

open Fragment

variable {d : Dialect} {binds : List Value}

theorem ofLexemes?_word {text : List Char} (h : d.placeholder.isMark text = false) (next : Nat)
    (rest : List Lexeme) : Word.ofLexemes? d binds next (.word text :: rest) = (do
      let word ← Word.ofPlain? d text
      let more ← Word.ofLexemes? d binds next rest
      some (word :: more)) := by
  have hnone : d.placeholder.number? next text = none := by
    rw [← Option.not_isSome_iff_eq_none, Placeholder.isSome_number?, h]
    exact Bool.false_ne_true
  rw [Word.ofLexemes?, hnone]

/-- Words that are neither placeholders nor the column of the rows are looked up. -/
theorem ofLexemes?_words {ws : List (List Char)}
    (h : ∀ w ∈ ws, d.placeholder.isMark w = false ∧ d.rowIdentity.map String.toList ≠ some w)
    (next : Nat) (rest : List Lexeme) :
    Word.ofLexemes? d binds next (ws.map .word ++ rest) = (do
      let first ← ws.mapM Word.ofChars?
      let more ← Word.ofLexemes? d binds next rest
      some (first ++ more)) := by
  induction ws with
  | nil => simp
  | cons w ws ih =>
    obtain ⟨⟨hmark, hrow⟩, hws⟩ := List.forall_mem_cons.mp h
    rw [List.map_cons, List.cons_append, ofLexemes?_word hmark, ih hws, Word.ofPlain?, if_neg hrow,
      List.mapM_cons]
    simp [Option.bind_assoc]

/-- A text of conditions is read alone as it is read among pieces. -/
theorem ofLexemes?_text {t : String} (h : t ∈ d.rowIdentity.toList ++ conditionTexts) (next : Nat)
    (rest : List Lexeme) :
    Word.ofLexemes? d binds next ((Word.stretches t.toList).map .word ++ rest) = (do
      let first ← Word.ofPiece? d (.text t)
      let more ← Word.ofLexemes? d binds next rest
      some (first ++ more)) := by
  have hwords : ∀ t ∈ conditionTexts, d.rowIdentity ≠ some t ∧ ∀ w ∈ Word.stretches t.toList,
      d.placeholder.isMark w = false ∧ d.rowIdentity.map String.toList ≠ some w := by
    cases d <;> decide
  have hcolumns : ∀ t ∈ d.rowIdentity.toList, Word.stretches t.toList = [t.toList] ∧
      d.placeholder.isMark t.toList = false := by
    cases d <;> decide
  rw [List.mem_append, Option.mem_toList] at h
  obtain hrow | hmem := h
  · obtain ⟨hstretches, hmark⟩ := hcolumns t (Option.mem_toList.mpr hrow)
    have hplain : Word.ofPlain? d t.toList = some (.operand (.key .primary)) := by
      rw [Word.ofPlain?, hrow]
      exact if_pos rfl
    rw [hstretches, List.map_singleton, List.singleton_append, ofLexemes?_word hmark, hplain,
      Word.ofPiece?, if_pos hrow]
    rfl
  · obtain ⟨hrow, hplain⟩ := hwords t hmem
    rw [ofLexemes?_words hplain, Word.ofPiece?, if_neg hrow]
    rfl

/-- What is written is read as the words of the pieces, with the values that are sent in the places of
the placeholders. -/
theorem read_written {pieces : List Piece} (h : Worded d conditionTexts pieces) (base : Nat)
    (hbinds : boundValues pieces <+: binds.drop base) :
    Word.ofLexemes? d binds (base + 1) (written d (base + 1) pieces) =
      Word.ofPieces? d (pieces.map (Piece.renamed d.foldName)) := by
  induction pieces generalizing base with
  | nil => rfl
  | cons piece rest ih =>
    obtain ⟨hpiece, hrest⟩ := List.forall_mem_cons.mp h
    cases piece with
    | text t =>
      change Word.ofLexemes? d binds _
        ((Word.stretches t.toList).map .word ++ written d (base + 1) rest) = _
      rw [ofLexemes?_text hpiece, ih hrest base hbinds]
      rfl
    | glue t =>
      change Word.ofLexemes? d binds _
        ((Word.stretches t.toList).map .word ++ written d (base + 1) rest) = _
      rw [ofLexemes?_text hpiece.1, ih hrest base hbinds]
      rfl
    | name n =>
      change (Word.ofLexemes? d binds _ (written d (base + 1) rest)).map _ = _
      rw [ih hrest base hbinds]
      simp only [List.map_cons, Piece.renamed, Word.ofPieces?, Word.ofPiece?, Option.bind_eq_bind,
        Option.bind_some]
      cases Word.ofPieces? d (rest.map (Piece.renamed d.foldName)) <;> rfl
    | bind v =>
      obtain ⟨more, hmore⟩ := hbinds
      have hdrop : v :: (boundValues rest ++ more) = binds.drop base := hmore
      have hv : binds[base]? = some v := by
        rw [← List.head?_drop, ← hdrop]
        rfl
      have hlater : boundValues rest <+: binds.drop (base + 1) := by
        rw [← List.tail_drop, ← hdrop]
        exact List.prefix_append _ _
      have hread := ih hrest (base + 1) hlater
      change Word.ofLexemes? d binds _ (.word _ :: written d (base + 1 + 1) rest) = _
      rw [Word.ofLexemes?, Placeholder.number?_mark, hread]
      simp only [Nat.add_sub_cancel, hv, List.map_cons, Piece.renamed, Word.ofPieces?, Word.ofPiece?,
        Option.bind_eq_bind, Option.bind_some]
      rfl
    | reuse index => exact hpiece.elim
    | missing operation => exact hpiece.elim

end Reading

/-- Pieces that can stand after a blank: the texts among them are those of conditions, and the first
piece is none that is written right after what comes before. -/
structure Phrase (d : Dialect) (pieces : List Piece) : Prop where
  worded : Worded d conditionTexts pieces
  begins : Fragment.beginsGlued pieces = false
  ne_nil : pieces ≠ []

section Phrases

variable {d : Dialect} {a b ps : List Piece} {t : String}

theorem isAmong_text (h : t ∈ conditionTexts) :
    (Piece.text t).IsAmong (d.rowIdentity.toList ++ conditionTexts) :=
  List.mem_append_right _ h

theorem Worded.append (ha : Worded d conditionTexts a) (hb : Worded d conditionTexts b) :
    Worded d conditionTexts (a ++ b) :=
  List.forall_mem_append.mpr ⟨ha, hb⟩

theorem Worded.text_cons (h : t ∈ conditionTexts) (ha : Worded d conditionTexts a) :
    Worded d conditionTexts (.text t :: a) :=
  List.forall_mem_cons.mpr ⟨isAmong_text h, ha⟩

theorem worded_nil : Worded d conditionTexts [] :=
  fun _ h => absurd h List.not_mem_nil

theorem worded_closing : Worded d conditionTexts [.glue ")"] :=
  List.forall_mem_cons.mpr ⟨⟨List.mem_append_right _ (by decide), .inr rfl⟩, worded_nil⟩

theorem Phrase.append (ha : Phrase d a) (hb : Worded d conditionTexts b) : Phrase d (a ++ b) where
  worded := ha.worded.append hb
  begins := (Fragment.beginsGlued_append ha.ne_nil b).trans ha.begins
  ne_nil := List.append_ne_nil_of_left_ne_nil ha.ne_nil b

theorem Worded.phrase_cons (ha : Worded d conditionTexts a) (h : t ∈ conditionTexts) :
    Phrase d (.text t :: a) :=
  ⟨ha.text_cons h, rfl, List.cons_ne_nil _ _⟩

theorem Phrase.grouped (ha : Phrase d a) : Phrase d (grouped a) :=
  (ha.worded.append worded_closing).phrase_cons (by decide)

theorem operand_phrase {o : Operand} (h : operand d o = .ok ps) : Phrase d ps := by
  cases o with
  | key k =>
    cases k with
    | named n =>
      cases h
      exact ⟨List.forall_mem_cons.mpr ⟨trivial, worded_nil⟩, rfl, List.cons_ne_nil _ _⟩
    | primary =>
      cases hrow : d.rowIdentity with
      | none => simp [operand, hrow, Dialect.unsupported] at h
      | some column =>
        obtain rfl : [.text column] = ps := by simpa [operand, hrow] using h
        have hcolumn : (Piece.text column).IsAmong (d.rowIdentity.toList ++ conditionTexts) :=
          List.mem_append_left _ (Option.mem_toList.mpr hrow)
        exact ⟨List.forall_mem_cons.mpr ⟨hcolumn, worded_nil⟩, rfl, List.cons_ne_nil _ _⟩
  | literal v =>
    cases h
    exact ⟨List.forall_mem_cons.mpr ⟨trivial, worded_nil⟩, rfl, List.cons_ne_nil _ _⟩

theorem between_phrase {left right : Operand} {word : String} (hword : word ∈ conditionTexts)
    (h : between d left word right = .ok ps) : Phrase d ps := by
  simp only [between, Except.bind_eq_ok, pure, Except.pure, Except.ok.injEq] at h
  obtain ⟨l, hl, r, hr, rfl⟩ := h
  exact (operand_phrase hl).append ((operand_phrase hr).worded.text_cons hword)

theorem nullTest_phrase {subject : Operand} {op : Comparison} (h : nullTest d subject op = .ok ps) :
    Phrase d ps := by
  have hword : (d.nullSafe (op = .ne)).1 ∈ conditionTexts := by
    cases d <;> cases op <;> decide
  rw [nullTest] at h
  generalize d.nullSafe (op = .ne) = form at h hword
  obtain ⟨word, wrap⟩ := form
  split at h
  · simp only [Except.bind_eq_ok, pure, Except.pure, Except.ok.injEq] at h
    obtain ⟨s, hs, rfl⟩ := h
    have hbody := (operand_phrase hs).append
      ((worded_nil.text_cons (t := "NULL") (by decide)).text_cons hword)
    split
    · exact (hbody.worded.append worded_closing).phrase_cons (by decide)
    · exact hbody
  · simp [invalid] at h

theorem comparison_phrase {left right : Operand} {op : Comparison}
    (h : comparison d left op right = .ok ps) : Phrase d ps := by
  have hword : op.symbol ∈ conditionTexts := by
    cases op <;> decide
  rw [comparison] at h
  split at h
  · simp [invalid] at h
  · split at h
    · exact nullTest_phrase h
    · split at h
      · exact nullTest_phrase h
      · exact between_phrase hword h

theorem bindList_worded : ∀ values : List Value, Worded d conditionTexts (bindList values)
  | [] => worded_nil
  | [_] => List.forall_mem_cons.mpr ⟨trivial, worded_nil⟩
  | _ :: next :: rest => List.forall_mem_cons.mpr ⟨trivial, List.forall_mem_cons.mpr
      ⟨⟨List.mem_append_right _ (by decide), .inl rfl⟩, bindList_worded (next :: rest)⟩⟩

theorem membership_phrase {left right : Operand} {negated : Bool}
    (h : membership d left right negated = .ok ps) : Phrase d ps := by
  unfold membership at h
  split at h
  · next k values =>
    split at h
    · simp [invalid] at h
    · simp only [Except.bind_eq_ok, pure, Except.pure, Except.ok.injEq] at h
      obtain ⟨s, hs, rfl⟩ := h
      have hword : (if negated then "NOT IN" else "IN") ∈ conditionTexts := by
        cases negated <;> decide
      have hlist := ((bindList_worded (d := d) values).append worded_closing).text_cons
        (t := "(") (by decide)
      exact (operand_phrase hs).append (hlist.text_cons hword)
  · split at h
    · simp only [Except.bind_eq_ok, pure, Except.pure, Except.ok.injEq] at h
      obtain ⟨e, he, a, ha, rfl⟩ := h
      have hword : (if negated then "<> ALL(" else "= ANY(") ∈ conditionTexts := by
        cases negated <;> decide
      exact ((operand_phrase he).append ((operand_phrase ha).worded.text_cons hword)).append
        worded_closing
    · simp [Dialect.unsupported] at h
  · simp [invalid] at h

theorem range_phrase {subject low high : Operand} {exclusive negated : Bool}
    (h : range d subject low high exclusive negated = .ok ps) : Phrase d ps := by
  rw [range] at h
  split at h
  · simp [invalid] at h
  · split at h
    · simp [invalid] at h
    · split at h
      · simp only [Except.bind_eq_ok, pure, Except.pure, Except.ok.injEq] at h
        obtain ⟨first, hfirst, second, hsecond, rfl⟩ := h
        have hlow : (if negated then "<" else ">=") ∈ conditionTexts := by cases negated <;> decide
        have hhigh : (if negated then ">=" else "<") ∈ conditionTexts := by cases negated <;> decide
        have hword : (if negated then "OR" else "AND") ∈ conditionTexts := by
          cases negated <;> decide
        exact ((between_phrase hlow hfirst).append
          ((between_phrase hhigh hsecond).worded.text_cons hword)).grouped
      · simp only [Except.bind_eq_ok, pure, Except.pure, Except.ok.injEq] at h
        obtain ⟨first, hfirst, last, hlast, rfl⟩ := h
        have hword : (if negated then "NOT BETWEEN" else "BETWEEN") ∈ conditionTexts := by
          cases negated <;> decide
        exact (between_phrase hword hfirst).append
          ((operand_phrase hlast).worded.text_cons (by decide))

theorem like_phrase {subject test : Operand} {negated : Bool}
    (h : like d subject test negated = .ok ps) : Phrase d ps := by
  have hword : (if negated then "NOT LIKE" else "LIKE") ∈ conditionTexts := by
    cases negated <;> decide
  rw [like] at h
  split at h
  · simp [invalid] at h
  · exact between_phrase hword h

theorem intercalate_phrase {word : String} (hword : word ∈ conditionTexts)
    {terms : List (List Piece)} (h : ∀ term ∈ terms, Phrase d term) (hne : terms ≠ []) :
    Phrase d ([Piece.text word].intercalate terms) := by
  induction terms with
  | nil => exact absurd rfl hne
  | cons term rest ih =>
    obtain ⟨hterm, hrest⟩ := List.forall_mem_cons.mp h
    cases rest with
    | nil => simpa [List.intercalate] using hterm
    | cons next rest =>
      have hlater := ih hrest (List.cons_ne_nil _ _)
      rw [List.intercalate_cons_cons, List.append_assoc]
      exact hterm.append (hlater.worded.text_cons hword)

mutual

theorem pieces_phrase : ∀ (p : Condition) (ps : List Piece), pieces d p = .ok ps → Phrase d ps
  | .compare _ _ _, _, h => comparison_phrase h
  | .member _ _ _, _, h => membership_phrase h
  | .between _ _ _ _ _, _, h => range_phrase h
  | .pattern _ _ _, _, h => like_phrase h
  | .not p, ps, h => by
    simp only [pieces, Except.bind_eq_ok, pure, Except.pure, Except.ok.injEq] at h
    obtain ⟨inner, hinner, rfl⟩ := h
    have hphrase := pieces_phrase p inner hinner
    split
    · exact hphrase.worded.phrase_cons (by decide)
    · exact hphrase.grouped.worded.phrase_cons (by decide)
  | .join c items, ps, h => by
    have hword : connectiveWord c ∈ conditionTexts := by cases c <;> decide
    simp only [pieces, Except.bind_eq_ok] at h
    obtain ⟨terms, hterms, h⟩ := h
    cases terms with
    | nil => simp [invalid] at h
    | cons term terms =>
      cases h
      exact intercalate_phrase hword (termPieces_phrase c items _ hterms) (List.cons_ne_nil _ _)

theorem termPieces_phrase (c : Connective) : ∀ (items : List Condition) (terms : List (List Piece)),
    termPieces d c items = .ok terms → ∀ term ∈ terms, Phrase d term
  | [], _, h => by
    cases h
    exact fun _ hterm => absurd hterm List.not_mem_nil
  | p :: rest, _, h => by
    simp only [termPieces, Except.bind_eq_ok, pure, Except.pure, Except.ok.injEq] at h
    obtain ⟨term, hterm, terms, hterms, rfl⟩ := h
    have hphrase := pieces_phrase p term hterm
    refine List.forall_mem_cons.mpr ⟨?_, termPieces_phrase c rest terms hterms⟩
    split
    · exact hphrase.grouped
    · exact hphrase

end

theorem standing_phrase {p : Condition} (h : standing d p = .ok ps) : Phrase d ps := by
  obtain ⟨f, hf, rfl⟩ := Except.map_eq_ok.mp h
  simp only [compile, Except.bind_eq_ok, pure, Except.pure, Except.ok.injEq] at hf
  obtain ⟨qs, hqs, rfl⟩ := hf
  have hphrase := pieces_phrase p.flat qs hqs
  split
  · exact hphrase.grouped
  · exact hphrase

end Phrases

end Polystore.Sql
