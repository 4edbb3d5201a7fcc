import Polystore.Proofs.Sql.Rendering
import Polystore.Proofs.Text.Digits

/-!
Texts of statements cut into lexemes. Names stand between quote marks, in which a doubled mark is one
character of the name; anything else is cut into words at blanks, and brackets and commas are words of
their own. Main statement: a layout is cut into what its tokens are cut into, one after the other.
-/

namespace Polystore

/-- Numbers of no character stand for the first one. -/
theorem Text.toNat_of_ofNat {n : Nat} {c : Char} (h : Char.ofNat n = c) (hc : c ≠ Char.ofNat 0) :
    n = c.toNat := by
  by_cases hvalid : n.isValidChar
  · rw [Char.ofNat, dif_pos hvalid] at h
    subst h
    rfl
  · rw [Char.ofNat, dif_neg hvalid] at h
    exact absurd h.symm hc

open Text.Lowercase in
/-- No character but a quote mark has one in its lower case. -/
theorem Text.Lowercase.ne_of_mem_lower {c x : Char} (hc : c ≠ '"') (h : x ∈ lower c) : x ≠ '"' := by
  have hruns : ∀ run ∈ runs, (0x22 : Int) < run.1 + run.2.2.2 := by decide +kernel
  have hsmall : ∀ n : Fin 128, (Char.ofNat n).toLower = '"' → Char.ofNat n = '"' := by decide
  simp only [lower] at h
  split at h
  · next hn =>
    obtain rfl := List.mem_singleton.mp h
    intro hx
    have hself : Char.ofNat c.toNat = c := Char.ofNat_toNat c
    have := hsmall ⟨c.toNat, hn⟩
    simp only [hself] at this
    exact hc (this hx)
  · split at h
    · rintro rfl
      revert h
      decide
    · split at h
      · next first last step shift hfind =>
        obtain rfl := List.mem_singleton.mp h
        have hmem := hruns _ (List.mem_of_find?_eq_some hfind)
        have hle := List.find?_some hfind
        simp only [Bool.and_eq_true, decide_eq_true_eq] at hle
        intro hx
        have hcode := Text.toNat_of_ofNat hx (by decide)
        have hfirst := hle.1.1
        simp only [Int.ofNat_eq_natCast] at hmem hcode
        have hquote : ('"').toNat = 34 := rfl
        omega
      · obtain rfl := List.mem_singleton.mp h
        exact hc

namespace Sql

inductive Lexeme where
  | name (text : List Char)
  | word (text : List Char)
deriving DecidableEq

/-- Where in a text a reader is, and what it has of the lexeme that it is in. -/
inductive Place where
  | outside
  | inWord (sofar : List Char)
  | inName (sofar : List Char)
  /-- Behind a quote mark in a name, which ends there unless another mark or a dot follows. -/
  | behindMark (sofar : List Char)
  | behindDot (sofar : List Char)
deriving DecidableEq

namespace Place

/-- The lexeme that there is if the text ends. -/
def pending : Place → List Lexeme
  | .outside => []
  | .inWord sofar => [.word sofar]
  | .inName sofar => [.name sofar]
  | .behindMark sofar => [.name sofar]
  | .behindDot sofar => [.name (sofar ++ ['.'])]

/-- Can another token begin here? -/
def isSettled : Place → Bool
  | .inName _ | .behindDot _ => false
  | _ => true

end Place

/-- Brackets and commas are words by themselves. -/
def standsAlone (c : Char) : Bool :=
  c = '(' || c = ')' || c = ','

/-- Words and names end before such a character. -/
def isBoundary (c : Char) : Bool :=
  Text.isBlank c || standsAlone c

section Scanning

variable (d : Dialect)

/-- A character outside of any lexeme. -/
def begin (c : Char) : List Lexeme × Place :=
  if Text.isBlank c then ([], .outside)
  else if standsAlone c then ([.word [c]], .outside)
  else if c = d.quoteMark then ([], .inName [])
  else ([], .inWord [c])

/-- What is complete before a character, and where it leads. -/
def advance (place : Place) (c : Char) : List Lexeme × Place :=
  let next := (place.pending ++ (begin d c).1, (begin d c).2)
  match place with
  | .outside => next
  | .inWord sofar => if isBoundary c || c = d.quoteMark then next else ([], .inWord (sofar ++ [c]))
  | .inName sofar => ([], if c = d.quoteMark then .behindMark sofar else .inName (sofar ++ [c]))
  | .behindMark sofar =>
    if c = d.quoteMark then ([], .inName (sofar ++ [c]))
    else if c = '.' then ([], .behindDot sofar)
    else next
  | .behindDot sofar => if c = d.quoteMark then ([], .inName (sofar ++ ['.'])) else next

def scan (place : Place) : List Char → List Lexeme × Place
  | [] => ([], place)
  | c :: rest =>
    let (first, place) := advance d place c
    let (more, place) := scan place rest
    (first ++ more, place)

/-- The lexemes of a text. -/
def lexemes (text : List Char) : List Lexeme :=
  let (found, place) := scan d .outside text
  found ++ place.pending

end Scanning

variable {d : Dialect} {place : Place} {a b : List Char} {ls ms : List Lexeme}

theorem scan_cons (place : Place) (c : Char) (rest : List Char) :
    scan d place (c :: rest) = ((advance d place c).1 ++ (scan d (advance d place c).2 rest).1,
      (scan d (advance d place c).2 rest).2) :=
  rfl

theorem scan_append (place : Place) (a b : List Char) :
    scan d place (a ++ b) =
      ((scan d place a).1 ++ (scan d (scan d place a).2 b).1, (scan d (scan d place a).2 b).2) := by
  induction a generalizing place with
  | nil => rfl
  | cons c rest ih => simp only [List.cons_append, scan_cons, ih, List.append_assoc]

/-- The text is cut into these lexemes, and another token can begin after it. -/
def Lexes (d : Dialect) (text : List Char) (ls : List Lexeme) : Prop :=
  lexemes d text = ls ∧ (scan d .outside text).2.isSettled = true

instance (text : List Char) : Decidable (Lexes d text ls) :=
  inferInstanceAs (Decidable (_ ∧ _))

theorem isBoundary_quoteMark (d : Dialect) : isBoundary d.quoteMark = false := by
  cases d <;> rfl

theorem ne_quoteMark {c : Char} (h : isBoundary c = true) : c ≠ d.quoteMark := by
  rintro rfl
  rw [isBoundary_quoteMark] at h
  cases h

theorem begin_boundary {c : Char} (h : isBoundary c = true) : (begin d c).2 = .outside := by
  rw [isBoundary, Bool.or_eq_true] at h
  unfold begin
  split
  · rfl
  · next hblank =>
    rw [if_pos (h.resolve_left hblank)]

/-- A boundary completes what a settled place has pending. -/
theorem advance_boundary {c : Char} (h : isBoundary c = true) (hplace : place.isSettled = true) :
    advance d place c = (place.pending ++ (begin d c).1, .outside) := by
  have hdot : c ≠ '.' := by
    rintro rfl
    cases h
  rw [← begin_boundary (d := d) h]
  cases place with
  | outside => rfl
  | inWord sofar => simp only [advance, h, Bool.true_or, if_true]
  | inName sofar => cases hplace
  | behindMark sofar => simp only [advance, if_neg (ne_quoteMark h), if_neg hdot]
  | behindDot sofar => cases hplace

theorem advance_outside (c : Char) : advance d .outside c = begin d c :=
  Prod.ext (List.nil_append _) rfl

/-- A text goes on as if it began anew, if what follows begins with a boundary. -/
theorem scan_boundary {c : Char} (hc : isBoundary c = true) (hplace : place.isSettled = true)
    (rest : List Char) : scan d place (c :: rest) =
      (place.pending ++ (scan d .outside (c :: rest)).1, (scan d .outside (c :: rest)).2) := by
  have hbegin : begin d c = ((begin d c).1, .outside) :=
    Prod.ext rfl (begin_boundary hc)
  rw [scan_cons, scan_cons, advance_boundary hc hplace, advance_outside, hbegin, List.append_assoc]

theorem Lexes.append_boundary (ha : Lexes d a ls) {c : Char} {rest : List Char}
    (hb : Lexes d (c :: rest) ms) (hc : isBoundary c = true) : Lexes d (a ++ c :: rest) (ls ++ ms) := by
  obtain ⟨rfl, hsettled⟩ := ha
  obtain ⟨rfl, hsettled'⟩ := hb
  refine ⟨?_, ?_⟩
  · simp only [lexemes, scan_append, scan_boundary hc hsettled, List.append_assoc]
  · rw [scan_append, scan_boundary hc hsettled]
    exact hsettled'

theorem begin_blank : begin d ' ' = ([], .outside) :=
  rfl

/-- A blank before a token is passed over. -/
theorem Lexes.blank_cons (h : Lexes d a ls) : Lexes d (' ' :: a) ls := by
  obtain ⟨rfl, hsettled⟩ := h
  refine ⟨?_, ?_⟩
  · simp only [lexemes, scan_cons, advance_outside, begin_blank, List.nil_append]
  · rw [scan_cons, advance_outside, begin_blank]
    exact hsettled

/-- A text that ends in an opening bracket or a blank has nothing pending. -/
theorem place_of_endsOpen (hopen : endsOpen a = true)
    (hsettled : (scan d .outside a).2.isSettled = true) : (scan d .outside a).2 = .outside := by
  obtain rfl | ⟨init, c, rfl⟩ := List.eq_nil_or_concat a
  · rfl
  rw [List.concat_eq_append] at hopen hsettled ⊢
  have hc : isBoundary c = true := by
    rw [endsOpen, List.getLast?_concat] at hopen
    simp only [Bool.or_eq_true, decide_eq_true_eq] at hopen
    obtain rfl | hblank := hopen
    · rfl
    · rw [isBoundary, hblank, Bool.true_or]
  rw [scan_append] at hsettled ⊢
  generalize (scan d .outside init).2 = place at hsettled ⊢
  rw [scan_cons] at hsettled ⊢
  change (advance d place c).2 = .outside
  change (advance d place c).2.isSettled = true at hsettled
  have hmark := ne_quoteMark (d := d) hc
  cases place with
  | outside => exact begin_boundary hc
  | inWord sofar => rw [advance_boundary hc rfl]
  | inName sofar =>
    simp only [advance, if_neg hmark] at hsettled
    cases hsettled
  | behindMark sofar => rw [advance_boundary hc rfl]
  | behindDot sofar =>
    simp only [advance, if_neg hmark]
    exact begin_boundary hc

theorem Lexes.append_open (ha : Lexes d a ls) (hopen : endsOpen a = true) (hb : Lexes d b ms) :
    Lexes d (a ++ b) (ls ++ ms) := by
  obtain ⟨rfl, hsettled⟩ := ha
  obtain ⟨rfl, hsettled'⟩ := hb
  have hplace := place_of_endsOpen hopen hsettled
  refine ⟨?_, ?_⟩
  · simp only [lexemes, scan_append, hplace, Place.pending, List.append_nil, List.append_assoc]
  · rw [scan_append, hplace]
    exact hsettled'

/-- A token that begins with a boundary if it is written right after the one before it. -/
structure Token.Lexes (d : Dialect) (t : Token) (ls : List Lexeme) : Prop where
  text : Sql.Lexes d t.text ls
  glued : t.glued = true → ∃ c rest, t.text = c :: rest ∧ isBoundary c = true

theorem Lexes.addToken (ha : Lexes d a ls) {t : Token} (ht : t.Lexes d ms) :
    Lexes d (addToken a t) (ls ++ ms) := by
  unfold Sql.addToken
  split
  · next hjoined =>
    cases hglued : t.glued with
    | true =>
      obtain ⟨c, rest, htext, hc⟩ := ht.glued hglued
      have hlexes := ht.text
      rw [htext] at hlexes ⊢
      exact ha.append_boundary hlexes hc
    | false =>
      rw [hglued, Bool.false_or] at hjoined
      exact ha.append_open hjoined ht.text
  · exact ha.append_boundary ht.text.blank_cons rfl

/-- A layout is cut into the lexemes of its tokens. -/
theorem layout_lexes {tokens : List Token} {lss : List (List Lexeme)}
    (h : List.Forall₂ (Token.Lexes d) tokens lss) : Lexes d (layout tokens) lss.flatten := by
  suffices hfold : ∀ written ls, Lexes d written ls →
      Lexes d (tokens.foldl Sql.addToken written) (ls ++ lss.flatten) from hfold [] [] ⟨rfl, rfl⟩
  induction h with
  | nil => exact fun written ls hw => by simpa using hw
  | cons ht _ ih =>
    intro written ls hw
    have hrest := ih _ _ (hw.addToken ht)
    rwa [List.append_assoc] at hrest

section Tokens

/-- A character that can stand in any word. -/
def isPlain (d : Dialect) (c : Char) : Bool :=
  !isBoundary c && c ≠ d.quoteMark

theorem advance_inWord {c : Char} (h : isPlain d c = true) (sofar : List Char) :
    advance d (.inWord sofar) c = ([], .inWord (sofar ++ [c])) := by
  simp only [isPlain, Bool.and_eq_true, Bool.not_eq_true', decide_eq_true_eq] at h
  simp [advance, h.1, h.2]

theorem begin_plain {c : Char} (h : isPlain d c = true) : begin d c = ([], .inWord [c]) := by
  simp only [isPlain, isBoundary, Bool.and_eq_true, Bool.not_eq_true', decide_eq_true_eq,
    Bool.or_eq_false_iff] at h
  simp [begin, h.1.1, h.1.2, h.2]

theorem lexes_word {c : Char} {rest : List Char} (h : ∀ x ∈ c :: rest, isPlain d x = true) :
    Lexes d (c :: rest) [.word (c :: rest)] := by
  obtain ⟨hc, hrest⟩ := List.forall_mem_cons.mp h
  have hscan (sofar : List Char) : scan d (.inWord sofar) rest = ([], .inWord (sofar ++ rest)) := by
    clear h
    induction rest generalizing sofar with
    | nil => exact congrArg (fun w => ([], Place.inWord w)) (List.append_nil sofar).symm
    | cons x rest ih =>
      obtain ⟨hx, hrest⟩ := List.forall_mem_cons.mp hrest
      rw [scan_cons, advance_inWord hx, ih hrest, List.append_assoc]
      rfl
  have hwhole : scan d .outside (c :: rest) = ([], .inWord (c :: rest)) := by
    rw [scan_cons, advance_outside, begin_plain hc, hscan]
    rfl
  rw [Lexes, lexemes, hwhole]
  exact ⟨rfl, rfl⟩

theorem isPlain_of_isDigit {c : Char} (h : Text.isDigit c = true) : isPlain d c = true := by
  have hdigits : ∀ n : Fin 128, Text.isDigit (Char.ofNat n) = true →
      isBoundary (Char.ofNat n) = false ∧ Char.ofNat n ≠ '"' ∧ Char.ofNat n ≠ '`' := by
    decide
  have hlt : c.toNat < 128 := by
    simp only [Text.isDigit, Bool.and_eq_true, decide_eq_true_eq] at h
    have hle : c.toNat ≤ 57 := h.2
    omega
  have hc := hdigits ⟨c.toNat, hlt⟩
  rw [Char.ofNat_toNat] at hc
  obtain ⟨hboundary, hdouble, hback⟩ := hc h
  cases d <;> simp [isPlain, hboundary, Dialect.quoteMark, hdouble, hback]

/-- A placeholder is a word. -/
theorem lexes_mark (d : Dialect) (number : Nat) :
    Lexes d (d.placeholder.mark number) [.word (d.placeholder.mark number)] := by
  have hdigits : ∀ c ∈ Text.digits number, isPlain d c = true :=
    fun c hc => isPlain_of_isDigit (Text.isRow_digits number c hc)
  cases d with
  | postgres => exact lexes_word (List.forall_mem_cons.mpr ⟨rfl, hdigits⟩)
  | mysql => exact lexes_word (List.forall_mem_cons.mpr ⟨rfl, by simp⟩)
  | sqlite => exact lexes_word (List.forall_mem_cons.mpr ⟨rfl, hdigits⟩)

end Tokens

section Names

variable (d : Dialect)

/-- A character of a name in the case in which the dialect compares names. -/
def Dialect.foldChar (c : Char) : List Char :=
  if d.foldsCase then Text.Lowercase.lower c else [c]

def Dialect.foldName (name : String) : String :=
  String.ofList (name.toList.flatMap d.foldChar)

theorem begin_quoteMark : begin d d.quoteMark = ([], .inName []) := by
  cases d <;> rfl

theorem foldChar_quoteMark : d.foldChar d.quoteMark = [d.quoteMark] := by
  cases d <;> rfl

theorem foldChar_dot : d.foldChar '.' = ['.'] := by
  cases d <;> rfl

theorem quoteMark_ne_dot : d.quoteMark ≠ '.' := by
  cases d <;> decide

theorem ne_quoteMark_of_mem_foldChar {c x : Char} (hc : c ≠ d.quoteMark) (h : x ∈ d.foldChar c) :
    x ≠ d.quoteMark := by
  cases d with
  | postgres => exact Text.Lowercase.ne_of_mem_lower hc h
  | mysql => exact List.mem_singleton.mp h ▸ hc
  | sqlite => exact List.mem_singleton.mp h ▸ hc

theorem scan_inName {cs : List Char} (h : ∀ x ∈ cs, x ≠ d.quoteMark) (sofar : List Char) :
    scan d (.inName sofar) cs = ([], .inName (sofar ++ cs)) := by
  induction cs generalizing sofar with
  | nil => exact congrArg (fun n => ([], Place.inName n)) (List.append_nil sofar).symm
  | cons x rest ih =>
    obtain ⟨hx, hrest⟩ := List.forall_mem_cons.mp h
    have hstep : advance d (.inName sofar) x = ([], .inName (sofar ++ [x])) := by
      simp only [advance, if_neg hx]
    rw [scan_cons, hstep, ih hrest, List.append_assoc]
    rfl

/-- What stands for a character between quote marks is read as that character. -/
theorem scan_nameChar (c : Char) (sofar : List Char) :
    scan d (.inName sofar) (if c = '.' then [d.quoteMark, '.', d.quoteMark] else d.quoteChar c) =
      ([], .inName (sofar ++ d.foldChar c)) := by
  split
  · next hdot =>
    simp only [scan, advance, hdot, foldChar_dot, if_neg (quoteMark_ne_dot d).symm, if_true,
      List.append_nil]
  · unfold Dialect.quoteChar
    split
    · next hmark =>
      change scan d _ ([c] ++ d.foldChar c) = _
      simp only [hmark, foldChar_quoteMark, List.singleton_append, scan, advance, if_true,
        List.append_nil]
    · next hmark =>
      exact scan_inName d (fun x hx => ne_quoteMark_of_mem_foldChar d hmark hx) sofar

/-- A quoted name is read as the name in the case of the dialect. -/
theorem lexes_quoteName (name : List Char) :
    Lexes d (d.quoteName name) [.name (name.flatMap d.foldChar)] := by
  have hbody (sofar : List Char) : scan d (.inName sofar) (name.flatMap fun c =>
      if c = '.' then [d.quoteMark, '.', d.quoteMark] else d.quoteChar c) =
        ([], .inName (sofar ++ name.flatMap d.foldChar)) := by
    induction name generalizing sofar with
    | nil => exact congrArg (fun n => ([], Place.inName n)) (List.append_nil sofar).symm
    | cons c rest ih =>
      rw [List.flatMap_cons, List.flatMap_cons, scan_append, scan_nameChar, ih, List.append_assoc]
      rfl
  have hscan : scan d .outside (d.quoteName name) =
      ([], .behindMark (name.flatMap d.foldChar)) := by
    unfold Dialect.quoteName
    rw [List.cons_append, scan_cons, advance_outside, begin_quoteMark, scan_append, hbody]
    simp only [scan, advance, if_true, List.nil_append]
  rw [Lexes, lexemes, hscan]
  exact ⟨rfl, rfl⟩

end Names

end Sql

end Polystore
