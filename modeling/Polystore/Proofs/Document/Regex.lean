import Mathlib.Data.List.Forall2
import Mathlib.Tactic.ByContra
import Polystore.Document.Pattern

/-!
Regular expressions as the document store's matcher reads them, without groups, classes and
repetitions, and with anchors that mean the ends of the whole subject. Main statements: an escaped
text is read as its own characters, less what an extended expression passes over, and where such an
expression is found.
-/

namespace Polystore.Document.Regex

/-- What an expression is made of. -/
inductive Atom where
  | char (c : Char)
  | start
  | stop
deriving DecidableEq, Repr

/-- White space that an extended expression passes over. -/
def isLayout (c : Char) : Bool :=
  ['\t', '\n', '\x0b', '\x0c', '\r', ' ', '\u0085', '\u200e', '\u200f', '\u2028', '\u2029'].contains c

/-- Characters that stand for any character or belong to groups, classes, repetitions or
alternatives. -/
def isReserved (c : Char) : Bool :=
  ['.', '|', '?', '*', '+', '(', ')', '[', '\x7b'].contains c

/-- The atoms of an expression, read from within a comment or not. A backslash takes the meaning from
any character but a letter or digit. In an extended expression a number sign begins a comment, which
goes to the end of the line. -/
def scan (extended : Bool) : (comment : Bool) → List Char → Option (List Atom)
  | _, [] => some []
  | true, c :: rest => scan extended (c != '\n') rest
  | false, '\\' :: c :: rest =>
    if c.isAlphanum then none else (scan extended false rest).map (.char c :: ·)
  | false, c :: rest =>
    if c = '\\' || isReserved c then none
    else if c = '^' then (scan extended false rest).map (.start :: ·)
    else if c = '$' then (scan extended false rest).map (.stop :: ·)
    else if extended && isLayout c then scan extended false rest
    else if extended && c = '#' then scan extended true rest
    else (scan extended false rest).map (.char c :: ·)

end Regex

/-- A regular expression, compared with or without regard to case. -/
structure Regex where
  atoms : List Regex.Atom
  caseless : Bool
deriving DecidableEq

namespace Regex

/-- The expression that a pattern and its options spell. Options that change the anchors are not read
here. -/
def read? (source options : List Char) : Option Regex :=
  if options.contains 'm' then none
  else (scan (options.contains 'x') false source).map fun atoms => ⟨atoms, options.contains 'i'⟩

section Matching

-- Which characters are the same but for their case.
variable (fold : Char → Char → Bool)

/-- Does a character of an expression match one of the subject? -/
def alike (caseless : Bool) (c d : Char) : Bool :=
  c == d || caseless && fold c d

/-- Do atoms match from a place on, which may be the start of the subject? The last place is before a
line feed that ends the subject, or at its end. -/
def matchesAt (caseless : Bool) : List Atom → (first : Bool) → List Char → Bool
  | [], _, _ => true
  | .char _ :: _, _, [] => false
  | .char c :: atoms, _, d :: after => alike fold caseless c d && matchesAt caseless atoms false after
  | .start :: atoms, first, after => first && matchesAt caseless atoms first after
  | .stop :: atoms, first, after =>
    (after == [] || after == ['\n']) && matchesAt caseless atoms first after

/-- Do atoms match from some place on? -/
def matchesFrom (caseless : Bool) (atoms : List Atom) : (first : Bool) → List Char → Bool
  | first, [] => matchesAt fold caseless atoms first []
  | first, d :: after =>
    matchesAt fold caseless atoms first (d :: after) || matchesFrom caseless atoms false after

/-- Is an expression found in a subject? -/
def finds (r : Regex) (subject : List Char) : Bool :=
  matchesFrom fold r.caseless r.atoms true subject

end Matching

/-! ### Escaped texts -/

/-- Whether a comment is open after a text. -/
def commentAfter (extended : Bool) : (comment : Bool) → List Char → Bool
  | comment, [] => comment
  | true, c :: rest => commentAfter extended (c != '\n') rest
  | false, c :: rest => commentAfter extended (extended && c = '#') rest

/-- The characters of a text that an expression keeps. -/
def kept (extended : Bool) : (comment : Bool) → List Char → List Char
  | _, [] => []
  | true, c :: rest => kept extended (c != '\n') rest
  | false, c :: rest =>
    if extended && isLayout c then kept extended false rest
    else if extended && c = '#' then kept extended true rest
    else c :: kept extended false rest

theorem commentAfter_plain (text : List Char) : commentAfter false false text = false := by
  induction text with
  | nil => rfl
  | cons c text ih => exact ih

theorem kept_plain (text : List Char) : kept false false text = text := by
  induction text with
  | nil => rfl
  | cons c text ih => exact congrArg (c :: ·) ih

/-- Without white space and number signs nothing is passed over. -/
theorem kept_of_clear {extended : Bool} {text : List Char}
    (h : ∀ c ∈ text, isLayout c = false ∧ c ≠ '#') :
    kept extended false text = text ∧ commentAfter extended false text = false := by
  induction text with
  | nil => exact ⟨rfl, rfl⟩
  | cons c text ih =>
    obtain ⟨⟨hlayout, hsign⟩, hrest⟩ := List.forall_mem_cons.mp h
    obtain ⟨hkept, hafter⟩ := ih hrest
    rw [kept, commentAfter]
    simp only [hlayout, hsign, Bool.and_false, decide_false, Bool.false_eq_true, if_false, hkept,
      hafter, and_self]

/-- A character that is escaped is no letter or digit, and is not passed over. -/
theorem of_isSpecial {c : Char} (h : isSpecial c = true) :
    c.isAlphanum = false ∧ isLayout c = false ∧ c ≠ '#' ∧ c ≠ '\n' := by
  simp only [isSpecial, List.contains_iff_mem, List.mem_cons, List.not_mem_nil, or_false] at h
  rcases h with rfl | rfl | rfl | rfl | rfl | rfl | rfl | rfl | rfl | rfl | rfl | rfl | rfl | rfl
  all_goals decide

theorem of_not_isSpecial {c : Char} (h : isSpecial c = false) :
    c ≠ '\\' ∧ isReserved c = false ∧ c ≠ '^' ∧ c ≠ '$' := by
  simp only [isSpecial, List.contains_eq_mem, decide_eq_false_iff_not, List.mem_cons,
    List.not_mem_nil, or_false, not_or] at h
  simp [isReserved, h]

/-- A character without a meaning of its own. -/
theorem scan_plain {extended : Bool} {c : Char} (h : isSpecial c = false) (rest : List Char) :
    scan extended false (c :: rest) =
      if extended && isLayout c then scan extended false rest
      else if extended && c = '#' then scan extended true rest
      else (scan extended false rest).map (.char c :: ·) := by
  obtain ⟨hslash, hreserved, hstart, hstop⟩ := of_not_isSpecial h
  rw [scan]
  · simp only [hslash, hreserved, hstart, hstop, decide_false, Bool.or_self, Bool.false_eq_true,
      if_false]
  · intro d more hc
    exact absurd hc hslash

theorem escape_special {c : Char} (h : isSpecial c = true) (text : List Char) :
    escape (c :: text) = '\\' :: c :: escape text := by
  rw [escape, List.flatMap_cons, if_pos h]
  rfl

theorem escape_plain {c : Char} (h : isSpecial c = false) (text : List Char) :
    escape (c :: text) = c :: escape text := by
  rw [escape, List.flatMap_cons, h]
  rfl

/-- An escaped text is read as the characters that are kept of it, whatever comes after it. -/
theorem scan_escape (extended comment : Bool) (text rest : List Char) :
    scan extended comment (escape text ++ rest) =
      (scan extended (commentAfter extended comment text) rest).map
        ((kept extended comment text).map Atom.char ++ ·) := by
  induction text generalizing comment with
  | nil => cases comment <;> simp [escape, commentAfter, kept]
  | cons c text ih =>
    have hchar (read : Option (List Atom)) (more : List Atom) :
        (read.map (more ++ ·)).map (Atom.char c :: ·) = read.map (Atom.char c :: more ++ ·) :=
      Option.map_map _ _ _
    cases comment with
    | true =>
      rw [commentAfter, kept, ← ih]
      by_cases hspecial : isSpecial c = true
      · have hslash : ('\\' != '\n') = true := rfl
        rw [escape_special hspecial, List.cons_append, List.cons_append, scan, hslash, scan]
      · rw [escape_plain (eq_false_of_ne_true hspecial), List.cons_append, scan]
    | false =>
      by_cases hspecial : isSpecial c = true
      · obtain ⟨halnum, hlayout, hsign, -⟩ := of_isSpecial hspecial
        rw [escape_special hspecial, List.cons_append, List.cons_append, scan, halnum, commentAfter,
          kept, hlayout, decide_eq_false hsign, Bool.and_false, ih]
        exact hchar _ _
      · rw [escape_plain (eq_false_of_ne_true hspecial), List.cons_append,
          scan_plain (eq_false_of_ne_true hspecial), commentAfter, kept]
        by_cases hlayout : (extended && isLayout c) = true
        · have hsign : c ≠ '#' := by
            rintro rfl
            revert hlayout
            cases extended <;> decide
          rw [if_pos hlayout, if_pos hlayout, ih, decide_eq_false hsign, Bool.and_false]
        · rw [if_neg hlayout, if_neg hlayout]
          by_cases hsign : (extended && decide (c = '#')) = true
          · rw [if_pos hsign, if_pos hsign, ih, hsign]
          · rw [if_neg hsign, if_neg hsign, ih, eq_false_of_ne_true hsign]
            exact hchar _ _

theorem scan_nil (extended comment : Bool) : scan extended comment [] = some [] := by
  cases comment <;> rfl

theorem scan_start (extended : Bool) (rest : List Char) :
    scan extended false ('^' :: rest) = (scan extended false rest).map (.start :: ·) := by
  rw [scan]
  · rfl
  · exact fun d more hc => absurd hc (by decide)

/-- A comment that is open swallows an end mark. -/
theorem scan_stop (extended comment : Bool) :
    scan extended comment ['$'] = some (if comment then [] else [.stop]) := by
  cases comment <;> cases extended <;> rfl

/-! ### Where an expression is found -/

section

variable {fold : Char → Char → Bool} {caseless : Bool}

/-- The characters of a text one by one, but for their case. -/
def Alike (fold : Char → Char → Bool) (caseless : Bool) : List Char → List Char → Prop :=
  List.Forall₂ fun c d => alike fold caseless c d = true

theorem matchesAt_chars {text : List Char} {atoms : List Atom} {first : Bool} {subject : List Char} :
    matchesAt fold caseless (text.map .char ++ atoms) first subject = true ↔
      ∃ found rest, subject = found ++ rest ∧ Alike fold caseless text found ∧
        matchesAt fold caseless atoms (first && text.isEmpty) rest = true := by
  induction text generalizing first subject with
  | nil =>
    constructor
    · intro h
      exact ⟨[], subject, rfl, .nil, by simpa using h⟩
    · rintro ⟨found, rest, rfl, hnil, h⟩
      cases hnil
      simpa using h
  | cons c text ih =>
    cases subject with
    | nil =>
      refine iff_of_false (by simp [matchesAt]) ?_
      rintro ⟨found, rest, hempty, halike, -⟩
      cases halike
      cases hempty
    | cons d subject =>
      rw [List.map_cons, List.cons_append, matchesAt, Bool.and_eq_true, ih]
      constructor
      · rintro ⟨hchar, found, rest, rfl, halike, h⟩
        exact ⟨d :: found, rest, rfl, .cons hchar halike, by simpa using h⟩
      · rintro ⟨found, rest, hsubject, halike, h⟩
        cases halike with
        | cons hchar halike =>
          obtain ⟨rfl, rfl⟩ := List.cons.inj hsubject
          exact ⟨hchar, _, rest, rfl, halike, by simpa using h⟩

/-- Atoms match from some place on if they match after a part of the subject. -/
theorem matchesFrom_iff {atoms : List Atom} {first : Bool} {subject : List Char} :
    matchesFrom fold caseless atoms first subject = true ↔
      ∃ before after, subject = before ++ after ∧
        matchesAt fold caseless atoms (first && before.isEmpty) after = true := by
  induction subject generalizing first with
  | nil =>
    rw [matchesFrom]
    constructor
    · intro h
      exact ⟨[], [], rfl, by simpa using h⟩
    · rintro ⟨before, after, hempty, h⟩
      obtain ⟨rfl, rfl⟩ := List.append_eq_nil_iff.mp hempty.symm
      simpa using h
  | cons d subject ih =>
    rw [matchesFrom, Bool.or_eq_true, ih]
    constructor
    · rintro (h | ⟨before, after, rfl, h⟩)
      · exact ⟨[], d :: subject, rfl, by simpa using h⟩
      · exact ⟨d :: before, after, rfl, by simpa using h⟩
    · rintro ⟨before, after, hsubject, h⟩
      cases before with
      | nil =>
        obtain rfl := hsubject
        exact .inl (by simpa using h)
      | cons e before =>
        obtain ⟨rfl, rfl⟩ := List.cons.inj hsubject
        exact .inr ⟨before, after, rfl, by simpa using h⟩

variable {text subject : List Char}

theorem finds_contained :
    finds fold ⟨text.map .char, caseless⟩ subject = true ↔
      ∃ before found after, subject = before ++ found ++ after ∧ Alike fold caseless text found := by
  rw [finds, matchesFrom_iff]
  constructor
  · rintro ⟨before, after, rfl, h⟩
    rw [← List.append_nil (text.map Atom.char), matchesAt_chars] at h
    obtain ⟨found, rest, rfl, halike, -⟩ := h
    exact ⟨before, found, rest, (List.append_assoc _ _ _).symm, halike⟩
  · rintro ⟨before, found, after, rfl, halike⟩
    refine ⟨before, found ++ after, List.append_assoc _ _ _, ?_⟩
    rw [← List.append_nil (text.map Atom.char), matchesAt_chars]
    exact ⟨found, after, rfl, halike, rfl⟩

theorem finds_leading :
    finds fold ⟨.start :: text.map .char, caseless⟩ subject = true ↔
      ∃ found after, subject = found ++ after ∧ Alike fold caseless text found := by
  rw [finds, matchesFrom_iff]
  constructor
  · rintro ⟨before, after, rfl, h⟩
    rw [matchesAt, Bool.and_eq_true] at h
    obtain ⟨hstart, h⟩ := h
    obtain rfl : before = [] := by simpa using hstart
    rw [← List.append_nil (text.map Atom.char), matchesAt_chars] at h
    obtain ⟨found, rest, hrest, halike, -⟩ := h
    exact ⟨found, rest, hrest, halike⟩
  · rintro ⟨found, after, rfl, halike⟩
    refine ⟨[], found ++ after, rfl, ?_⟩
    rw [matchesAt, ← List.append_nil (text.map Atom.char), List.isEmpty_nil, Bool.and_self,
      Bool.true_and, matchesAt_chars]
    exact ⟨found, after, rfl, halike, rfl⟩

/-- The end of the subject is before a line feed too. -/
theorem finds_trailing :
    finds fold ⟨text.map .char ++ [.stop], caseless⟩ subject = true ↔
      ∃ before found, (subject = before ++ found ∨ subject = before ++ found ++ ['\n']) ∧
        Alike fold caseless text found := by
  rw [finds, matchesFrom_iff]
  constructor
  · rintro ⟨before, after, rfl, h⟩
    rw [matchesAt_chars] at h
    obtain ⟨found, rest, rfl, halike, h⟩ := h
    have hrest : rest = [] ∨ rest = ['\n'] := by simpa [matchesAt] using h
    refine ⟨before, found, hrest.imp ?_ ?_, halike⟩
    · rintro rfl
      rw [List.append_nil]
    · rintro rfl
      exact (List.append_assoc _ _ _).symm
  · rintro ⟨before, found, hsubject, halike⟩
    rcases hsubject with rfl | rfl
    · refine ⟨before, found, rfl, matchesAt_chars.mpr ⟨found, [], ?_, halike, rfl⟩⟩
      exact (List.append_nil _).symm
    · exact ⟨before, found ++ ['\n'], List.append_assoc _ _ _,
        matchesAt_chars.mpr ⟨found, ['\n'], rfl, halike, rfl⟩⟩

end

end Regex

end Polystore.Document
