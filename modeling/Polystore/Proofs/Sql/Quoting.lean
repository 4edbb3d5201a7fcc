import Polystore.Proofs.Sql.Lexemes
import Polystore.Proofs.Text.Split

/-!
Quoted names and how they are read: names between quote marks with dots between them, where two marks
inside a name stand for one. Main statement: from a name that a dialect has quoted a reader gets its
parts in the case of the dialect and has nothing left over, so only names with the same parts are
written alike.
-/

namespace Polystore.Sql

namespace Delimited

/-- Where a reader of names between quote marks is. -/
inductive Place where
  /-- A name comes next, with its quote mark. -/
  | before
  | inside (sofar : List Char)
  /-- Behind a quote mark in a name, which ends there unless another mark follows. -/
  | behindMark (sofar : List Char)

/-- The names from a place in a text to its end. There is nothing if anything else stands between them
or the text ends within a name. -/
def read (mark : Char) : Place → List Char → Option (List (List Char))
  | .before, [] => none
  | .inside _, [] => none
  | .behindMark sofar, [] => some [sofar]
  | .before, c :: rest => if c = mark then read mark (.inside []) rest else none
  | .inside sofar, c :: rest =>
    if c = mark then read mark (.behindMark sofar) rest
    else read mark (.inside (sofar ++ [c])) rest
  | .behindMark sofar, c :: rest =>
    if c = mark then read mark (.inside (sofar ++ [c])) rest
    else if c = '.' then (read mark .before rest).map (sofar :: ·)
    else none

/-- A name in which every quote mark is written twice. -/
def doubled (mark : Char) (name : List Char) : List Char :=
  name.flatMap fun c => if c = mark then [c, c] else [c]

/-- The names that come after a first one. -/
def following (mark : Char) (names : List (List Char)) : List Char :=
  names.flatMap fun name => '.' :: mark :: (doubled mark name ++ [mark])

/-- What is left to read of some names, from the middle of the first of them. -/
def remaining (mark : Char) (name : List Char) (more : List (List Char)) : List Char :=
  doubled mark name ++ mark :: following mark more

variable {mark : Char}

theorem doubled_append (a b : List Char) :
    doubled mark (a ++ b) = doubled mark a ++ doubled mark b :=
  List.flatMap_append

theorem doubled_of_ne {name : List Char} (h : ∀ c ∈ name, c ≠ mark) : doubled mark name = name := by
  induction name with
  | nil => rfl
  | cons c name ih =>
    obtain ⟨hc, hname⟩ := List.forall_mem_cons.mp h
    rw [doubled, List.flatMap_cons, if_neg hc]
    exact congrArg (c :: ·) (ih hname)

theorem following_cons (name : List Char) (more : List (List Char)) :
    following mark (name :: more) = '.' :: mark :: remaining mark name more := by
  simp [following, remaining]

theorem cons_eq_following_iff {c : Char} {text : List Char} {names : List (List Char)} :
    c :: text = following mark names ↔
      c = '.' ∧ ∃ name more, names = name :: more ∧ text = mark :: remaining mark name more := by
  cases names with
  | nil => simp [following]
  | cons name more =>
    rw [following_cons, List.cons.injEq]
    constructor
    · rintro ⟨hdot, htext⟩
      exact ⟨hdot, name, more, rfl, htext⟩
    · rintro ⟨hdot, _, _, hnames, htext⟩
      cases hnames
      exact ⟨hdot, htext⟩

/-- A name ends at a single mark; the first character of a longer one is a doubled mark or is no
mark. -/
theorem cons_eq_remaining_iff {c : Char} {text name : List Char} {more : List (List Char)} :
    c :: text = remaining mark name more ↔
      (name = [] ∧ c = mark ∧ text = following mark more) ∨
      (∃ rest, name = c :: rest ∧ c = mark ∧ text = mark :: remaining mark rest more) ∨
      ∃ rest, name = c :: rest ∧ c ≠ mark ∧ text = remaining mark rest more := by
  cases name with
  | nil => simp [remaining, doubled]
  | cons first rest =>
    by_cases hfirst : first = mark
    · subst hfirst
      simp only [remaining, doubled, List.flatMap_cons, if_pos, List.cons_append, List.nil_append,
        List.cons.injEq, reduceCtorEq, false_and, false_or]
      constructor
      · rintro ⟨rfl, htext⟩
        exact .inl ⟨rest, ⟨rfl, rfl⟩, rfl, htext⟩
      · rintro (⟨_, ⟨-, rfl⟩, rfl, htext⟩ | ⟨_, ⟨rfl, -⟩, hne, -⟩)
        · exact ⟨rfl, htext⟩
        · exact absurd rfl hne
    · simp only [remaining, doubled, List.flatMap_cons, if_neg hfirst, List.cons_append,
        List.nil_append, List.cons.injEq, reduceCtorEq, false_and, false_or]
      constructor
      · rintro ⟨rfl, htext⟩
        exact .inr ⟨rest, ⟨rfl, rfl⟩, hfirst, htext⟩
      · rintro (⟨_, ⟨rfl, -⟩, hmark, -⟩ | ⟨_, ⟨rfl, rfl⟩, -, htext⟩)
        · exact absurd hmark hfirst
        · exact ⟨rfl, htext⟩

/-- From this place on, the text is what is left to read of these names. -/
def Spells (mark : Char) (text : List Char) (names : List (List Char)) : Place → Prop
  | .before => ∃ name more, names = name :: more ∧ text = mark :: remaining mark name more
  | .inside sofar => ∃ name more, names = (sofar ++ name) :: more ∧ text = remaining mark name more
  | .behindMark sofar =>
    ∃ name more, names = (sofar ++ name) :: more ∧ mark :: text = remaining mark name more

theorem Spells.text_unique {a b : List Char} {names : List (List Char)}
    (ha : Spells mark a names .before) (hb : Spells mark b names .before) : a = b := by
  obtain ⟨name, more, rfl, rfl⟩ := ha
  obtain ⟨_, _, hnames, rfl⟩ := hb
  cases hnames
  rfl

section Steps

variable {c : Char} {text : List Char} {names : List (List Char)} (sofar : List Char)

theorem spells_inside_cons (hc : c ≠ mark) : Spells mark (c :: text) names (.inside sofar) ↔
    Spells mark text names (.inside (sofar ++ [c])) := by
  simp only [Spells, cons_eq_remaining_iff, List.append_assoc, List.singleton_append]
  constructor
  · rintro ⟨name, more, rfl, ⟨-, h, -⟩ | ⟨rest, -, h, -⟩ | ⟨rest, rfl, -, htext⟩⟩
    · exact absurd h hc
    · exact absurd h hc
    · exact ⟨rest, more, rfl, htext⟩
  · rintro ⟨name, more, rfl, rfl⟩
    exact ⟨c :: name, more, rfl, .inr (.inr ⟨name, rfl, hc, rfl⟩)⟩

/-- What follows a mark that no other mark comes after: the end of the text, or a dot. -/
theorem spells_behind_other (htext : text.head? ≠ some mark) :
    Spells mark text names (.behindMark sofar) ↔
      ∃ more, names = sofar :: more ∧ text = following mark more := by
  simp only [Spells, cons_eq_remaining_iff]
  constructor
  · rintro ⟨name, more, rfl, ⟨rfl, -, h⟩ | ⟨rest, -, -, rfl⟩ | ⟨rest, -, h, -⟩⟩
    · exact ⟨more, by rw [List.append_nil], h⟩
    · exact absurd rfl htext
    · exact absurd rfl h
  · rintro ⟨more, rfl, rfl⟩
    exact ⟨[], more, by rw [List.append_nil], .inl ⟨rfl, trivial, rfl⟩⟩

theorem spells_behind_mark (hmark : mark ≠ '.') :
    Spells mark (mark :: text) names (.behindMark sofar) ↔
      Spells mark text names (.inside (sofar ++ [mark])) := by
  simp only [Spells, cons_eq_remaining_iff, List.append_assoc, List.singleton_append]
  constructor
  · rintro ⟨name, more, rfl, ⟨-, -, h⟩ | ⟨rest, rfl, -, htext⟩ | ⟨rest, -, h, -⟩⟩
    · exact absurd (cons_eq_following_iff.mp h).1 hmark
    · exact ⟨rest, more, rfl, (List.cons.inj htext).2⟩
    · exact absurd rfl h
  · rintro ⟨name, more, rfl, rfl⟩
    exact ⟨mark :: name, more, rfl, .inr (.inl ⟨name, rfl, trivial, rfl⟩)⟩

end Steps

/-- A reader gets just the names that the text is written for. -/
theorem read_eq_some_iff (hmark : mark ≠ '.') (place : Place) (text : List Char)
    (names : List (List Char)) : read mark place text = some names ↔ Spells mark text names place := by
  induction text generalizing place names with
  | nil =>
    cases place with
    | before => simp [read, Spells]
    | inside sofar => simp [read, Spells, remaining]
    | behindMark sofar =>
      rw [spells_behind_other sofar (by simp), read, Option.some.injEq]
      constructor
      · rintro rfl
        exact ⟨[], rfl, rfl⟩
      · rintro ⟨more, rfl, h⟩
        cases more with
        | nil => rfl
        | cons next more => simp [following] at h
  | cons c text ih =>
    cases place with
    | before =>
      by_cases hc : c = mark
      · rw [read, if_pos hc, ih]
        simp [Spells, hc]
      · simp [read, Spells, hc]
    | inside sofar =>
      by_cases hc : c = mark
      · -- whether the name ends here is for the next place to say
        rw [read, if_pos hc, ih, hc]
        exact Iff.rfl
      · rw [read, if_neg hc, ih, spells_inside_cons sofar hc]
    | behindMark sofar =>
      by_cases hc : c = mark
      · rw [read, if_pos hc, ih, hc, spells_behind_mark sofar hmark]
      · rw [read, if_neg hc, spells_behind_other sofar (by simpa using hc)]
        simp only [cons_eq_following_iff]
        by_cases hdot : c = '.'
        · rw [if_pos hdot, Option.map_eq_some_iff]
          simp only [ih, Spells]
          constructor
          · rintro ⟨_, ⟨name, more, rfl, rfl⟩, rfl⟩
            exact ⟨_, rfl, hdot, name, more, rfl, rfl⟩
          · rintro ⟨_, rfl, -, name, more, rfl, htext⟩
            exact ⟨_, ⟨name, more, rfl, htext⟩, rfl⟩
        · simp [hdot]

end Delimited

namespace Dialect

variable (d : Dialect)

/-- The parts of a dotted name in the case in which the dialect compares names. -/
def partsOf (name : List Char) : List (List Char) :=
  (Text.split '.' name).map fun part => part.flatMap d.foldChar

theorem quoteChar_eq (c : Char) : d.quoteChar c = Delimited.doubled d.quoteMark (d.foldChar c) := by
  by_cases hc : c = d.quoteMark
  · rw [quoteChar, if_pos hc, hc]
    cases d <;> decide
  · rw [quoteChar, if_neg hc, List.nil_append,
      Delimited.doubled_of_ne fun x hx => ne_quoteMark_of_mem_foldChar d hc hx]
    rfl

theorem partsOf_dot (name : List Char) : d.partsOf ('.' :: name) = [] :: d.partsOf name := by
  rw [partsOf, Text.split, if_pos rfl]
  rfl

theorem partsOf_cons {c : Char} (hc : c ≠ '.') {name first : List Char} {more : List (List Char)}
    (h : d.partsOf name = first :: more) : d.partsOf (c :: name) = (d.foldChar c ++ first) :: more := by
  rw [partsOf, Text.split, if_neg hc]
  rw [partsOf] at h
  split
  · next hsplit =>
    rw [hsplit] at h
    cases h
  · next part parts hsplit =>
    rw [hsplit] at h
    cases h
    rfl

/-- A quoted name is written for the parts of the name. -/
theorem quoteName_spells (name : List Char) :
    Delimited.Spells d.quoteMark (d.quoteName name) (d.partsOf name) .before := by
  suffices h : ∃ first more, d.partsOf name = first :: more ∧
      (name.flatMap fun c => if c = '.' then [d.quoteMark, '.', d.quoteMark] else d.quoteChar c) ++
        [d.quoteMark] = Delimited.remaining d.quoteMark first more by
    obtain ⟨first, more, hparts, hbody⟩ := h
    exact ⟨first, more, hparts, congrArg (d.quoteMark :: ·) hbody⟩
  induction name with
  | nil => exact ⟨[], [], rfl, rfl⟩
  | cons c name ih =>
    obtain ⟨first, more, hparts, hbody⟩ := ih
    by_cases hc : c = '.'
    · refine ⟨[], first :: more, ?_, ?_⟩
      · rw [hc, partsOf_dot, hparts]
      · simp only [List.flatMap_cons, if_pos hc, List.append_assoc, hbody, Delimited.remaining,
          Delimited.following_cons]
        rfl
    · refine ⟨d.foldChar c ++ first, more, d.partsOf_cons hc hparts, ?_⟩
      rw [List.flatMap_cons, if_neg hc, List.append_assoc, hbody, quoteChar_eq, Delimited.remaining,
        Delimited.remaining, Delimited.doubled_append, List.append_assoc]

end Dialect

/-- A reader of quoted names between dots gets the parts of a name from what a dialect has quoted, and
from no other text, and comes to the end of it with the last one. Two names are written alike just if
they have the same parts. -/
theorem quoted_names_read_back (d : Dialect) :
    (∀ name text, Delimited.read d.quoteMark .before text = some (d.partsOf name) ↔
      text = d.quoteName name) ∧
    ∀ name other, d.quoteName name = d.quoteName other ↔ d.partsOf name = d.partsOf other := by
  have hread (name text : List Char) :
      Delimited.read d.quoteMark .before text = some (d.partsOf name) ↔ text = d.quoteName name := by
    rw [Delimited.read_eq_some_iff (quoteMark_ne_dot d)]
    constructor
    · exact fun htext => htext.text_unique (d.quoteName_spells name)
    · rintro rfl
      exact d.quoteName_spells name
  refine ⟨hread, fun name other => ?_⟩
  have hname := (hread name _).mpr rfl
  rw [← hread other, hname, Option.some.injEq]

/-- A mark and a dot within a name, a letter whose lower case is two characters, and an empty part. -/
example : Delimited.read '"' .before (Dialect.postgres.quoteName "A\".\u0130.".toList) =
    some ["a\"".toList, "i\u0307".toList, []] := by
  decide +kernel

end Polystore.Sql
