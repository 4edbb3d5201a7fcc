/-!
Cutting text at marks. Main statement: nothing but the mark is lost.
-/

namespace Polystore.Text

/-- What stands before and after the first of a character. -/
def cut (mark : Char) : List Char → Option (List Char × List Char)
  | [] => none
  | c :: rest =>
    if c = mark then some ([], rest)
    else (cut mark rest).map fun (before, after) => (c :: before, after)

/-- What stands before and after the last of a character. -/
def cutLast (mark : Char) (text : List Char) : Option (List Char × List Char) :=
  (cut mark text.reverse).map fun (after, before) => (before.reverse, after.reverse)

/-- What stands before and after the first place where a text occurs. -/
def cutAt (mark : List Char) : List Char → Option (List Char × List Char)
  | [] => if mark.isEmpty then some ([], []) else none
  | c :: rest =>
    if mark.isPrefixOf (c :: rest) then some ([], (c :: rest).drop mark.length)
    else (cutAt mark rest).map fun (before, after) => (c :: before, after)

/-- The stretches between the marks; there is one more of them than there are marks. -/
def split (mark : Char) : List Char → List (List Char)
  | [] => [[]]
  | c :: rest =>
    if c = mark then [] :: split mark rest
    else
      match split mark rest with
      | [] => [[c]]
      | first :: more => (c :: first) :: more

/-- A line without the carriage return at its end. -/
def dropReturn (line : List Char) : List Char :=
  if line.getLast? = some '\r' then line.dropLast else line

/-- The lines of a text. A line feed ends a line, and a carriage return before it is no part of it. -/
def lines (text : List Char) : List (List Char) :=
  let stretches := split '\n' text
  stretches.dropLast.map dropReturn ++ (stretches.getLast?.filter fun last => !last.isEmpty).toList

theorem cut_eq_append {mark : Char} {text before after : List Char}
    (h : cut mark text = some (before, after)) : text = before ++ mark :: after := by
  induction text generalizing before with
  | nil => simp [cut] at h
  | cons c rest ih =>
    by_cases hc : c = mark
    · simp only [cut, hc, if_true, Option.some.injEq, Prod.mk.injEq] at h
      obtain ⟨rfl, rfl⟩ := h
      simp [hc]
    · simp only [cut, hc, if_false, Option.map_eq_some_iff] at h
      obtain ⟨⟨b, a⟩, hcut, hpair⟩ := h
      simp only [Prod.mk.injEq] at hpair
      obtain ⟨rfl, rfl⟩ := hpair
      simp [ih hcut]

end Polystore.Text
