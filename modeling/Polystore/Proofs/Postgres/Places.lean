import Mathlib.Data.List.DropRight
import Mathlib.Data.Prod.Lex
import Mathlib.Data.String.Basic
import Polystore.Postgres.Session

/-!
Places of errors in statements. The server counts the characters of a statement, from one; the place
is found by counting bytes. Main statements: a walk over a text ends behind the characters that begin
before its target, and so the place of an error is the right one just if the characters ahead of it,
the last one apart, take one byte each, and is too early otherwise.
-/

namespace Polystore

namespace BackendError

/-- The place behind a text. Its line is one more than the line ends in the text, and its column one
more than the characters behind the last of them. -/
def placeAfter (text : List Char) : Nat × Nat :=
  (1 + text.count '\n', 1 + (text.rtakeWhile (· ≠ '\n')).length)

/-- How many characters of a text begin before a byte, which is counted from zero. -/
def charactersBefore (byte : Nat) (text : List Char) : Nat :=
  (List.range text.length).countP fun n => decide (String.utf8Len (text.take n) < byte)

variable {text : List Char}

theorem placeAfter_concat (text : List Char) (c : Char) : placeAfter (text ++ [c]) =
    if c = '\n' then ((placeAfter text).1 + 1, 1)
    else ((placeAfter text).1, (placeAfter text).2 + 1) := by
  unfold placeAfter
  by_cases hc : c = '\n'
  · rw [if_pos hc, List.rtakeWhile_concat_neg _ _ _ (by simp [hc]), hc, List.count_append,
      List.count_singleton_self]
    rfl
  · rw [if_neg hc, List.rtakeWhile_concat_pos _ _ _ (by simp [hc]), List.count_append,
      List.count_singleton, if_neg (by simpa using hc), List.length_append]
    rfl

/-- Behind every further character the place is a later one. -/
theorem placeAfter_lt_concat (text : List Char) (c : Char) :
    toLex (placeAfter text) < toLex (placeAfter (text ++ [c])) := by
  rw [placeAfter_concat, Prod.Lex.toLex_lt_toLex]
  by_cases hc : c = '\n'
  · rw [if_pos hc]
    exact .inl (Nat.lt_succ_self _)
  · rw [if_neg hc]
    exact .inr ⟨rfl, Nat.lt_succ_self _⟩

theorem placeAfter_lt_append {more : List Char} (hmore : more ≠ []) :
    toLex (placeAfter text) < toLex (placeAfter (text ++ more)) := by
  induction more using List.reverseRecOn with
  | nil => exact absurd rfl hmore
  | append_singleton more c ih =>
    have hlast := placeAfter_lt_concat (text ++ more) c
    rw [List.append_assoc] at hlast
    rcases eq_or_ne more [] with rfl | hne
    · rwa [List.append_nil] at hlast
    · exact (ih hne).trans hlast

theorem placeAfter_take_lt {m n : Nat} (hmn : m < n) (hn : n ≤ text.length) :
    toLex (placeAfter (text.take m)) < toLex (placeAfter (text.take n)) := by
  have hsplit : text.take n = text.take m ++ (text.take n).drop m := by
    conv_lhs => rw [← List.take_append_drop m (text.take n), List.take_take, Nat.min_eq_left hmn.le]
  have hne : (text.take n).drop m ≠ [] := by
    rw [ne_eq, List.drop_eq_nil_iff, List.length_take]
    omega
  rw [hsplit]
  exact placeAfter_lt_append hne

theorem charactersBefore_cons (byte : Nat) (c : Char) (text : List Char) :
    charactersBefore byte (c :: text) =
      if byte = 0 then 0 else charactersBefore (byte - c.utf8Size) text + 1 := by
  rw [charactersBefore, List.length_cons, List.range_succ_eq_map, List.countP_cons, List.countP_map]
  by_cases hbyte : byte = 0
  · simp [hbyte]
  · have hfirst : decide (String.utf8Len ((c :: text).take 0) < byte) = true :=
      decide_eq_true (Nat.pos_of_ne_zero hbyte)
    rw [if_neg hbyte, if_pos hfirst, Nat.add_right_cancel_iff]
    refine List.countP_congr fun n _ => ?_
    rw [Function.comp_apply, decide_eq_true_iff, decide_eq_true_iff, List.take_succ_cons,
      String.utf8Len_cons]
    omega

/-- As a character takes a byte at least, no more characters than bytes stand before a byte. -/
theorem charactersBefore_le (byte : Nat) (text : List Char) : charactersBefore byte text ≤ byte := by
  induction text generalizing byte with
  | nil => exact Nat.zero_le byte
  | cons c text ih =>
    rw [charactersBefore_cons]
    split
    · exact Nat.zero_le byte
    · next hbyte =>
      have hrest := ih (byte - c.utf8Size)
      have hsize := c.utf8Size_pos
      omega

/-- As many characters as bytes stand before a byte, just if all of them but the last take one byte. -/
theorem charactersBefore_eq_self_iff {byte : Nat} (hbyte : byte ≤ text.length) :
    charactersBefore byte text = byte ↔ ∀ c ∈ text.take (byte - 1), c.utf8Size = 1 := by
  induction text generalizing byte with
  | nil =>
    obtain rfl := Nat.le_zero.mp hbyte
    exact iff_of_true rfl (by simp)
  | cons c text ih =>
    rw [charactersBefore_cons]
    rcases byte with _ | _ | byte
    · simp
    · have hnone : charactersBefore (1 - c.utf8Size) text = 0 :=
        Nat.le_zero.mp ((charactersBefore_le _ text).trans_eq (Nat.sub_eq_zero_of_le c.utf8Size_pos))
      exact iff_of_true (congrArg (· + 1) hnone) (by simp)
    · rw [if_neg (Nat.succ_ne_zero _), Nat.add_sub_cancel, List.take_succ_cons, List.forall_mem_cons,
        Nat.add_right_cancel_iff]
      have hsize := c.utf8Size_pos
      by_cases hone : c.utf8Size = 1
      · rw [hone, Nat.add_sub_cancel, ih (Nat.le_of_succ_le_succ hbyte), Nat.add_sub_cancel]
        simp
      · -- The bytes that are left behind a longer character are fewer than the characters to come.
        have hfew := charactersBefore_le (byte + 1 + 1 - c.utf8Size) text
        exact iff_of_false (by omega) fun h => hone h.1

/-- A walk that stands behind a part of a text goes on to the first character that does not begin
before the target. -/
theorem walk_placeAfter (target offset : Nat) (done text : List Char) :
    walk target offset (placeAfter done) text =
      placeAfter (done ++ text.take (charactersBefore (target - offset) text)) := by
  -- With each character walked over, `done` and the offset grow and the bytes to go become fewer.
  induction text generalizing offset done with
  | nil => rw [walk, List.take_nil, List.append_nil]
  | cons c text ih =>
    rw [charactersBefore_cons]
    by_cases hoffset : target ≤ offset
    · rw [if_pos (Nat.sub_eq_zero_of_le hoffset), List.take_zero, List.append_nil]
      exact if_pos hoffset
    · have hstep : walk target offset (placeAfter done) (c :: text) =
          walk target (offset + c.utf8Size) (placeAfter (done ++ [c])) text := by
        rw [placeAfter_concat]
        exact if_neg hoffset
      rw [hstep, ih, if_neg (by omega), Nat.sub_sub, List.take_succ_cons, List.append_assoc]
      rfl

theorem lineColumn_eq (statement : String) (position : Nat) : lineColumn statement position =
    placeAfter (statement.toList.take (charactersBefore (position - 1) statement.toList)) :=
  walk_placeAfter (position - 1) 0 [] statement.toList

/-- The place of a position is that of the character it counts to, just if the characters ahead of
that one, the last of them apart, take one byte each. -/
theorem lineColumn_eq_iff {statement : String} {position : Nat}
    (hwithin : position - 1 ≤ statement.toList.length) :
    lineColumn statement position = placeAfter (statement.toList.take (position - 1)) ↔
      ∀ c ∈ statement.toList.take (position - 2), c.utf8Size = 1 := by
  have hfew := charactersBefore_le (position - 1) statement.toList
  rw [lineColumn_eq, ← Nat.sub_sub position 1 1, ← charactersBefore_eq_self_iff hwithin]
  constructor
  · intro hplace
    by_contra hne
    exact (placeAfter_take_lt (lt_of_le_of_ne hfew hne) hwithin).ne (congrArg toLex hplace)
  · intro hcount
    rw [hcount]

/-- The place of a position is never behind that of the character it counts to. -/
theorem lineColumn_le {statement : String} {position : Nat}
    (hwithin : position - 1 ≤ statement.toList.length) :
    toLex (lineColumn statement position) ≤
      toLex (placeAfter (statement.toList.take (position - 1))) := by
  rw [lineColumn_eq]
  rcases (charactersBefore_le (position - 1) statement.toList).lt_or_eq with hlt | heq
  · exact (placeAfter_take_lt hlt hwithin).le
  · rw [heq]

end BackendError

namespace Postgres

open BackendError (placeAfter charactersBefore lineColumn lineColumn_eq lineColumn_eq_iff lineColumn_le)

namespace Report

/-- A well-formed report with a position in the statement that was sent. -/
structure PointsAt (r : Report) (position : Nat) : Prop where
  severity : (r.lookup 'S').isSome
  code : (r.lookup 'C').isSome
  message : (r.lookup 'M').isSome
  position_eq : r.number? 'P' = some (some position)
  rest : r.restIsGood (some position)

theorem error_of_failure? {r : Report} {statement : String} {e : BackendError}
    (h : r.failure? statement = some e) : r.error statement = .server e := by
  rw [error, h]

/-- What a well-formed report says reaches the caller, with its position and the place of that. -/
theorem PointsAt.exists_error {r : Report} {position : Nat} (h : r.PointsAt position)
    (statement : String) : ∃ e, r.error statement = .server e ∧ e.position = some position ∧
      e.line = some (lineColumn statement position).1 ∧
      e.column = some (lineColumn statement position).2 := by
  obtain ⟨severity, hseverity⟩ := Option.isSome_iff_exists.mp h.severity
  obtain ⟨code, hcode⟩ := Option.isSome_iff_exists.mp h.code
  obtain ⟨message, hmessage⟩ := Option.isSome_iff_exists.mp h.message
  have hfailure : r.failure? statement = some { BackendError.ofSqlState "postgres" code message with
      severity, detail := r.lookup 'D', hint := r.lookup 'H', position := some position,
      line := some (lineColumn statement position).1,
      column := some (lineColumn statement position).2 } := by
    rw [failure?, hseverity, hcode, hmessage, h.position_eq]
    exact if_pos h.rest
  exact ⟨_, error_of_failure? hfailure, rfl, rfl, rfl⟩

end Report

/-- Every well-formed report with a position within the statement becomes an error with that position,
a line and a column. They are the place behind the characters that begin before the byte which the
position counts to. That is the place of the character which it counts to just if the characters ahead
of that one, the last of them apart, take one byte each; otherwise it is an earlier place. -/
theorem positions_placed (r : Report) (statement : String) (position : Nat)
    (hreport : r.PointsAt position) (hlast : position ≤ statement.length) :
    ∃ e line column, r.error statement = .server e ∧ e.position = some position ∧
      e.line = some line ∧ e.column = some column ∧
      (line, column) =
        placeAfter (statement.toList.take (charactersBefore (position - 1) statement.toList)) ∧
      ((line, column) = placeAfter (statement.toList.take (position - 1)) ↔
        ∀ c ∈ statement.toList.take (position - 2), c.utf8Size = 1) ∧
      toLex (line, column) ≤ toLex (placeAfter (statement.toList.take (position - 1))) := by
  obtain ⟨e, herror, hposition, hline, hcolumn⟩ := hreport.exists_error statement
  have hwithin : position - 1 ≤ statement.toList.length :=
    (Nat.sub_le _ _).trans (hlast.trans_eq statement.length_toList.symm)
  exact ⟨e, _, _, herror, hposition, hline, hcolumn, lineColumn_eq statement position,
    lineColumn_eq_iff hwithin, lineColumn_le hwithin⟩

/-- A report of a syntax error near a word. -/
def syntaxReport (word position : String) : Report :=
  [('S', "ERROR"), ('C', "42601"), ('M', "syntax error at or near \"" ++ word ++ "\""),
    ('P', position)]

theorem positions_placed_bracket : (syntaxReport ")" "10").PointsAt 10 ∧
    10 ≤ "SELECT\n é) x".length ∧
    ∃ e, (syntaxReport ")" "10").error "SELECT\n é) x" = .server e ∧
      e.line = some 2 ∧ e.column = some 3 := by
  have hreport : (syntaxReport ")" "10").PointsAt 10 :=
    ⟨rfl, rfl, rfl, by decide, by decide⟩
  have hlast : 10 ≤ "SELECT\n é) x".length := by decide
  obtain ⟨e, line, column, herror, -, hline, hcolumn, -, hplace, -⟩ :=
    positions_placed (syntaxReport ")" "10") "SELECT\n é) x" 10 hreport hlast
  have hshort : ("SELECT\n é) x".toList.take 8).all (·.utf8Size == 1) := by decide
  have hright : (line, column) = (2, 3) :=
    (hplace.mpr fun c hc => beq_iff_eq.mp (List.all_eq_true.mp hshort c hc)).trans (by decide)
  cases hright
  exact ⟨hreport, hlast, e, herror, hline, hcolumn⟩

/-- An accent in a comment puts a misspelt word at the end of the line before its own. -/
theorem accent_moves_place : (syntaxReport "SELEC" "6").PointsAt 6 ∧ 6 ≤ "-- é\nSELEC 1".length ∧
    (∃ e, (syntaxReport "SELEC" "6").error "-- é\nSELEC 1" = .server e ∧
      e.line = some 1 ∧ e.column = some 5) ∧
    placeAfter ("-- é\nSELEC 1".toList.take 5) = (2, 1) := by
  refine ⟨⟨rfl, rfl, rfl, ?_, ?_⟩, ?_, ⟨_, rfl, ?_, ?_⟩, ?_⟩
  all_goals decide

end Postgres

end Polystore
