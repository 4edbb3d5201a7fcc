import Mathlib.Data.List.TakeDrop
import Mathlib.Data.List.TakeWhile
import Mathlib.Tactic.SplitIfs
import Polystore.Toml.Reader

/-!
Texts between quotes are read back as they were written. Main statement: whichever way a text is
quoted, it comes back, and what follows the last quote is left over.
-/

namespace Polystore.Toml

/-- What stands for a character after a backslash. -/
def Escapes (c : Char) (e : List Char) : Prop :=
  ∀ rest, readEscape (e ++ rest) = some (c, rest) ∧ skipFold (e ++ rest) = none

/-- How many of the quotes around a text may stand in it side by side. -/
def most (long : Bool) : Nat :=
  if long then 2 else 0

/-- A text and what is written for it between two quotes of a kind, on one line or on several. The
number tells how many such quotes have just been written. -/
inductive Spells (mark : Char) (long : Bool) : Nat → List Char → List Char → Prop where
  | done {row : Nat} : Spells mark long row [] []
  | mark {row : Nat} {text written : List Char} : row < most long →
    Spells mark long (row + 1) text written → Spells mark long row (mark :: text) (mark :: written)
  | plain {row : Nat} {c : Char} {text written : List Char} : c ≠ mark →
    (mark = '"' → c ≠ '\\') → isAllowed c = true ∨ long = true ∧ c = '\n' →
    Spells mark long 0 text written → Spells mark long row (c :: text) (c :: written)
  | escaped {row : Nat} {c : Char} {e text written : List Char} : mark = '"' → Escapes c e →
    Spells mark long 0 text written → Spells mark long row (c :: text) ('\\' :: (e ++ written))

variable {mark c : Char} {long : Bool} {row : Nat} {text written made rest tail : List Char}

theorem isAllowed_iff : isAllowed c = true ↔ isControl c = false ∧ c ≠ '\n' := by
  have htab : '\t'.toNat = 9 := rfl
  have hline : '\n'.toNat = 10 := rfl
  simp only [isAllowed, isControl, Bool.or_eq_true, Bool.and_eq_true, decide_eq_true_eq, bne_iff_ne,
    Bool.or_eq_false_iff, Bool.and_eq_false_iff, decide_eq_false_iff_not, bne_eq_false_iff_eq]
  constructor
  · rintro (rfl | ⟨hlow, hhigh⟩)
    · decide
    · exact ⟨⟨.inl (.inl (by omega)), hhigh⟩, by rintro rfl; omega⟩
  · rintro ⟨⟨(hlow | rfl) | rfl, hhigh⟩, hne⟩
    · exact .inr ⟨by omega, hhigh⟩
    · exact .inl rfl
    · exact absurd rfl hne

namespace Spells

/-- What is written is a few quotes, and then nothing or something else. -/
theorem row_cases (h : Spells mark long row text written) :
    (∃ k, k ≤ most long - row ∧ text = List.replicate k mark ∧
      written = List.replicate k mark) ∨
    ∃ k d more, k ≤ most long - row ∧ written = List.replicate k mark ++ d :: more ∧ d ≠ mark := by
  induction h with
  | done => exact .inl ⟨0, Nat.zero_le _, rfl, rfl⟩
  | @mark row text written hrow _ ih =>
    obtain ⟨k, hk, rfl, rfl⟩ | ⟨k, d, more, hk, rfl, hd⟩ := ih
    · exact .inl ⟨k + 1, by omega, rfl, rfl⟩
    · exact .inr ⟨k + 1, d, more, by omega, rfl, hd⟩
  | @plain row c text written hc _ _ _ _ => exact .inr ⟨0, c, written, Nat.zero_le _, rfl, hc⟩
  | @escaped row c e text written hmark _ _ _ =>
    subst hmark
    exact .inr ⟨0, '\\', e ++ written, Nat.zero_le _, rfl, by decide⟩

/-- No line end comes first unless the text has one. -/
theorem readNewline_eq_none (h : Spells mark long row text written) (hmark : isAllowed mark = true)
    (htext : '\n' ∉ text) : readNewline (written ++ mark :: tail) = none := by
  have hplain {d : Char} {more : List Char} (hd : isAllowed d = true) :
      readNewline (d :: more) = none := by
    unfold readNewline
    split
    · next h =>
      cases h
      exact absurd hd (by decide)
    · next h =>
      cases h
      exact absurd hd (by decide)
    · rfl
  cases h with
  | done => exact hplain hmark
  | mark => exact hplain hmark
  | plain _ _ hc =>
    obtain hc | ⟨_, rfl⟩ := hc
    · exact hplain hc
    · exact absurd List.mem_cons_self htext
  | escaped => exact hplain rfl

theorem readBasic_eq {fuel : Nat} (h : Spells '"' false row text written)
    (hfuel : written.length < fuel) : readBasic fuel made (written ++ '"' :: rest) =
      some (String.ofList (made.reverse ++ text), rest) := by
  induction h generalizing fuel made with
  | done =>
    obtain ⟨fuel, rfl⟩ := Nat.exists_eq_add_of_lt hfuel
    rw [List.append_nil]
    rfl
  | mark hrow => exact absurd hrow (Nat.not_lt_zero _)
  | @plain row c text written hne hslash hc _ ih =>
    obtain ⟨fuel, rfl⟩ := Nat.exists_eq_add_one.mpr (Nat.zero_lt_of_lt hfuel)
    have hallowed : isAllowed c = true := hc.resolve_right fun h => Bool.noConfusion h.1
    rw [List.cons_append, readBasic.eq_4 _ _ _ _ hne (hslash rfl), if_pos hallowed,
      ih (Nat.lt_of_succ_lt_succ hfuel), List.reverse_cons, List.append_assoc,
      List.singleton_append]
  | @escaped row c e text written _ he _ ih =>
    obtain ⟨fuel, rfl⟩ := Nat.exists_eq_add_one.mpr (Nat.zero_lt_of_lt hfuel)
    have hlength : written.length < fuel := by
      simp only [List.length_cons, List.length_append] at hfuel
      omega
    rw [List.cons_append, List.append_assoc, readBasic, (he _).1]
    simp only [Option.bind_eq_bind, Option.bind_some]
    rw [ih hlength, List.reverse_cons, List.append_assoc, List.singleton_append]

end Spells

/-! ### Texts over several lines -/

theorem replicate_append_closing (k : Nat) (mark : Char) (rest : List Char) :
    List.replicate k mark ++ ([mark, mark, mark] ++ rest) =
      List.replicate (k + 3) mark ++ rest := by
  rw [← List.append_assoc, ← List.replicate_append_replicate]
  rfl

/-- Three quotes end a text over several lines, and one or two before them belong to it. -/
theorem closeLong_replicate {k : Nat} (hk : k ≤ 2) (hrest : rest.head? ≠ some mark) :
    closeLong mark made (List.replicate (k + 3) mark ++ rest) =
      some (String.ofList (made.reverse ++ List.replicate k mark), rest) := by
  have htake : (List.replicate (k + 3) mark ++ rest).takeWhile (· == mark) =
      List.replicate (k + 3) mark := by
    rw [List.takeWhile_append_of_pos (by simp)]
    cases rest with
    | nil => rw [List.takeWhile_nil, List.append_nil]
    | cons d rest =>
      rw [List.takeWhile_cons_of_neg (by simpa using hrest), List.append_nil]
  rw [closeLong]
  simp only [htake, List.length_replicate]
  rw [if_pos (by simp; omega), Nat.add_sub_cancel, List.drop_left' List.length_replicate]

theorem isPrefixOf_replicate {k : Nat} (hk : k ≤ 2) (hc : c ≠ mark) (tail : List Char) :
    [mark, mark, mark].isPrefixOf (List.replicate k mark ++ c :: tail) = false := by
  have hne : (mark == c) = false := beq_false_of_ne hc.symm
  obtain rfl | rfl | rfl : k = 0 ∨ k = 1 ∨ k = 2 := by omega
  · simp [List.isPrefixOf, hne]
  · simp [List.isPrefixOf, hne]
  · simp [List.isPrefixOf, List.replicate, hne]

section

variable {fuel : Nat}

theorem readLong_allowed (hopen : [mark, mark, mark].isPrefixOf (c :: tail) = false)
    (hc : isAllowed c = true) (hslash : mark = '"' → c ≠ '\\') :
    readLong mark (fuel + 1) made (c :: tail) = readLong mark fuel (c :: made) tail := by
  obtain ⟨hcontrol, hline⟩ := isAllowed_iff.mp hc
  have hreturn : c ≠ '\r' := by
    rintro rfl
    exact absurd hcontrol (by decide)
  have hescape : (decide (c = '\\') && decide (mark = '"')) = false := by
    rw [Bool.and_eq_false_iff, decide_eq_false_iff_not, decide_eq_false_iff_not]
    exact Decidable.or_iff_not_imp_right.mpr fun h => hslash (Decidable.not_not.mp h)
  rw [readLong.eq_5 _ _ _ _ _ (fun _ h _ => hreturn h) hline, hopen, hescape, hc]
  rfl

theorem readLong_newline (hopen : [mark, mark, mark].isPrefixOf ('\n' :: tail) = false) :
    readLong mark (fuel + 1) made ('\n' :: tail) = readLong mark fuel ('\n' :: made) tail := by
  rw [readLong, hopen]
  rfl

theorem readLong_escaped {e : List Char} (he : Escapes c e) :
    readLong '"' (fuel + 1) made ('\\' :: (e ++ tail)) = readLong '"' fuel (c :: made) tail := by
  obtain ⟨hread, hfold⟩ := he tail
  rw [readLong.eq_5 _ _ _ _ _ (fun _ h _ => absurd h (by decide)) (by decide), hfold, hread]
  rfl

theorem readLong_close {k : Nat} (hk : k ≤ 2) (hrest : rest.head? ≠ some mark) :
    readLong mark (fuel + 1) made (List.replicate k mark ++ ([mark, mark, mark] ++ rest)) =
      some (String.ofList (made.reverse ++ List.replicate k mark), rest) := by
  have hclosed : [mark, mark, mark].isPrefixOf (List.replicate (k + 3) mark ++ rest) = true := by
    simp [List.replicate_succ, List.isPrefixOf]
  rw [replicate_append_closing, ← closeLong_replicate hk hrest]
  unfold readLong
  rw [if_pos hclosed]

end

theorem Spells.readLong_eq {fuel : Nat} (h : Spells mark true row text written)
    (hmark : isAllowed mark = true) (hslash : mark ≠ '\\') (hrest : rest.head? ≠ some mark)
    (hfuel : written.length < fuel) : readLong mark fuel made
      (written ++ ([mark, mark, mark] ++ rest)) =
        some (String.ofList (made.reverse ++ text), rest) := by
  induction h generalizing fuel made with
  | done =>
    obtain ⟨fuel, rfl⟩ := Nat.exists_eq_add_of_lt hfuel
    exact readLong_close (Nat.zero_le 2) hrest
  | @mark row text written hrow hmore ih =>
    obtain ⟨fuel, rfl⟩ := Nat.exists_eq_add_one.mpr (Nat.zero_lt_of_lt hfuel)
    obtain ⟨k, hk, htext, hwritten⟩ | ⟨k, d, more, hk, hwritten, hd⟩ :=
      (Spells.mark hrow hmore).row_cases
    · rw [htext, hwritten]
      exact readLong_close (Nat.le_trans hk (Nat.sub_le _ _)) hrest
    · have hopen := isPrefixOf_replicate (Nat.le_trans hk (Nat.sub_le _ _)) hd
        (more ++ ([mark, mark, mark] ++ rest))
      rw [← List.cons_append, ← List.append_assoc, ← hwritten, List.cons_append] at hopen
      rw [List.cons_append, readLong_allowed hopen hmark fun _ => hslash,
        ih (Nat.lt_of_succ_lt_succ hfuel), List.reverse_cons, List.append_assoc,
      List.singleton_append]
  | @plain row c text written hne hplain hc _ ih =>
    obtain ⟨fuel, rfl⟩ := Nat.exists_eq_add_one.mpr (Nat.zero_lt_of_lt hfuel)
    have hopen := isPrefixOf_replicate (Nat.zero_le 2) hne
      (written ++ ([mark, mark, mark] ++ rest))
    have hnext : readLong mark (fuel + 1) made (c :: (written ++ ([mark, mark, mark] ++ rest))) =
        readLong mark fuel (c :: made) (written ++ ([mark, mark, mark] ++ rest)) := by
      obtain hc | ⟨_, rfl⟩ := hc
      · exact readLong_allowed hopen hc hplain
      · exact readLong_newline hopen
    rw [List.cons_append, hnext, ih (Nat.lt_of_succ_lt_succ hfuel), List.reverse_cons,
      List.append_assoc, List.singleton_append]
  | @escaped row c e text written hquote he _ ih =>
    subst hquote
    obtain ⟨fuel, rfl⟩ := Nat.exists_eq_add_one.mpr (Nat.zero_lt_of_lt hfuel)
    have hlength : written.length < fuel := by
      simp only [List.length_cons, List.length_append] at hfuel
      omega
    rw [List.cons_append, List.append_assoc, readLong_escaped he, ih hlength, List.reverse_cons,
      List.append_assoc, List.singleton_append]

/-! ### What is written between double quotes -/

/-- What is written for a code point in four digits. -/
def code (n : Nat) : List Char :=
  (Text.padLeft 4 '0' (Text.Hex.ofNat n)).map Char.toUpper

theorem code_reads : ∀ n < 0x80, (code n).length = 4 ∧ ((code n).mapM Text.Hex.value?).map
    (List.foldl (fun n d => 16 * n + d) 0) = some n := by
  decide

theorem escapes_code (hc : c.toNat < 0x80) : Escapes c ('u' :: code c.toNat) := by
  intro rest
  refine ⟨?_, rfl⟩
  obtain ⟨hlength, hdigits⟩ := code_reads c.toNat hc
  obtain ⟨values, hvalues, hnumber⟩ := Option.map_eq_some_iff.mp hdigits
  have hvalid : c.toNat.isValidChar := c.valid
  have hread : readCode 4 (code c.toNat ++ rest) = some (c, rest) := by
    rw [readCode, List.take_left' hlength, List.drop_left' hlength, if_neg (by omega), hvalues,
      Option.bind_eq_bind, Option.bind_some, hnumber]
    dsimp only
    rw [if_pos hvalid, Char.ofNat_toNat]
    rfl
  exact hread

/-- A character other than a double quote stands for itself or is escaped. -/
theorem escape_cases (long : Bool) (c : Char) :
    (escape long c = [c] ∧ c ≠ '\\' ∧ (isAllowed c = true ∨ long = true ∧ c = '\n')) ∨
      ∃ e, escape long c = '\\' :: e ∧ Escapes c e := by
  have hsimple {d e : Char} (h : c = d) (he : Escapes d [e]) : Escapes c [e] := h ▸ he
  unfold escape
  split_ifs with hback htab hline hlong hfeed hreturn hslash hcontrol
  · exact .inr ⟨['b'], rfl, hsimple hback fun _ => ⟨rfl, rfl⟩⟩
  · exact .inr ⟨['t'], rfl, hsimple htab fun _ => ⟨rfl, rfl⟩⟩
  · exact .inl ⟨by rw [hline], by rw [hline]; decide, .inr ⟨hlong, hline⟩⟩
  · exact .inr ⟨['n'], rfl, hsimple hline fun _ => ⟨rfl, rfl⟩⟩
  · exact .inr ⟨['f'], rfl, hsimple hfeed fun _ => ⟨rfl, rfl⟩⟩
  · exact .inr ⟨['r'], rfl, hsimple hreturn fun _ => ⟨rfl, rfl⟩⟩
  · exact .inr ⟨['\\'], rfl, hsimple hslash fun _ => ⟨rfl, rfl⟩⟩
  · simp only [Bool.or_eq_true, decide_eq_true_eq] at hcontrol
    exact .inr ⟨_, rfl, escapes_code (by omega)⟩
  · simp only [Bool.or_eq_true, decide_eq_true_eq, not_or, Nat.not_lt] at hcontrol
    refine .inl ⟨rfl, hslash, .inl ?_⟩
    simp only [isAllowed, Bool.or_eq_true, Bool.and_eq_true, decide_eq_true_eq, bne_iff_ne]
    exact .inr hcontrol

theorem spells_escapeAll (long : Bool) (row : Nat) (text : List Char) :
    Spells '"' long row text (escapeAll long (most long) row text) := by
  induction text generalizing row with
  | nil => exact .done
  | cons c text ih =>
    rw [escapeAll]
    by_cases hc : c = '"'
    · subst hc
      rw [if_pos rfl]
      by_cases hrow : row < most long
      · rw [if_pos hrow]
        exact .mark hrow (ih (row + 1))
      · rw [if_neg hrow]
        exact .escaped (e := ['"']) rfl (fun _ => ⟨rfl, rfl⟩) (ih 0)
    · rw [if_neg hc]
      obtain ⟨hself, hslash, hallowed⟩ | ⟨e, hescape, he⟩ := escape_cases long c
      · rw [hself]
        exact .plain hc (fun _ => hslash) hallowed (ih 0)
      · rw [hescape]
        exact .escaped rfl he (ih 0)

/-! ### Texts that nothing is escaped in -/

theorem length_takeWhile_le_longestRow (mark : Char) (text : List Char) :
    (text.takeWhile (· == mark)).length ≤ longestRow mark text := by
  cases text with
  | nil => exact Nat.le_refl 0
  | cons c text => exact Nat.le_max_left _ _

theorem longestRow_eq_zero_iff : longestRow mark text = 0 ↔ mark ∉ text := by
  induction text with
  | nil => exact iff_of_true rfl List.not_mem_nil
  | cons c text ih =>
    rw [longestRow, Nat.max_eq_zero_iff, ih, List.mem_cons, not_or, List.length_eq_zero_iff,
      List.takeWhile_cons]
    by_cases hc : c = mark
    · simp [hc]
    · simp [hc, Ne.symm hc]

theorem spells_self (hmark : mark ≠ '"') (hcontrol : text.any isControl = false)
    (hrows : longestRow mark text ≤ 2) (hrow : row + (text.takeWhile (· == mark)).length ≤ 2) :
    Spells mark true row text text := by
  induction text generalizing row with
  | nil => exact .done
  | cons c text ih =>
    rw [List.any_cons, Bool.or_eq_false_iff] at hcontrol
    rw [longestRow, Nat.max_le] at hrows
    by_cases hc : c = mark
    · rw [hc] at hrow ⊢
      rw [List.takeWhile_cons_of_pos (by simp), List.length_cons] at hrow
      exact .mark (show row < 2 by omega) (ih hcontrol.2 hrows.2 (by omega))
    · have hstart := Nat.le_trans (length_takeWhile_le_longestRow mark text) hrows.2
      refine .plain hc (fun h => absurd h hmark) ?_ (ih hcontrol.2 hrows.2 (by omega))
      by_cases hline : c = '\n'
      · exact .inr ⟨rfl, hline⟩
      · exact .inl (isAllowed_iff.mpr ⟨hcontrol.1, hline⟩)

theorem readLiteral_eq (hmark : '\'' ∉ text) (hcontrol : text.any isControl = false)
    (hline : '\n' ∉ text) :
    readLiteral (text ++ '\'' :: rest) = some (String.ofList text, rest) := by
  have hpass : ∀ c ∈ text, (c != '\'') = true := by
    intro c hc
    exact bne_iff_ne.mpr fun h => hmark (h ▸ hc)
  have hallowed : text.all isAllowed = true := by
    refine List.all_eq_true.mpr fun c hc => isAllowed_iff.mpr ⟨?_, fun h => hline (h ▸ hc)⟩
    exact List.any_eq_false.mp hcontrol c hc |> eq_false_of_ne_true
  rw [readLiteral, List.span_eq_takeWhile_dropWhile, List.takeWhile_append_of_pos hpass,
    List.dropWhile_append_of_pos hpass]
  simp [hallowed]

/-! ### Whole texts -/

/-- Nothing that could go on a text between quotes. -/
def EndsText (rest : List Char) : Prop :=
  ∀ c, rest.head? = some c → c ≠ '"' ∧ c ≠ '\''

theorem readLongText_eq (h : Spells mark true 0 text written) (hmark : isAllowed mark = true)
    (hslash : mark ≠ '\\') (hrest : rest.head? ≠ some mark) : readLongText mark
      ((if text.contains '\n' then ['\n'] else []) ++ (written ++ ([mark, mark, mark] ++ rest))) =
        some (String.ofList text, rest) := by
  have hread {fuel : Nat} (hfuel : written.length < fuel) : readLong mark fuel []
      (written ++ ([mark, mark, mark] ++ rest)) = some (String.ofList text, rest) :=
    h.readLong_eq hmark hslash hrest hfuel
  have hlength : written.length ≤ (written ++ ([mark, mark, mark] ++ rest)).length := by
    rw [List.length_append]
    exact Nat.le_add_right _ _
  by_cases hline : '\n' ∈ text
  · rw [if_pos (List.contains_iff_mem.mpr hline)]
    exact hread (Nat.lt_succ_of_le (Nat.le_succ_of_le hlength))
  · have hnone : readNewline (written ++ ([mark, mark, mark] ++ rest)) = none :=
      h.readNewline_eq_none hmark hline
    rw [if_neg (by simpa using hline), List.nil_append, readLongText, hnone]
    exact hread (Nat.lt_succ_of_le hlength)

theorem EndsText.head?_ne (hrest : EndsText rest) :
    rest.head? ≠ some '"' ∧ rest.head? ≠ some '\'' :=
  ⟨fun h => (hrest _ h).1 rfl, fun h => (hrest _ h).2 rfl⟩

/-- A text on one line, with escapes. -/
theorem readText_basic (text : List Char) (hrest : EndsText rest) :
    readText ('"' :: escapeAll false 0 0 text ++ ['"'] ++ rest) =
      some (String.ofList text, rest) := by
  have h : Spells '"' false 0 text (escapeAll false 0 0 text) := spells_escapeAll false 0 text
  generalize escapeAll false 0 0 text = written at h
  have hlength : written.length < (written ++ '"' :: rest).length + 1 := by
    rw [List.length_append]
    omega
  have hopen (more : List Char) : written ++ '"' :: rest ≠ '"' :: '"' :: more := by
    obtain ⟨k, hk, -, rfl⟩ | ⟨k, d, tail, hk, rfl, hd⟩ := h.row_cases
    · obtain rfl := Nat.le_zero.mp hk
      intro heq
      exact hrest.head?_ne.1 (congrArg (fun t => t.tail.head?) heq)
    · obtain rfl := Nat.le_zero.mp hk
      intro heq
      exact hd (List.cons.inj heq).1
  rw [List.append_assoc, List.cons_append]
  exact (readText.eq_3 _ hopen).trans (h.readBasic_eq hlength)

theorem readText_literal (hmark : '\'' ∉ text) (hcontrol : text.any isControl = false)
    (hline : '\n' ∉ text) (hrest : EndsText rest) :
    readText ('\'' :: text ++ ['\''] ++ rest) = some (String.ofList text, rest) := by
  have hopen (more : List Char) : text ++ '\'' :: rest ≠ '\'' :: '\'' :: more := by
    intro heq
    cases text with
    | nil => exact hrest.head?_ne.2 (congrArg (fun t => t.tail.head?) heq)
    | cons d text => exact hmark ((List.cons.inj heq).1 ▸ List.mem_cons_self)
  rw [List.append_assoc, List.cons_append]
  exact (readText.eq_4 _ hopen).trans (readLiteral_eq hmark hcontrol hline)

/-- A text that no further quote follows comes back from its quotes. -/
theorem readText_quote (text : List Char) (hrest : EndsText rest) :
    readText (quote text ++ rest) = some (String.ofList text, rest) := by
  obtain ⟨hdouble, hsingle⟩ := hrest.head?_ne
  have hlong := readLongText_eq (spells_escapeAll true 0 text) rfl (by decide) hdouble
  have hself (hcontrol : text.any isControl = false) (hrows : longestRow '\'' text ≤ 2) :=
    have hrow := Nat.le_trans (length_takeWhile_le_longestRow '\'' text) hrows
    have hspells : Spells '\'' true 0 text text :=
      spells_self (by decide) hcontrol hrows (by omega)
    readLongText_eq hspells rfl (by decide) hsingle
  unfold quote
  dsimp only
  generalize (if text.contains '\n' then ['\n'] else []) = start at hlong hself ⊢
  split_ifs with hbasic hliteral h hliteralLong hline
  · exact readText_basic text hrest
  · simp only [Bool.and_eq_true, Bool.not_eq_true', decide_eq_true_eq, longestRow_eq_zero_iff,
      List.contains_eq_mem, decide_eq_false_iff_not] at hliteral
    exact readText_literal hliteral.1.2 hliteral.1.1 hliteral.2 hrest
  · simp only [List.append_assoc]
    exact hlong
  · simp only [Bool.and_eq_true, Bool.not_eq_true', decide_eq_true_eq] at hliteralLong
    simp only [List.append_assoc]
    exact hself hliteralLong.1 hliteralLong.2
  · simp only [List.append_assoc]
    exact hlong
  · exact readText_basic text hrest

end Polystore.Toml
