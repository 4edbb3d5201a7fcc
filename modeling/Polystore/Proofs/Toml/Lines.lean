import Polystore.Proofs.Number.Written
import Polystore.Proofs.Toml.Quoted
import Polystore.Toml.Document

/-!
Documents with one assignment to a line. Main statement: lines under a header in double brackets
are read as the entries of the table that the header opens.
-/

namespace Polystore.Toml

open Polystore.Text (digits isDigit IsRow IsWhole isWhole_digits)

/-- A key that needs no quotes. -/
def IsBareKey (key : List Char) : Prop :=
  key ≠ [] ∧ key.all isBare = true

instance (key : List Char) : Decidable (IsBareKey key) :=
  inferInstanceAs (Decidable (_ ∧ _))

/-- What can be written for a value after a key, up to the end of the line. -/
def Writes (v : Toml) (text : List Char) : Prop :=
  ∀ rest, readValue (skipSpaces (' ' :: (text ++ '\n' :: rest))) = some (v, '\n' :: rest)

variable {c d : Char} {key text rest tail : List Char} {v : Toml}

/-! ### Characters of a kind -/

theorem ne_of_kind (p : Char → Bool) (hc : p c = true) (hd : p d = false) : c ≠ d := by
  rintro rfl
  exact Bool.false_ne_true (hd.symm.trans hc)

theorem isSpace_of_kind (p : Char → Bool) (hc : p c = true) (hspace : p ' ' = false)
    (htab : p '\t' = false) : isSpace c = false := by
  simp [isSpace, ne_of_kind p hc hspace, ne_of_kind p hc htab]

/-! ### Values -/

theorem skipSpaces_cons (h : isSpace c = false) : skipSpaces (c :: text) = c :: text :=
  List.dropWhile_cons_of_neg (by simp [h])

theorem exists_quote_eq_cons (text : List Char) :
    ∃ inner, quote text = '"' :: inner ∨ quote text = '\'' :: inner := by
  unfold quote
  dsimp only
  split_ifs
  all_goals first | exact ⟨_, .inl rfl⟩ | exact ⟨_, .inr rfl⟩

theorem writes_string (s : String) : Writes (.string s) (quote s.toList) := by
  intro rest
  have hread : readText (quote s.toList ++ '\n' :: rest) = some (s, '\n' :: rest) := by
    rw [readText_quote _ (by rintro c ⟨⟩; decide), String.ofList_toList]
  obtain ⟨inner, hquote | hquote⟩ := exists_quote_eq_cons s.toList
  · rw [hquote] at hread ⊢
    show (readText ('"' :: inner ++ '\n' :: rest)).map _ = _
    rw [hread]
    rfl
  · rw [hquote] at hread ⊢
    show (readText ('\'' :: inner ++ '\n' :: rest)).map _ = _
    rw [hread]
    rfl

theorem writes_flag (b : Bool) :
    Writes (.boolean b) (if b then "true".toList else "false".toList) := by
  cases b with
  | false => exact fun _ => rfl
  | true => exact fun _ => rfl

theorem writes_no_items : Writes (.array []) ['[', ']'] :=
  fun _ => rfl

/-! ### Whole numbers -/

section

variable {row : List Char}

/-- A row of digits that ends its line goes on into nothing else. -/
theorem expect_row (hrow : IsRow row) (hc : isDigit c = false) (hline : c ≠ '\n') :
    expect c (row ++ '\n' :: rest) = none := by
  cases row with
  | nil => exact if_neg hline.symm
  | cons d row =>
    exact if_neg (ne_of_kind isDigit (hrow d List.mem_cons_self) hc)

theorem skipDate_row (hrow : IsRow row) : skipDate (row ++ '\n' :: rest) = none := by
  unfold skipDate
  dsimp only
  split
  · next h =>
    simp only [Bool.and_eq_true, decide_eq_true_eq, List.all_eq_true] at h
    have hlong : 4 ≤ row.length := by
      by_contra hshort
      have hmem : '\n' ∈ (row ++ '\n' :: rest).take 4 := by
        obtain ⟨k, hk⟩ : ∃ k, 4 - row.length = k + 1 := ⟨3 - row.length, by omega⟩
        rw [List.take_append, hk]
        exact List.mem_append_right _ List.mem_cons_self
      exact absurd (h.2 _ hmem) (by decide)
    rw [List.drop_append_of_le_length hlong, expect_row (hrow.drop 4) rfl (by decide)]
    rfl
  · rfl

theorem readPair_row (low high : Nat) (hrow : IsRow row) (rest : List Char) :
    readPair low high (row ++ '\n' :: rest) = none ∨ ∃ more, IsRow more ∧
      readPair low high (row ++ '\n' :: rest) = some (more ++ '\n' :: rest) := by
  match row with
  | [] =>
    cases rest with
    | nil => exact .inl rfl
    | cons b rest => exact .inl rfl
  | [a] =>
    refine .inl (if_neg ?_)
    rw [show isDigit '\n' = false from rfl, Bool.and_false]
    exact Bool.false_ne_true
  | a :: b :: more =>
    rw [List.cons_append, List.cons_append, readPair]
    split
    · exact .inr ⟨more, hrow.tail.tail, rfl⟩
    · exact .inl rfl

theorem skipTime_row (hrow : IsRow row) : skipTime (row ++ '\n' :: rest) = none := by
  obtain hnone | ⟨more, hmore, hsome⟩ := readPair_row 0 23 hrow rest
  · rw [skipTime, hnone]
    rfl
  · rw [skipTime, hsome, Option.bind_eq_bind, Option.bind_some, expect_row hmore rfl (by decide)]
    rfl

theorem readStamp_row (hrow : IsRow row) : readStamp (row ++ '\n' :: rest) = none := by
  rw [readStamp, skipDate_row hrow]
  exact skipTime_row hrow

theorem ne_of_isRow (hrow : IsRow row) (hc : isDigit c = false) : ∀ d ∈ row, d ≠ c :=
  fun d hd => ne_of_kind isDigit (hrow d hd) hc

theorem readGrouped_row (hrow : IsRow row) (hne : row ≠ []) :
    readGrouped isDigit row = some row := by
  have hplain := ne_of_isRow hrow (show isDigit '_' = false from rfl)
  have hfilter : row.filter (· != '_') = row :=
    List.filter_eq_self.mpr fun d hd => bne_iff_ne.mpr (hplain d hd)
  have hbetween : ∀ p ∈ row.zip (row.drop 1), (p.1 != '_' || p.2 != '_') = true := by
    intro p hp
    rw [bne_iff_ne.mpr (hplain p.1 (List.of_mem_zip hp).1), Bool.true_or]
  have hhead : row.head? ≠ some '_' := fun h => hplain _ (List.mem_of_head? h) rfl
  have hlast : row.getLast? ≠ some '_' := fun h => hplain _ (List.mem_of_getLast? h) rfl
  rw [readGrouped, hfilter]
  refine if_neg ?_
  simp only [Bool.or_eq_true, Bool.not_eq_true', not_or, Bool.not_eq_true, Bool.not_eq_false,
    List.isEmpty_eq_false_iff, decide_eq_false_iff_not]
  exact ⟨⟨⟨⟨hne, List.all_eq_true.mpr hrow⟩, List.all_eq_true.mpr hbetween⟩, hhead⟩, hlast⟩

theorem readInteger_whole (hrow : IsWhole row) (hbound : Text.ofDigits row < 2 ^ 63) :
    readInteger row = some (.integer (Text.ofDigits row)) := by
  have hplain {c : Char} (hc : isDigit c = false) := ne_of_isRow hrow.isRow hc
  have hbase {c : Char} {more : List Char} (hc : isDigit c = false)
      (h : row = '0' :: c :: more) : False :=
    hplain hc c (h ▸ List.mem_cons_of_mem _ List.mem_cons_self) rfl
  have hsign {c : Char} {more : List Char} (hc : isDigit c = false) (h : row = c :: more) : False :=
    hplain hc c (h ▸ List.mem_cons_self) rfl
  have hcut : cutSign row = (false, row) :=
    cutSign.eq_3 row (fun _ => hsign rfl) (fun _ => hsign rfl)
  have hlead : (decide (1 < row.length) && decide (row.head? = some '0')) = false := by
    by_contra h
    simp only [Bool.not_eq_false, Bool.and_eq_true, decide_eq_true_eq] at h
    have := hrow.lead h.2
    omega
  rw [readInteger.eq_4 row (fun _ => hbase rfl) (fun _ => hbase rfl) (fun _ => hbase rfl), hcut]
  dsimp only
  rw [readGrouped_row hrow.isRow hrow.ne_nil, Option.bind_eq_bind, Option.bind_some, hlead,
    if_neg Bool.false_ne_true, if_neg Bool.false_ne_true, fits, if_pos (by omega)]

theorem isWordChar_of_isDigit (hc : isDigit c = true) : isWordChar c = true := by
  have hdigit : c.isDigit = true := by
    simp only [isDigit, Bool.and_eq_true, decide_eq_true_eq] at hc
    simp only [Char.isDigit, Bool.and_eq_true, decide_eq_true_eq]
    exact hc
  simp [isWordChar, Char.isAlphanum, hdigit]

theorem span_isWordChar_row (hrow : IsRow row) :
    (row ++ '\n' :: rest).span isWordChar = (row, '\n' :: rest) := by
  have hpass : ∀ d ∈ row, isWordChar d = true := fun d hd => isWordChar_of_isDigit (hrow d hd)
  rw [List.span_eq_takeWhile_dropWhile, List.takeWhile_append_of_pos hpass,
    List.dropWhile_append_of_pos hpass]
  simp [isWordChar]

end

theorem readNested_digit {depth : Nat} (hc : isDigit c = true) :
    readNested (depth + 1) (c :: text) = readWord (c :: text) := by
  have hne {d : Char} {tail : List Char} (hd : isDigit d = false) (h : c :: text = d :: tail) :
      False :=
    ne_of_kind isDigit hc hd (List.cons.inj h).1
  exact readNested.eq_6 _ _ (fun _ => hne rfl) (fun _ => hne rfl) (fun _ => hne rfl)
    (fun _ => hne rfl)

theorem writes_number {n : Nat} (hn : n < 2 ^ 63) : Writes (.integer n) (digits n) := by
  intro rest
  have hwhole := isWhole_digits n
  have hvalue := Text.ofDigits_digits n
  generalize digits n = row at hwhole hvalue ⊢
  subst hvalue
  have hword {c : Char} {more : List Char} (hc : isDigit c = false) : row ≠ c :: more := by
    rintro rfl
    exact ne_of_isRow hwhole.isRow hc c List.mem_cons_self rfl
  have hread : readWord (row ++ '\n' :: rest) =
      some (.integer (Text.ofDigits row), '\n' :: rest) := by
    rw [readWord, readStamp_row hwhole.isRow, span_isWordChar_row hwhole.isRow]
    dsimp only
    rw [if_neg (show row ≠ "true".toList from hword (c := 't') rfl),
      if_neg (show row ≠ "false".toList from hword (c := 'f') rfl), readInteger_whole hwhole hn]
    rfl
  obtain ⟨c, more, rfl⟩ := List.exists_cons_of_ne_nil hwhole.ne_nil
  have hc := hwhole.isRow c List.mem_cons_self
  have hspace : isSpace c = false := isSpace_of_kind isDigit hc rfl rfl
  rw [skipSpaces, List.dropWhile_cons_of_pos rfl, List.cons_append,
    List.dropWhile_cons_of_neg (by simp [hspace]), readValue, depthLimit, readNested_digit hc]
  exact hread

/-! ### Keys -/

theorem IsBareKey.exists_cons (hkey : IsBareKey key) :
    ∃ c more, key = c :: more ∧ isBare c = true := by
  obtain ⟨c, more, rfl⟩ := List.exists_cons_of_ne_nil hkey.1
  exact ⟨c, more, rfl, List.all_eq_true.mp hkey.2 c List.mem_cons_self⟩

theorem readPart_bare (hkey : IsBareKey key) (hc : isBare c = false) :
    readPart (key ++ c :: rest) = some (String.ofList key, c :: rest) := by
  have hspan : (key ++ c :: rest).span isBare = (key, c :: rest) := by
    have hpass := List.all_eq_true.mp hkey.2
    rw [List.span_eq_takeWhile_dropWhile, List.takeWhile_append_of_pos hpass,
      List.dropWhile_append_of_pos hpass]
    simp [hc]
  have hne {d : Char} {tail : List Char} (hd : isBare d = false)
      (h : key ++ c :: rest = d :: tail) : False := by
    obtain ⟨e, more, rfl, he⟩ := hkey.exists_cons
    exact ne_of_kind isBare he hd (List.cons.inj h).1
  rw [readPart.eq_3 _ (fun _ => hne rfl) (fun _ => hne rfl), hspan]
  dsimp only
  rw [if_neg (by simp [hkey.1])]

theorem readKey_bare (hkey : IsBareKey key) (hc : isBare c = false)
    (hrest : skipSpaces (c :: rest) = d :: tail) (hd : d ≠ '.') :
    readKey (key ++ c :: rest) = some ([String.ofList key], d :: tail) := by
  have hstart : skipSpaces (key ++ c :: rest) = key ++ c :: rest := by
    obtain ⟨e, more, rfl, he⟩ := hkey.exists_cons
    exact skipSpaces_cons (isSpace_of_kind isBare he rfl rfl)
  have hparts (fuel : Nat) :
      readParts (fuel + 1) (key ++ c :: rest) = some ([String.ofList key], d :: tail) := by
    rw [readParts, hstart, readPart_bare hkey hc, Option.bind_eq_bind, Option.bind_some]
    dsimp only
    rw [hrest]
    split
    · next h => exact absurd (List.cons.inj h).1 hd
    · rfl
  rw [readKey, hparts]
  rfl

/-! ### Lines -/

/-- From what is read so far and the text that is left, a reader of documents comes to an end. -/
def Reads (p : Progress) (text : List Char) (q : Progress) : Prop :=
  ∀ fuel, text.length < fuel → readLines fuel p text = some q

/-- Characters that a line with something on it can start with. -/
def isStart (c : Char) : Bool :=
  isBare c || c = '['

theorem readNewline_start (hc : isStart c = true) : readNewline (c :: text) = none := by
  unfold readNewline
  split
  · next h => exact absurd (List.cons.inj h).1 (ne_of_kind isStart hc rfl)
  · next h => exact absurd (List.cons.inj h).1 (ne_of_kind isStart hc rfl)
  · rfl

theorem skipComment_start (hc : isStart c = true) : skipComment (c :: text) = c :: text := by
  unfold skipComment
  split
  · next h => exact absurd (List.cons.inj h).1 (ne_of_kind isStart hc rfl)
  · rfl

theorem skipLines_start (hc : isStart c = true) : skipLines (c :: text) = c :: text := by
  rw [skipLines, List.length_cons, skipBlank, skipSpaces_cons (isSpace_of_kind isStart hc rfl rfl),
    skipComment_start hc, readNewline_start hc]

theorem reads_nil (p : Progress) : Reads p [] p := by
  intro fuel hfuel
  obtain ⟨fuel, rfl⟩ := Nat.exists_eq_add_one.mpr hfuel
  rfl

variable {p q next : Progress}

/-- Empty lines are skipped. -/
theorem Reads.newline (h : Reads p text q) : Reads p ('\n' :: text) q := by
  intro fuel hfuel
  obtain ⟨fuel, rfl⟩ := Nat.exists_eq_add_one.mpr (Nat.zero_lt_of_lt hfuel)
  rw [readLines, show skipLines ('\n' :: text) = skipLines text from rfl, ← readLines]
  exact h (fuel + 1) (Nat.lt_of_succ_lt hfuel)

/-- A line with something on it, and the line end after it. -/
theorem Reads.line (hc : isStart c = true) (hlength : rest.length < (c :: text).length)
    (hread : (if c = '[' then readHeader p (c :: text) else readEntry p (c :: text)) =
      some (next, '\n' :: rest))
    (h : Reads next rest q) : Reads p (c :: text) q := by
  intro fuel hfuel
  obtain ⟨fuel, rfl⟩ := Nat.exists_eq_add_one.mpr (Nat.zero_lt_of_lt hfuel)
  have hrest := h fuel (by omega)
  rw [readLines, skipLines_start hc]
  simp only [List.head?_cons, Option.some.injEq, Option.bind_eq_bind]
  by_cases hbracket : c = '['
  · rw [if_pos hbracket] at hread ⊢
    rw [hread]
    exact hrest
  · rw [if_neg hbracket] at hread ⊢
    rw [hread]
    exact hrest

/-! ### Assignments -/

/-- A key with its value, and what is written for the value. -/
structure Assignment where
  key : String
  value : Toml
  text : List Char
  bare : IsBareKey key.toList
  writes : Writes value text

namespace Assignment

def ofText (key value : String) (bare : IsBareKey key.toList) : Assignment where
  key := key
  value := .string value
  text := quote value.toList
  bare := bare
  writes := writes_string value

def ofFlag (key : String) (b : Bool) (bare : IsBareKey key.toList) : Assignment where
  key := key
  value := .boolean b
  text := if b then "true".toList else "false".toList
  bare := bare
  writes := writes_flag b

def ofNumber (key : String) (n : Nat) (bare : IsBareKey key.toList) (hn : n < 2 ^ 63) :
    Assignment where
  key := key
  value := .integer n
  text := digits n
  bare := bare
  writes := writes_number hn

def noItems (key : String) (bare : IsBareKey key.toList) : Assignment where
  key := key
  value := .array []
  text := ['[', ']']
  bare := bare
  writes := writes_no_items

def entry (a : Assignment) : String × Toml :=
  (a.key, a.value)

def line (a : Assignment) : List Char :=
  a.key.toList ++ " = ".toList ++ a.text ++ ['\n']

theorem readEntry_line (a : Assignment) (p : Progress) (rest : List Char) :
    readEntry p (a.line ++ rest) =
      (within false (fun _ => assign [a.key] a.value) false p.current p.entries).map fun entries =>
        (⟨entries, p.current⟩, '\n' :: rest) := by
  have hline : a.line ++ rest =
      a.key.toList ++ ' ' :: ('=' :: ' ' :: (a.text ++ '\n' :: rest)) := by
    rw [line, show " = ".toList = [' ', '=', ' '] from rfl]
    simp only [List.append_assoc, List.cons_append, List.nil_append]
  rw [hline, readEntry, readAssignment, readKey_bare a.bare rfl rfl (by decide)]
  simp only [Option.bind_eq_bind, Option.bind_some]
  rw [skipSpaces_cons rfl, expect, if_pos rfl, Option.bind_some, a.writes rest]
  simp only [Option.bind_some, String.ofList_toList, Option.pure_def]
  cases within false (fun _ => assign [a.key] a.value) false p.current p.entries with
  | none => rfl
  | some entries => rfl

end Assignment

theorem Reads.assignment (a : Assignment) {entries : List (String × Toml)}
    (hentries : within false (fun _ => assign [a.key] a.value) false p.current p.entries =
      some entries)
    (h : Reads ⟨entries, p.current⟩ rest q) : Reads p (a.line ++ rest) q := by
  have hread := a.readEntry_line p rest
  rw [hentries] at hread
  obtain ⟨c, more, hkey, hc⟩ := a.bare.exists_cons
  have hline : a.line ++ rest = c :: (more ++ " = ".toList ++ a.text ++ ['\n'] ++ rest) := by
    rw [Assignment.line, hkey]
    rfl
  rw [hline] at hread ⊢
  refine h.line (by rw [isStart, hc, Bool.true_or]) ?_ ?_
  · simp only [List.length_cons, List.length_append]
    omega
  · rw [if_neg (ne_of_kind isBare hc rfl), hread]
    rfl

/-- Where the assignments under a header go, in the entries read so far. -/
def Opens (current : List String) (put : List (String × Toml) → List (String × Toml)) : Prop :=
  ∀ made change, within false change false current (put made) = (change false made).map put

theorem opens_top : Opens [] id :=
  fun _ _ => Option.map_id'.symm

theorem assign_singleton (key : String) (v : Toml) (made : List (String × Toml)) :
    assign [key] v made = if (made.lookup key).isSome then none else some (made ++ [(key, v)]) :=
  rfl

/-- Lines with keys that are new are added to the entries of the table that is open. -/
theorem Reads.assignments {current : List String}
    {put : List (String × Toml) → List (String × Toml)} (hput : Opens current put)
    (fields : List Assignment) {made : List (String × Toml)}
    (hnodup : (made.map Prod.fst ++ fields.map Assignment.key).Nodup)
    (h : Reads ⟨put (made ++ fields.map Assignment.entry), current⟩ rest q) :
    Reads ⟨put made, current⟩ (fields.flatMap Assignment.line ++ rest) q := by
  induction fields generalizing made with
  | nil =>
    rw [List.map_nil, List.append_nil] at h
    exact h
  | cons a fields ih =>
    have hfresh : made.lookup a.key = none := by
      refine List.lookup_eq_none_iff.mpr fun p hp => bne_iff_ne.mpr ?_
      exact ((List.nodup_append.mp hnodup).2.2 _ (List.mem_map_of_mem hp) _ List.mem_cons_self).symm
    have hentry : within false (fun _ => assign [a.key] a.value) false current (put made) =
        some (put (made ++ [a.entry])) := by
      rw [hput, assign_singleton, hfresh]
      rfl
    rw [List.flatMap_cons, List.append_assoc]
    refine Reads.assignment a hentry (ih ?_ ?_)
    · rw [List.map_append, List.append_assoc]
      exact hnodup
    · rw [List.append_assoc]
      exact h

/-! ### Tables under headers in double brackets -/

/-- The entry for several tables of a name, once there is a first one. -/
def tablesEntry (name : String) (items : List (List (String × Toml))) : List (String × Toml) :=
  if items.isEmpty then [] else [(name, .tables items)]

variable {name : String} {before : List (String × Toml)} {items : List (List (String × Toml))}

theorem tablesEntry_concat (name : String) (items : List (List (String × Toml)))
    (last : List (String × Toml)) :
    tablesEntry name (items ++ [last]) = [(name, .tables (items ++ [last]))] := by
  simp [tablesEntry]

theorem lookup_concat (hbefore : before.lookup name = none) (v : Toml) :
    (before ++ [(name, v)]).lookup name = some v := by
  rw [List.lookup_append, hbefore, Option.none_or, List.lookup_cons_self]

/-- Putting a value in the place of the only one with its name. -/
theorem map_put (hbefore : before.lookup name = none) (old v : Toml) :
    (before ++ [(name, old)]).map (fun (k, w) => if k = name then (k, v) else (k, w)) =
      before ++ [(name, v)] := by
  have hself : before.map (fun (k, w) => if k = name then (k, v) else (k, w)) = before := by
    conv_rhs => rw [← List.map_id before]
    refine List.map_congr_left fun p hp => if_neg ?_
    exact (bne_iff_ne.mp (List.lookup_eq_none_iff.mp hbefore p hp)).symm
  rw [List.map_append, hself]
  simp

theorem openItem_tablesEntry (hbefore : before.lookup name = none) :
    openItem [name] (before ++ tablesEntry name items) =
      some (before ++ tablesEntry name (items ++ [[]])) := by
  rw [tablesEntry_concat]
  cases items with
  | nil =>
    rw [tablesEntry, List.isEmpty_nil, if_pos rfl, List.append_nil]
    simp only [openItem, List.getLast?_singleton, List.dropLast_singleton, within, hbefore,
      List.nil_append]
  | cons item items =>
    rw [tablesEntry, List.isEmpty_cons, if_neg Bool.false_ne_true]
    simp only [openItem, List.getLast?_singleton, List.dropLast_singleton, within,
      lookup_concat hbefore, map_put hbefore]

theorem opens_last (hbefore : before.lookup name = none) :
    Opens [name] fun last => before ++ tablesEntry name (items ++ [last]) := by
  intro last change
  dsimp only
  rw [tablesEntry_concat, within, lookup_concat hbefore]
  dsimp only
  rw [List.getLast?_concat, List.dropLast_concat]
  simp only [map_put hbefore, tablesEntry_concat, within]

/-- A header, and the lines under it. -/
def tableText (name : String) (fields : List Assignment) : List Char :=
  "[[".toList ++ name.toList ++ "]]\n".toList ++ fields.flatMap Assignment.line

theorem readHeader_item {entries : List (String × Toml)} (hbare : IsBareKey name.toList)
    (hopen : openItem [name] p.entries = some entries) :
    readHeader p ('[' :: '[' :: (name.toList ++ ']' :: ']' :: rest)) =
      some (⟨entries, [name]⟩, rest) := by
  rw [readHeader, readKey_bare hbare rfl (skipSpaces_cons rfl) (by decide)]
  simp only [Option.bind_eq_bind, Option.bind_some]
  rw [skipSpaces_cons rfl, expect, if_pos rfl, Option.bind_some, expect, if_pos rfl,
    Option.bind_some, String.ofList_toList, hopen]
  rfl

/-- A header opens one more table, and the lines under it fill it. -/
theorem Reads.table (fields : List Assignment) (hbare : IsBareKey name.toList)
    (hnodup : (fields.map Assignment.key).Nodup) (before : List (String × Toml))
    (hbefore : before.lookup name = none) (items : List (List (String × Toml)))
    {current : List String}
    (h : Reads ⟨before ++ tablesEntry name (items ++ [fields.map Assignment.entry]), [name]⟩
      rest q) :
    Reads ⟨before ++ tablesEntry name items, current⟩ (tableText name fields ++ rest) q := by
  have hfields : Reads ⟨before ++ tablesEntry name (items ++ [[]]), [name]⟩
      (fields.flatMap Assignment.line ++ rest) q :=
    Reads.assignments (opens_last hbefore) fields hnodup h
  have htext : tableText name fields ++ rest = '[' :: '[' :: (name.toList ++ ']' :: ']' ::
      '\n' :: (fields.flatMap Assignment.line ++ rest)) := by
    rw [tableText, show "[[".toList = ['[', '['] from rfl,
      show "]]\n".toList = [']', ']', '\n'] from rfl]
    simp only [List.append_assoc, List.cons_append, List.nil_append]
  rw [htext]
  refine hfields.line rfl ?_ ?_
  · simp only [List.length_cons, List.length_append]
    omega
  · exact readHeader_item hbare (openItem_tablesEntry hbefore)

/-- Several tables with an empty line before each. -/
theorem Reads.tables (tables : List (List Assignment)) (hbare : IsBareKey name.toList)
    (hnodup : ∀ fields ∈ tables, (fields.map Assignment.key).Nodup)
    (before : List (String × Toml)) (hbefore : before.lookup name = none)
    (items : List (List (String × Toml))) (current : List String) :
    ∃ last, Reads ⟨before ++ tablesEntry name items, current⟩
      (tables.flatMap fun fields => '\n' :: tableText name fields)
      ⟨before ++ tablesEntry name (items ++ tables.map (List.map Assignment.entry)), last⟩ := by
  induction tables generalizing items current with
  | nil =>
    rw [List.map_nil, List.append_nil]
    exact ⟨current, reads_nil _⟩
  | cons fields tables ih =>
    obtain ⟨last, hrest⟩ := ih (fun fields h => hnodup fields (List.mem_cons_of_mem _ h))
      (items ++ [fields.map Assignment.entry]) [name]
    rw [List.append_assoc] at hrest
    have hfirst := hnodup fields List.mem_cons_self
    exact ⟨last, .newline (.table fields hbare hfirst before hbefore items hrest)⟩

theorem Reads.read? (h : Reads {} text q) (htext : text.head?.any isStart = true) :
    read? (String.ofList text) = some q.entries := by
  have hmark : text.head? ≠ some '\uFEFF' := by
    intro hhead
    rw [hhead] at htext
    exact absurd htext (by decide)
  rw [Toml.read?, String.toList_ofList, if_neg hmark, h _ (Nat.lt_succ_self _)]
  rfl

end Polystore.Toml
