import Polystore.Json.Reader
import Polystore.Proofs.Json.Number

/-!
JSON text read back. Strings come back as they were, numbers as numbers, and arrays and objects as
such. Main statement: the text of a document is refused if it is nested too deep, and only then.
-/

namespace Polystore.Json

open Polystore.Number (Binary64)
open Polystore.Text

/-! ### Strings -/

theorem value?_digitChar : ∀ n < 16, Hex.value? n.digitChar = some n := by
  decide

theorem readEscapedChar_control {c : Char} (h : c.toNat < 0x20) (rest : List Char) :
    readEscapedChar ('0' :: '0' :: (c.toNat / 16).digitChar :: (c.toNat % 16).digitChar :: rest) =
      some (c, rest) := by
  have hzero : Hex.value? '0' = some 0 := value?_digitChar 0 (by decide)
  have hunit : readUnit ('0' :: '0' :: (c.toNat / 16).digitChar :: (c.toNat % 16).digitChar :: rest) =
      some (c.toNat, rest) := by
    simp only [readUnit, hzero, value?_digitChar _ (by omega : c.toNat / 16 < 16),
      value?_digitChar _ (by omega : c.toNat % 16 < 16), Option.bind_eq_bind, Option.bind_some,
      pure, Option.some.injEq, Prod.mk.injEq, and_true]
    omega
  simp only [readEscapedChar, hunit, Option.bind_eq_bind, Option.bind_some,
    if_neg (by omega : ¬ (0xDC00 ≤ c.toNat ∧ c.toNat ≤ 0xDFFF)),
    if_neg (by omega : ¬ (0xD800 ≤ c.toNat ∧ c.toNat ≤ 0xDBFF)), Char.ofNat_toNat]
  rfl

theorem readChar_escape (c : Char) (rest : List Char) : readChar (escape c ++ rest) = some (c, rest) := by
  unfold escape
  split_ifs with h1 h2 h3 h4 h5 h6 h7 hcontrol
  · subst h1; rfl
  · subst h2; rfl
  · subst h3; rfl
  · subst h4; rfl
  · subst h5; rfl
  · subst h6; rfl
  · subst h7; rfl
  · exact readEscapedChar_control hcontrol rest
  · rw [List.singleton_append]
    unfold readChar
    split
    · next heq => exact absurd (List.cons.inj heq).1 h2
    · next heq => exact absurd (List.cons.inj heq).1 h2
    · next heq =>
      obtain ⟨rfl, rfl⟩ := List.cons.inj heq
      simp [hcontrol, h2]
    · next heq => cases heq

/-- What a character is written as is not empty, and does not begin like the end of a string. -/
theorem exists_escape (c : Char) : ∃ d rest, escape c = d :: rest ∧ d ≠ '"' := by
  unfold escape
  split_ifs with h
  all_goals exact ⟨_, _, rfl, by first | decide | exact h⟩

theorem readQuoted_escape {s : List Char} {fuel : Nat} (hfuel : s.length < fuel)
    (read rest : List Char) :
    readQuoted fuel read (s.flatMap escape ++ '"' :: rest) =
      some (String.ofList (read.reverse ++ s), rest) := by
  induction s generalizing fuel read with
  | nil =>
    obtain ⟨fuel, rfl⟩ := Nat.exists_eq_add_of_lt hfuel
    simp [readQuoted]
  | cons c s ih =>
    obtain ⟨fuel, rfl⟩ : ∃ n, fuel = n + 1 := Nat.exists_eq_add_one.mpr (by omega)
    obtain ⟨d, tail, hescape, hd⟩ := exists_escape c
    have htext : (c :: s).flatMap escape ++ '"' :: rest =
        escape c ++ (s.flatMap escape ++ '"' :: rest) := by
      rw [List.flatMap_cons, List.append_assoc]
    have hhead : (escape c ++ (s.flatMap escape ++ '"' :: rest)).head? ≠ some '"' := by
      rw [hescape]
      simpa using hd
    rw [htext, readQuoted, if_neg hhead, readChar_escape]
    simp only
    rw [ih (by rw [List.length_cons] at hfuel; omega)]
    simp

theorem length_le_flatMap_escape (s : List Char) : s.length ≤ (s.flatMap escape).length := by
  induction s with
  | nil => exact Nat.le_refl 0
  | cons c s ih =>
    obtain ⟨d, tail, hescape, -⟩ := exists_escape c
    rw [List.flatMap_cons, List.length_append, hescape, List.length_cons, List.length_cons]
    omega

theorem readText_quoted (s : String) (rest : List Char) :
    readText (quoted s ++ rest) = some (s, rest) := by
  have htext : quoted s ++ rest = '"' :: (s.toList.flatMap escape ++ '"' :: rest) := by
    simp [quoted]
  have hlength := length_le_flatMap_escape s.toList
  rw [htext, readText, if_pos List.head?_cons, List.drop_one, List.tail_cons,
    readQuoted_escape (by rw [List.length_cons, List.length_append]; omega), List.reverse_nil,
    List.nil_append, String.ofList_toList]

/-! ### Documents -/

/-- The integers are within the range of words with or without a sign, and the floats are finite. -/
inductive Proper : Json → Prop where
  | null : Proper .null
  | bool (b : Bool) : Proper (.bool b)
  | integer {i : Int} (h : -(2 ^ 63) ≤ i ∧ i < 2 ^ 64) : Proper (.integer i)
  | float {x : Binary64} (h : x.isFinite = true) : Proper (.float x)
  | string (s : String) : Proper (.string s)
  | array {items : List Json} (h : ∀ item ∈ items, Proper item) : Proper (.array items)
  | object {members : List (String × Json)} (h : ∀ member ∈ members, Proper member.2) :
      Proper (.object members)

mutual

/-- How many arrays and objects stand within each other. -/
def depth : Json → Nat
  | .array items => depthItems items + 1
  | .object members => depthMembers members + 1
  | _ => 0
termination_by structural json => json

def depthItems : List Json → Nat
  | [] => 0
  | item :: rest => max item.depth (depthItems rest)
termination_by structural items => items

def depthMembers : List (String × Json) → Nat
  | [] => 0
  | (_, value) :: rest => max value.depth (depthMembers rest)
termination_by structural members => members

end

theorem depthItems_le_iff {items : List Json} {n : Nat} :
    depthItems items ≤ n ↔ ∀ item ∈ items, item.depth ≤ n := by
  induction items with
  | nil => simp [depthItems]
  | cons item items ih => simp [depthItems, ih]

theorem depthMembers_le_iff {members : List (String × Json)} {n : Nat} :
    depthMembers members ≤ n ↔ ∀ member ∈ members, member.2.depth ≤ n := by
  induction members with
  | nil => simp [depthMembers]
  | cons member members ih => simp [depthMembers, ih]

theorem writeItems_eq (items : List Json) : writeItems items = items.map write := by
  induction items with
  | nil => rfl
  | cons item items ih => rw [writeItems, ih, List.map_cons]

/-- A member as it is written. -/
def writeMember (member : String × Json) : List Char :=
  quoted member.1 ++ ':' :: member.2.write

theorem writeMembers_eq (members : List (String × Json)) :
    writeMembers members = members.map writeMember := by
  induction members with
  | nil => rfl
  | cons member members ih => rw [writeMembers, ih, List.map_cons]; rfl

/-! ### Texts within texts -/

/-- What may come after a document: a separator, the end of what it is in, or nothing. -/
def Closes (rest : List Char) : Prop :=
  ∀ c, rest.head? = some c → c = ',' ∨ c = ']' ∨ c = '\x7d'

theorem Closes.endsNumber {rest : List Char} (h : Closes rest) : EndsNumber rest := by
  intro c hc
  rcases h c hc with rfl | rfl | rfl <;> decide

theorem closes_nil : Closes [] :=
  fun _ h => nomatch h

theorem closes_cons {c : Char} (h : c = ',' ∨ c = ']' ∨ c = '\x7d') (rest : List Char) :
    Closes (c :: rest) := by
  rintro d ⟨⟩
  exact h

theorem skipBlanks_cons {c : Char} (h : (c == ' ' || c == '\n' || c == '\t' || c == '\r') = false)
    (rest : List Char) : skipBlanks (c :: rest) = c :: rest := by
  rw [skipBlanks, List.dropWhile_cons_of_neg (by simp [h])]

/-- A text that begins like a document or a member. -/
def Starts (text : List Char) : Prop :=
  ∃ c rest, text = c :: rest ∧ (c == ' ' || c == '\n' || c == '\t' || c == '\r') = false ∧
    c ≠ ']' ∧ c ≠ '\x7d'

theorem Starts.skipBlanks_append {text : List Char} (h : Starts text) (rest : List Char) :
    skipBlanks (text ++ rest) = text ++ rest := by
  obtain ⟨c, tail, rfl, hblank, -⟩ := h
  exact skipBlanks_cons hblank _

theorem length_le_intercalate {texts : List (List Char)} (h : ∀ text ∈ texts, Starts text) :
    texts.length ≤ ([','].intercalate texts).length := by
  induction texts with
  | nil => exact Nat.le_refl 0
  | cons text texts ih =>
    obtain ⟨c, tail, rfl, -⟩ := h text List.mem_cons_self
    have hrest := ih fun t ht => h t (List.mem_cons_of_mem _ ht)
    cases texts with
    | nil => simp [List.intercalate_singleton]
    | cons next texts =>
      rw [List.intercalate_cons_cons, List.length_append, List.length_append, List.length_cons]
      simp only [List.length_cons] at hrest ⊢
      omega

section

variable {A : Type} {reader : List Char → Option (A × List Char)}

/-- A reader gets over a text, whatever comes after it. -/
def Reads (reader : List Char → Option (A × List Char)) (text : List Char) : Prop :=
  ∀ rest, Closes rest → ∃ a, reader (text ++ rest) = some (a, rest)

def Refuses (reader : List Char → Option (A × List Char)) (text : List Char) : Prop :=
  ∀ rest, Closes rest → reader (text ++ rest) = none

variable {close : Char} (hclose : close = ']' ∨ close = '\x7d') {texts : List (List Char)}

include hclose

theorem readItems_last {fuel : Nat} {text rest : List Char} {a : A}
    (h : reader (text ++ close :: rest) = some (a, close :: rest)) :
    readItems reader close (fuel + 1) (text ++ close :: rest) = some ([a], rest) := by
  have hskip : skipBlanks (close :: rest) = close :: rest :=
    skipBlanks_cons (by rcases hclose with rfl | rfl <;> decide) rest
  simp only [readItems, h, Option.bind_eq_bind, Option.bind_some, hskip, if_true]
  rfl

theorem readItems_more {fuel : Nat} {text rest : List Char} {a : A}
    (h : reader (text ++ ',' :: rest) = some (a, ',' :: rest)) :
    readItems reader close (fuel + 1) (text ++ ',' :: rest) =
      (readItems reader close fuel rest).map fun (items, rest) => (a :: items, rest) := by
  have hskip : skipBlanks (',' :: rest) = ',' :: rest := skipBlanks_cons (by decide) rest
  have hne : ¬ ',' = close := by rcases hclose with rfl | rfl <;> decide
  simp only [readItems, h, Option.bind_eq_bind, Option.bind_some, hskip, if_neg hne, if_true]
  cases readItems reader close fuel rest <;> rfl

theorem exists_readItems (hne : texts ≠ []) (h : ∀ text ∈ texts, Reads reader text) {fuel : Nat}
    (hfuel : texts.length ≤ fuel) (rest : List Char) :
    ∃ items, readItems reader close fuel ([','].intercalate texts ++ close :: rest) =
      some (items, rest) := by
  induction texts generalizing fuel with
  | nil => exact absurd rfl hne
  | cons text texts ih =>
    obtain ⟨fuel, rfl⟩ : ∃ n, fuel = n + 1 := Nat.exists_eq_add_one.mpr (by
      rw [List.length_cons] at hfuel
      omega)
    cases texts with
    | nil =>
      obtain ⟨a, ha⟩ := h text List.mem_cons_self (close :: rest) (closes_cons (.inr hclose) rest)
      exact ⟨[a], by rw [List.intercalate_singleton]; exact readItems_last hclose ha⟩
    | cons next texts =>
      obtain ⟨a, ha⟩ := h text List.mem_cons_self
        (',' :: ([','].intercalate (next :: texts) ++ close :: rest)) (closes_cons (.inl rfl) _)
      obtain ⟨items, hitems⟩ := ih (List.cons_ne_nil _ _)
        (fun t ht => h t (List.mem_cons_of_mem text ht)) (Nat.le_of_succ_le_succ hfuel)
      refine ⟨a :: items, ?_⟩
      rw [List.intercalate_cons_cons, List.append_assoc, List.append_assoc, List.singleton_append,
        readItems_more hclose ha, hitems]
      rfl

/-- One text that is refused makes the whole list refused, if those before it can be read. -/
theorem readItems_refused (h : ∀ text ∈ texts, Reads reader text ∨ Refuses reader text)
    (hex : ∃ text ∈ texts, Refuses reader text) (fuel : Nat) (rest : List Char) :
    readItems reader close fuel ([','].intercalate texts ++ close :: rest) = none := by
  induction texts generalizing fuel with
  | nil =>
    obtain ⟨text, hmem, -⟩ := hex
    cases hmem
  | cons text texts ih =>
    cases fuel with
    | zero => rfl
    | succ fuel =>
      cases texts with
      | nil =>
        obtain ⟨text', hmem, hrefused⟩ := hex
        obtain rfl := List.mem_singleton.mp hmem
        rw [List.intercalate_singleton, readItems,
          hrefused (close :: rest) (closes_cons (.inr hclose) rest)]
        rfl
      | cons next texts =>
        have hcomma := closes_cons (.inl rfl) ([','].intercalate (next :: texts) ++ close :: rest)
        rw [List.intercalate_cons_cons, List.append_assoc, List.append_assoc, List.singleton_append]
        rcases h text List.mem_cons_self with hread | hrefused
        · obtain ⟨a, ha⟩ := hread _ hcomma
          rw [readItems_more hclose ha]
          by_cases hfirst : Refuses reader text
          · rw [hfirst _ hcomma] at ha
            cases ha
          · obtain ⟨text', hmem, hrefused⟩ := hex
            have hmem' : text' ∈ next :: texts := by
              rcases List.mem_cons.mp hmem with rfl | hmem
              · exact absurd hrefused hfirst
              · exact hmem
            rw [ih (fun t ht => h t (List.mem_cons_of_mem text ht)) ⟨text', hmem', hrefused⟩]
            rfl
        · rw [readItems, hrefused _ hcomma]
          rfl

theorem readList_eq_readItems (hne : texts ≠ []) (h : ∀ text ∈ texts, Starts text)
    (rest : List Char) : ∃ fuel, texts.length ≤ fuel ∧
      readList reader close ([','].intercalate texts ++ close :: rest) =
        readItems reader close fuel ([','].intercalate texts ++ close :: rest) := by
  obtain ⟨text, texts, rfl⟩ := List.exists_cons_of_ne_nil hne
  have hlength := length_le_intercalate h
  have hstarts : Starts ([','].intercalate (text :: texts)) := by
    obtain ⟨c, tail, rfl, hc⟩ := h text List.mem_cons_self
    cases texts with
    | nil => exact ⟨c, tail, by rw [List.intercalate_singleton], hc⟩
    | cons next texts => exact ⟨c, _, by rw [List.intercalate_cons_cons]; rfl, hc⟩
  obtain ⟨c, tail, hcons, -, hbracket, hbrace⟩ := id hstarts
  have hhead : ([','].intercalate (text :: texts) ++ close :: rest).head? ≠ some close := by
    rw [hcons]
    rcases hclose with rfl | rfl
    · simpa using hbracket
    · simpa using hbrace
  refine ⟨([','].intercalate (text :: texts) ++ close :: rest).length, ?_, ?_⟩
  · rw [List.length_append]
    omega
  · rw [readList, hstarts.skipBlanks_append, if_neg hhead]

theorem exists_readList (hstarts : ∀ text ∈ texts, Starts text)
    (h : ∀ text ∈ texts, Reads reader text) (rest : List Char) :
    ∃ items, readList reader close ([','].intercalate texts ++ close :: rest) =
      some (items, rest) := by
  by_cases hne : texts = []
  · subst hne
    have hskip : skipBlanks (close :: rest) = close :: rest :=
      skipBlanks_cons (by rcases hclose with rfl | rfl <;> decide) rest
    exact ⟨[], by simp [readList, List.intercalate, hskip]⟩
  · obtain ⟨fuel, hfuel, heq⟩ := @readList_eq_readItems A reader _ hclose _ hne hstarts rest
    rw [heq]
    exact exists_readItems hclose hne h hfuel rest

theorem readList_refused (hstarts : ∀ text ∈ texts, Starts text)
    (h : ∀ text ∈ texts, Reads reader text ∨ Refuses reader text)
    (hex : ∃ text ∈ texts, Refuses reader text) (rest : List Char) :
    readList reader close ([','].intercalate texts ++ close :: rest) = none := by
  have hne : texts ≠ [] := by
    obtain ⟨text, hmem, -⟩ := hex
    exact List.ne_nil_of_mem hmem
  obtain ⟨fuel, -, heq⟩ := @readList_eq_readItems A reader _ hclose _ hne hstarts rest
  rw [heq]
  exact readItems_refused hclose h hex fuel rest

end

/-! ### Nesting -/

theorem array_append (items : List Json) (rest : List Char) :
    (Json.array items).write ++ rest = '[' :: ([','].intercalate (items.map write) ++ ']' :: rest) := by
  rw [write, writeItems_eq]
  simp

theorem object_append (members : List (String × Json)) (rest : List Char) :
    (Json.object members).write ++ rest =
      '\x7b' :: ([','].intercalate (members.map writeMember) ++ '\x7d' :: rest) := by
  rw [write, writeMembers_eq]
  simp

theorem readNested_array (n : Nat) (text : List Char) : readNested (n + 1) ('[' :: text) =
    (readList (readNested n) ']' text).map fun (items, rest) => (.array items, rest) := by
  have hskip : skipBlanks ('[' :: text) = '[' :: text := skipBlanks_cons (by decide) text
  simp only [readNested, hskip]
  cases readList (readNested n) ']' text <;> rfl

theorem readNested_object (n : Nat) (text : List Char) : readNested (n + 1) ('\x7b' :: text) =
    (readList (readMember (readNested n)) '\x7d' text).map fun (members, rest) =>
      (objectOf members, rest) := by
  have hskip : skipBlanks ('\x7b' :: text) = '\x7b' :: text := skipBlanks_cons (by decide) text
  simp only [readNested, hskip]
  cases readList (readMember (readNested n)) '\x7d' text <;> rfl

theorem readMember_quoted (reader : List Char → Option (Json × List Char)) (name : String)
    (text : List Char) : readMember reader (quoted name ++ ':' :: text) =
      (reader text).map fun (value, rest) => ((name, value), rest) := by
  have hquote : skipBlanks (quoted name ++ ':' :: text) = quoted name ++ ':' :: text :=
    skipBlanks_cons (by decide) _
  have hcolon : skipBlanks (':' :: text) = ':' :: text := skipBlanks_cons (by decide) text
  simp only [readMember, hquote, readText_quoted, hcolon, Option.bind_eq_bind, Option.bind_some]
  cases reader text <;> rfl

/-! ### Data that is not nested -/

theorem exists_digit_of_readNumber {negative : Bool} {text : List Char} {made : Json × List Char}
    (h : readNumber negative text = some made) : ∃ c rest, text = c :: rest ∧ isDigit c = true := by
  cases text with
  | nil => cases h
  | cons c rest =>
    cases hc : isDigit c with
    | true => exact ⟨c, rest, rfl, hc⟩
    | false =>
      have hspan : spanDigits (c :: rest) = ([], c :: rest) :=
        @spanDigits_append [] _ (fun _ h => nomatch h) (endsRow_cons hc rest)
      rw [readNumber, hspan] at h
      cases h

theorem readScalar_number (negative : Bool) {body : List Char} {made : Json × List Char}
    (h : readNumber negative body = some made) :
    readScalar ((if negative then ['-'] else []) ++ body) = some made := by
  obtain ⟨c, tail, rfl, hc⟩ := exists_digit_of_readNumber h
  cases negative with
  | true => exact h
  | false =>
    have hne (d : Char) (hd : isDigit d = false) : ¬ c = d := by
      rintro rfl
      rw [hc] at hd
      cases hd
    simp only [Bool.false_eq_true, if_false, List.nil_append, readScalar, if_neg (hne 'n' rfl),
      if_neg (hne 't' rfl), if_neg (hne 'f' rfl), if_neg (hne '"' rfl), if_neg (hne '-' rfl), hc,
      if_true, h]

theorem reads_scalar {json : Json} (h : json.Proper) (hdepth : json.depth = 0) :
    Reads readScalar json.write := by
  intro rest hrest
  cases h with
  | null => exact ⟨.null, rfl⟩
  | bool b => cases b <;> exact ⟨_, rfl⟩
  | string s =>
    refine ⟨.string s, ?_⟩
    show (readText (quoted s ++ rest)).map _ = _
    rw [readText_quoted]
    rfl
  | integer hrange =>
    rename_i i
    have hnumber := readNumber_digits hrange.1 hrange.2 hrest.endsNumber
    refine ⟨.integer i, ?_⟩
    have htext : (Json.integer i).write ++ rest =
        (if decide (i < 0) = true then ['-'] else []) ++ (digits i.natAbs ++ rest) := by
      simp only [write, Text.integer, decide_eq_true_eq]
      split <;> rfl
    rw [htext]
    exact readScalar_number _ hnumber
  | float hfinite =>
    rename_i x
    obtain ⟨body, y, htext, hnumber⟩ := exists_readNumber_write hfinite hrest.endsNumber
    refine ⟨.float y, ?_⟩
    rw [write, htext, List.append_assoc]
    exact readScalar_number _ hnumber
  | array h => cases hdepth
  | object h => cases hdepth

/-- What a scalar begins with is neither blank nor a bracket. -/
theorem readScalar_head {c : Char} {rest : List Char} {made : Json × List Char}
    (h : readScalar (c :: rest) = some made) :
    (c == ' ' || c == '\n' || c == '\t' || c == '\r') = false ∧
      (c ≠ ']' ∧ c ≠ '\x7d') ∧ c ≠ '[' ∧ c ≠ '\x7b' := by
  have hne (d : Char) (hd : readScalar (d :: rest) = none) : c ≠ d := by
    rintro rfl
    rw [hd] at h
    cases h
  have hblank (d : Char) (hd : readScalar (d :: rest) = none) : (c == d) = false :=
    beq_eq_false_iff_ne.mpr (hne d hd)
  rw [hblank ' ' rfl, hblank '\n' rfl, hblank '\t' rfl, hblank '\r' rfl]
  exact ⟨rfl, ⟨hne ']' rfl, hne '\x7d' rfl⟩, hne '[' rfl, hne '\x7b' rfl⟩

theorem readNested_scalar (n : Nat) {text : List Char} {made : Json × List Char}
    (h : readScalar text = some made) : readNested n text = some made := by
  cases text with
  | nil => cases h
  | cons c rest =>
    obtain ⟨hblank, -, hbracket, hbrace⟩ := readScalar_head h
    have hskip := skipBlanks_cons hblank rest
    cases n with
    | zero =>
      simp only [readNested, hskip, List.head?_cons, Option.some.injEq, hbracket, hbrace]
      simpa using h
    | succ n =>
      unfold readNested
      split
      · next heq => exact absurd (List.cons.inj (hskip.symm.trans heq)).1 hbracket
      · next heq => exact absurd (List.cons.inj (hskip.symm.trans heq)).1 hbrace
      · rw [hskip, h]

theorem starts_scalar {json : Json} (h : json.Proper) (hdepth : json.depth = 0) :
    Starts json.write := by
  obtain ⟨made, hread⟩ := reads_scalar h hdepth [] closes_nil
  rw [List.append_nil] at hread
  cases htext : json.write with
  | nil =>
    rw [htext] at hread
    cases hread
  | cons c rest =>
    rw [htext] at hread
    obtain ⟨hblank, hends, -⟩ := readScalar_head hread
    exact ⟨c, rest, rfl, hblank, hends⟩

theorem Proper.starts {json : Json} (h : json.Proper) : Starts json.write := by
  cases h with
  | array h => exact ⟨'[', _, rfl, by decide, by decide, by decide⟩
  | object h => exact ⟨'\x7b', _, rfl, by decide, by decide, by decide⟩
  | null => exact starts_scalar .null rfl
  | bool b => exact starts_scalar (.bool b) rfl
  | integer h => exact starts_scalar (.integer h) rfl
  | float h => exact starts_scalar (.float h) rfl
  | string s => exact starts_scalar (.string s) rfl

/-! ### Nesting -/

section

variable {A : Type} {reader : Nat → List Char → Option (A × List Char)}

/-- A reader for so many levels gets over a text of no more levels, and refuses one of more. -/
def Bounded (reader : Nat → List Char → Option (A × List Char)) (depth : Nat) (text : List Char) :
    Prop :=
  ∀ n, (depth ≤ n → Reads (reader n) text) ∧ (n < depth → Refuses (reader n) text)

theorem bounded_list {B : Type} {parts : List B} {depth : B → Nat} {text : B → List Char}
    (hstarts : ∀ part ∈ parts, Starts (text part))
    (h : ∀ part ∈ parts, Bounded reader (depth part) (text part)) {close : Char}
    (hclose : close = ']' ∨ close = '\x7d') (n : Nat) (rest : List Char) :
    ((∀ part ∈ parts, depth part ≤ n) → ∃ items,
      readList (reader n) close ([','].intercalate (parts.map text) ++ close :: rest) =
        some (items, rest)) ∧
    ((¬ ∀ part ∈ parts, depth part ≤ n) →
      readList (reader n) close ([','].intercalate (parts.map text) ++ close :: rest) = none) := by
  have hstarts : ∀ t ∈ parts.map text, Starts t := List.forall_mem_map.mpr hstarts
  constructor
  · intro hall
    have hreads : ∀ t ∈ parts.map text, Reads (reader n) t :=
      List.forall_mem_map.mpr fun part hpart => (h part hpart n).1 (hall part hpart)
    exact exists_readList hclose hstarts hreads rest
  · intro hdeep
    have heither : ∀ t ∈ parts.map text, Reads (reader n) t ∨ Refuses (reader n) t := by
      refine List.forall_mem_map.mpr fun part hpart => ?_
      rcases le_or_gt (depth part) n with hle | hlt
      · exact .inl ((h part hpart n).1 hle)
      · exact .inr ((h part hpart n).2 hlt)
    push Not at hdeep
    obtain ⟨part, hpart, hlt⟩ := hdeep
    have hrefused := (h part hpart n).2 hlt
    exact readList_refused hclose hstarts heither ⟨_, List.mem_map_of_mem hpart, hrefused⟩ rest

end

theorem bounded_scalar {json : Json} (h : json.Proper) (hdepth : json.depth = 0) :
    Bounded readNested json.depth json.write := by
  refine fun n => ⟨fun _ rest hrest => ?_, fun hlt => absurd hlt (by omega)⟩
  obtain ⟨back, hback⟩ := reads_scalar h hdepth rest hrest
  exact ⟨back, readNested_scalar n hback⟩

theorem bounded_array {items : List Json} (hstarts : ∀ item ∈ items, Starts item.write)
    (h : ∀ item ∈ items, Bounded readNested item.depth item.write) :
    Bounded readNested (Json.array items).depth (Json.array items).write := by
  intro n
  cases n with
  | zero => exact ⟨(fun hle => nomatch hle), fun _ rest _ => by rw [array_append]; rfl⟩
  | succ n =>
    refine ⟨fun hle rest _ => ?_, fun hlt rest _ => ?_⟩
    · obtain ⟨back, hback⟩ := (bounded_list hstarts h (.inl rfl) n rest).1
        (depthItems_le_iff.mp (Nat.le_of_succ_le_succ hle))
      exact ⟨.array back, by rw [array_append, readNested_array, hback]; rfl⟩
    · have hnone := (bounded_list hstarts h (.inl rfl) n rest).2 fun hall =>
        Nat.not_lt.mpr (Nat.succ_le_succ (depthItems_le_iff.mpr hall)) hlt
      rw [array_append, readNested_array, hnone]
      rfl

theorem bounded_member {member : String × Json}
    (h : Bounded readNested member.2.depth member.2.write) :
    Bounded (fun n => readMember (readNested n)) member.2.depth (writeMember member) := by
  have heq (n : Nat) (rest : List Char) : readMember (readNested n) (writeMember member ++ rest) =
      (readNested n (member.2.write ++ rest)).map fun (value, rest) => ((member.1, value), rest) := by
    rw [← readMember_quoted]
    simp [writeMember]
  refine fun n => ⟨fun hle rest hrest => ?_, fun hlt rest hrest => ?_⟩
  · obtain ⟨back, hback⟩ := (h n).1 hle rest hrest
    exact ⟨(member.1, back), (heq n rest).trans (by rw [hback]; rfl)⟩
  · exact (heq n rest).trans (by rw [(h n).2 hlt rest hrest]; rfl)

theorem bounded_object {members : List (String × Json)}
    (h : ∀ member ∈ members, Bounded readNested member.2.depth member.2.write) :
    Bounded readNested (Json.object members).depth (Json.object members).write := by
  have hstarts : ∀ member ∈ members, Starts (writeMember member) :=
    fun member _ => ⟨'"', _, rfl, by decide, by decide, by decide⟩
  have hmembers := fun member hmember => bounded_member (h member hmember)
  intro n
  cases n with
  | zero => exact ⟨(fun hle => nomatch hle), fun _ rest _ => by rw [object_append]; rfl⟩
  | succ n =>
    refine ⟨fun hle rest _ => ?_, fun hlt rest _ => ?_⟩
    · obtain ⟨back, hback⟩ := (bounded_list hstarts hmembers (.inr rfl) n rest).1
        (depthMembers_le_iff.mp (Nat.le_of_succ_le_succ hle))
      exact ⟨objectOf back, by rw [object_append, readNested_object, hback]; rfl⟩
    · have hnone := (bounded_list hstarts hmembers (.inr rfl) n rest).2 fun hall =>
        Nat.not_lt.mpr (Nat.succ_le_succ (depthMembers_le_iff.mpr hall)) hlt
      rw [object_append, readNested_object, hnone]
      rfl

theorem Proper.bounded {json : Json} (h : json.Proper) :
    Bounded readNested json.depth json.write := by
  induction h with
  | null => exact bounded_scalar .null rfl
  | bool b => exact bounded_scalar (.bool b) rfl
  | integer h => exact bounded_scalar (.integer h) rfl
  | float h => exact bounded_scalar (.float h) rfl
  | string s => exact bounded_scalar (.string s) rfl
  | array h ih => exact bounded_array (fun item hitem => (h item hitem).starts) ih
  | object h ih => exact bounded_object ih

/-- The text of a document is read back, unless its arrays and objects are nested too deep. -/
theorem read?_compact {json : Json} (h : json.Proper) :
    (∃ back, read? json.compact = some back) ↔ json.depth ≤ 127 := by
  have hbounded := h.bounded 127
  constructor
  · rintro ⟨back, hback⟩
    by_contra hdeep
    have hnone := hbounded.2 (by omega) [] closes_nil
    rw [List.append_nil] at hnone
    rw [read?, compact, String.toList_ofList, hnone] at hback
    cases hback
  · intro hle
    obtain ⟨back, hback⟩ := hbounded.1 hle [] closes_nil
    rw [List.append_nil] at hback
    exact ⟨back, by rw [read?, compact, String.toList_ofList, hback]; rfl⟩

theorem exists_of_read? {text : String} {json : Json} (h : read? text = some json) :
    ∃ rest, readNested 127 text.toList = some (json, rest) := by
  rw [read?] at h
  split at h
  · next back rest heq =>
    split at h
    · cases h
      exact ⟨rest, heq⟩
    · cases h
  · cases h

theorem read?_compact_array {items : List Json} {back : Json}
    (h : read? (Json.array items).compact = some back) : ∃ items', back = .array items' := by
  obtain ⟨rest, hback⟩ := exists_of_read? h
  rw [compact, String.toList_ofList, ← List.append_nil (write _), array_append, readNested_array,
    Option.map_eq_some_iff] at hback
  obtain ⟨⟨items', rest'⟩, -, heq⟩ := hback
  exact ⟨items', (Prod.mk.inj heq).1.symm⟩

theorem read?_compact_object {members : List (String × Json)} {back : Json}
    (h : read? (Json.object members).compact = some back) : ∃ members', back = .object members' := by
  obtain ⟨rest, hback⟩ := exists_of_read? h
  rw [compact, String.toList_ofList, ← List.append_nil (write _), object_append, readNested_object,
    Option.map_eq_some_iff] at hback
  obtain ⟨⟨members', rest'⟩, -, heq⟩ := hback
  exact ⟨_, (Prod.mk.inj heq).1.symm⟩

end Polystore.Json
