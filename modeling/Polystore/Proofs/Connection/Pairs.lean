import Mathlib.Data.List.Forall2
import Mathlib.Data.List.TakeDrop
import Polystore.Connection.Config
import Polystore.Proofs.Text.Digits
import Polystore.Proofs.Text.Split
import Polystore.Text.Blank

/-!
The grammar of the text that a PostgreSQL client is opened with: pairs of a key and a value with
white space between them, where a value may stand in single quotes and a backslash takes the next
character as it is. Main statement: what is read from the text for a configuration is its
parameters and nothing else, whatever the texts in them are.
-/

namespace Polystore.Connection

namespace Pairs

section Reader

variable (isSpace : Char → Bool)

/-- A value and what follows its closing quote. -/
def readQuoted : List Char → Option (List Char × List Char)
  | [] => none
  | '\'' :: rest => some ([], rest)
  | ['\\'] => none
  | '\\' :: c :: rest => (readQuoted rest).map fun (value, rest) => (c :: value, rest)
  | c :: rest => (readQuoted rest).map fun (value, rest) => (c :: value, rest)

/-- A value without quotes, which ends where white space begins. -/
def readBare : List Char → List Char × List Char
  | [] => ([], [])
  | ['\\'] => ([], [])
  | '\\' :: c :: rest =>
    let (value, rest) := readBare rest
    (c :: value, rest)
  | c :: rest =>
    if isSpace c then ([], c :: rest)
    else
      let (value, rest) := readBare rest
      (c :: value, rest)

def readValue : List Char → Option (List Char × List Char)
  | '\'' :: rest => readQuoted rest
  | text => some (readBare isSpace text)

/-- A key, an equals sign and a value, with white space on either side of the sign. -/
def readPair (text : List Char) : Option ((String × String) × List Char) :=
  let (key, rest) := text.span fun c => !isSpace c && c != '='
  match rest.dropWhile isSpace with
  | '=' :: rest =>
    (readValue isSpace (rest.dropWhile isSpace)).map fun (value, rest) =>
      ((String.ofList key, String.ofList value), rest)
  | _ => none

/-- Pairs up to the end of the text; the fuel bounds their number. -/
def readPairs : Nat → List Char → Option (List (String × String))
  | 0, _ => none
  | fuel + 1, text =>
    match text.dropWhile isSpace with
    | [] => some []
    | c :: rest =>
      (readPair isSpace (c :: rest)).bind fun (pair, rest) =>
        (readPairs fuel rest).map (pair :: ·)

/-- The pairs that a text consists of. -/
def read? (text : String) : Option (List (String × String)) :=
  readPairs isSpace (text.toList.length + 1) text.toList

end Reader

/-- White space as far as the grammar asks: the blank is, and no other visible character of ASCII. -/
structure IsSpacing (isSpace : Char → Bool) : Prop where
  blank : isSpace ' ' = true
  visible : ∀ c, '!' ≤ c ∧ c ≤ '~' → isSpace c = false

/-- Visible characters that have no meaning of their own in the grammar. -/
def IsWord (text : List Char) : Prop :=
  text ≠ [] ∧ ∀ c ∈ text, ('!' ≤ c ∧ c ≤ '~') ∧ c ≠ '=' ∧ c ≠ '\'' ∧ c ≠ '\\'

instance (text : List Char) : Decidable (IsWord text) :=
  @instDecidableAnd _ _ inferInstance (List.decidableBAll _ text)

theorem isWord_digits (n : Nat) : IsWord (Text.digits n) := by
  refine ⟨Nat.toDigits_ne_nil, fun c hc => ?_⟩
  have hdigit : '0' ≤ c ∧ c ≤ '9' := by
    simpa [Text.isDigit] using Text.isRow_digits n c hc
  have hlow : 48 ≤ c.toNat := hdigit.1
  have hhigh : c.toNat ≤ 57 := hdigit.2
  refine ⟨⟨?_, ?_⟩, ?_, ?_, ?_⟩
  · exact Nat.le_trans (by decide : '!'.toNat ≤ 48) hlow
  · exact Nat.le_trans hhigh (by decide : 57 ≤ '~'.toNat)
  all_goals
    rintro rfl
    exact absurd hdigit (by decide)

/-- A value with a backslash before its quotes and backslashes. -/
def escaped (value : List Char) : List Char :=
  value.flatMap fun c => if c = '\'' ∨ c = '\\' then ['\\', c] else [c]

theorem toList_quoteValue (value : String) :
    (Config.quoteValue value).toList = '\'' :: (escaped value.toList ++ ['\'']) := by
  rw [Config.quoteValue, String.toList_ofList, escaped, List.cons_append]

/-- Quoting is two replacements in a row, that of the backslashes before that of the quotes. -/
theorem quoteValue_eq_replacements (value : String) :
    (Config.quoteValue value).toList =
      '\'' :: ((value.toList.flatMap fun c => if c = '\\' then ['\\', '\\'] else [c]).flatMap
        (fun c => if c = '\'' then ['\\', '\''] else [c]) ++ ['\'']) := by
  rw [toList_quoteValue, escaped, List.flatMap_assoc]
  congr 3
  funext c
  by_cases hquote : c = '\''
  · subst hquote
    rfl
  · by_cases hslash : c = '\\'
    · subst hslash
      rfl
    · simp [hquote, hslash]

theorem readQuoted_plain {c : Char} (hquote : c ≠ '\'') (hslash : c ≠ '\\') (text : List Char) :
    readQuoted (c :: text) = (readQuoted text).map fun (value, rest) => (c :: value, rest) := by
  rw [readQuoted.eq_5]
  · exact hquote
  · intro h _
    exact hslash h
  · intro _ _ h _
    exact hslash h

/-- An escaped value is read as it was, up to the quote behind it. -/
theorem readQuoted_escaped (value rest : List Char) :
    readQuoted (escaped value ++ '\'' :: rest) = some (value, rest) := by
  induction value with
  | nil => rfl
  | cons c value ih =>
    rw [escaped, List.flatMap_cons, ← escaped, List.append_assoc]
    by_cases hspecial : c = '\'' ∨ c = '\\'
    · rw [if_pos hspecial, List.cons_append, List.cons_append, List.nil_append, readQuoted, ih]
      rfl
    · rw [if_neg hspecial, List.singleton_append]
      rw [not_or] at hspecial
      rw [readQuoted_plain hspecial.1 hspecial.2, ih]
      rfl

theorem length_le_flatMap (parts : List (List Char)) :
    parts.length ≤ (parts.flatMap (' ' :: ·)).length := by
  induction parts with
  | nil => exact Nat.le_refl 0
  | cons part parts ih =>
    rw [List.flatMap_cons, List.length_append, List.length_cons, List.length_cons]
    omega

section Reading

variable {isSpace : Char → Bool} (hspace : IsSpacing isSpace)

include hspace

theorem IsSpacing.visible_word {text : List Char} (h : IsWord text) {c : Char} (hc : c ∈ text) :
    isSpace c = false :=
  hspace.visible c (h.2 c hc).1

theorem IsSpacing.dropWhile_cons {c : Char} (h : '!' ≤ c ∧ c ≤ '~') (text : List Char) :
    (c :: text).dropWhile isSpace = c :: text := by
  rw [List.dropWhile_cons_of_neg]
  rw [hspace.visible c h]
  exact Bool.false_ne_true

/-- What may follow a pair: nothing, or white space. -/
def EndsPair (isSpace : Char → Bool) (rest : List Char) : Prop :=
  ∀ c, rest.head? = some c → isSpace c = true

theorem readBare_word {word rest : List Char} (hword : ∀ c ∈ word, isSpace c = false ∧ c ≠ '\\')
    (hrest : EndsPair isSpace rest) : readBare isSpace (word ++ rest) = (word, rest) := by
  induction word with
  | nil =>
    cases rest with
    | nil => rfl
    | cons c rest =>
      have hc : isSpace c = true := hrest c rfl
      have hslash : c ≠ '\\' := by
        rintro rfl
        rw [hspace.visible '\\' (by decide)] at hc
        cases hc
      rw [List.nil_append, readBare.eq_4, if_pos hc]
      · intro h _
        exact hslash h
      · intro _ _ h _
        exact hslash h
  | cons c word ih =>
    obtain ⟨hc, hword⟩ := List.forall_mem_cons.mp hword
    rw [List.cons_append, readBare.eq_4, hc.1, ih hword]
    · rfl
    · intro h _
      exact hc.2 h
    · intro _ _ h _
      exact hc.2 h

/-- A part of a text that is read as a pair, whatever pair comes behind it. -/
structure Spells (isSpace : Char → Bool) (part : List Char) (pair : String × String) : Prop where
  start : ∃ c rest, part = c :: rest ∧ isSpace c = false
  reads : ∀ rest, EndsPair isSpace rest → readPair isSpace (part ++ rest) = some (pair, rest)

theorem readPair_key {key : List Char} (hkey : IsWord key) (c : Char) (rest : List Char)
    (hc : '!' ≤ c ∧ c ≤ '~') :
    readPair isSpace (key ++ '=' :: c :: rest) =
      (readValue isSpace (c :: rest)).map fun (value, rest) =>
        ((String.ofList key, String.ofList value), rest) := by
  have hspan : (key ++ '=' :: c :: rest).span (fun c => !isSpace c && c != '=') =
      (key, '=' :: c :: rest) := by
    have hpass : ∀ d ∈ key, (!isSpace d && d != '=') = true := by
      intro d hd
      simp [hspace.visible_word hkey hd, (hkey.2 d hd).2.1]
    rw [List.span_eq_takeWhile_dropWhile, List.takeWhile_append_of_pos hpass,
      List.dropWhile_append_of_pos hpass]
    simp
  rw [readPair, hspan]
  simp only
  rw [hspace.dropWhile_cons (by decide)]
  simp only
  rw [hspace.dropWhile_cons hc]

theorem spells_quoted {key : List Char} (hkey : IsWord key) (value : String) :
    Spells isSpace (key ++ '=' :: (Config.quoteValue value).toList) (String.ofList key, value) where
  start := by
    obtain ⟨c, rest, rfl⟩ := List.exists_cons_of_ne_nil hkey.1
    exact ⟨c, _, rfl, hspace.visible_word hkey List.mem_cons_self⟩
  reads rest hrest := by
    rw [toList_quoteValue, List.append_assoc, List.cons_append, List.cons_append, List.append_assoc,
      List.singleton_append, readPair_key hspace hkey _ _ (by decide), readValue, readQuoted_escaped,
      Option.map_some]
    simp only [String.ofList_toList]

theorem spells_word {key value : List Char} (hkey : IsWord key) (hvalue : IsWord value) :
    Spells isSpace (key ++ '=' :: value) (String.ofList key, String.ofList value) where
  start := by
    obtain ⟨c, rest, rfl⟩ := List.exists_cons_of_ne_nil hkey.1
    exact ⟨c, _, rfl, hspace.visible_word hkey List.mem_cons_self⟩
  reads rest hrest := by
    have hread : readBare isSpace (value ++ rest) = (value, rest) :=
      readBare_word hspace (fun c hc => ⟨hspace.visible_word hvalue hc, (hvalue.2 c hc).2.2.2⟩) hrest
    obtain ⟨c, more, rfl⟩ := List.exists_cons_of_ne_nil hvalue.1
    obtain ⟨hc, -, hquote, -⟩ := hvalue.2 c List.mem_cons_self
    rw [List.append_assoc, List.cons_append, List.cons_append, readPair_key hspace hkey _ _ hc,
      readValue.eq_2, ← List.cons_append, hread]
    · rfl
    · intro _ h
      exact hquote (List.cons.inj h).1

theorem readPairs_blank (fuel : Nat) (text : List Char) :
    readPairs isSpace fuel (' ' :: text) = readPairs isSpace fuel text := by
  cases fuel with
  | zero => rfl
  | succ fuel =>
    have hskip : (' ' :: text).dropWhile isSpace = text.dropWhile isSpace :=
      List.dropWhile_cons_of_pos hspace.blank
    rw [readPairs, readPairs, hskip]

/-- Parts, each behind a blank, are read one after the other. -/
theorem readPairs_parts {parts : List (List Char)} {pairs : List (String × String)}
    (h : List.Forall₂ (Spells isSpace) parts pairs) {fuel : Nat} (hfuel : parts.length < fuel) :
    readPairs isSpace fuel (parts.flatMap (' ' :: ·)) = some pairs := by
  induction h generalizing fuel with
  | nil =>
    obtain ⟨fuel, rfl⟩ := Nat.exists_eq_succ_of_ne_zero (Nat.ne_zero_of_lt hfuel)
    rfl
  | @cons part pair parts pairs hpart hparts ih =>
    obtain ⟨fuel, rfl⟩ := Nat.exists_eq_succ_of_ne_zero (Nat.ne_zero_of_lt hfuel)
    obtain ⟨c, first, rfl, hc⟩ := hpart.start
    have hends : EndsPair isSpace (parts.flatMap (' ' :: ·)) := by
      intro d hd
      cases parts with
      | nil => cases hd
      | cons next parts =>
        cases hd
        exact hspace.blank
    have hread := hpart.reads _ hends
    have hstart : (c :: (first ++ parts.flatMap (' ' :: ·))).dropWhile isSpace =
        c :: (first ++ parts.flatMap (' ' :: ·)) := by
      rw [List.dropWhile_cons_of_neg]
      rw [hc]
      exact Bool.false_ne_true
    rw [List.cons_append] at hread
    rw [List.flatMap_cons, List.cons_append, readPairs_blank hspace, List.cons_append, readPairs,
      hstart]
    simp only
    rw [hread, Option.bind_some, ih (by simpa using hfuel)]
    rfl

/-- Parts with blanks between them are read as their pairs, to the end of the text. -/
theorem read?_intercalate {parts : List String} {pairs : List (String × String)}
    (h : List.Forall₂ (Spells isSpace) (parts.map String.toList) pairs) :
    read? isSpace (" ".intercalate parts) = some pairs := by
  rw [read?, String.toList_intercalate]
  generalize parts.map String.toList = parts at h
  have hblank : [' '] = " ".toList := rfl
  rw [← hblank]
  cases h with
  | nil => rfl
  | @cons part pair parts pairs hpart hparts =>
    obtain ⟨c, first, rfl, hc⟩ := hpart.start
    -- with a blank before the first part, all parts come behind one
    rw [Text.intercalate_cons_eq, ← readPairs_blank hspace]
    refine readPairs_parts hspace (.cons hpart hparts) ?_
    have hcount := length_le_flatMap parts
    simp only [List.length_cons, List.length_append]
    omega

end Reading

end Pairs

namespace Config

variable {isSpace : Char → Bool}

/-- What a client is told about an address: first what is always there, then what is given, and at
the end how to connect. The password is the one that is set, or that of the address, or that of the
environment. -/
def parameters (c : Config) (environment : Option String) (u : Url) : List (String × String) :=
  [("host", u.primary.name), ("port", String.ofList (Text.digits u.primary.port.toNat))] ++
    (u.database.map ("dbname", ·)).toList ++ (u.username.map ("user", ·)).toList ++
    (((Url.nonEmpty c.password).or (u.password.or environment)).map ("password", ·)).toList ++
    ((u.options.lookup "application_name").map ("application_name", ·)).toList ++
    [("sslmode", clientSslMode u.sslMode),
      ("connect_timeout", String.ofList (Text.digits c.connectTimeout.toNat))]

theorem effectivePassword_eq (c : Config) (environment : Option String) {u : Url}
    (h : u.backend = .postgres) : c.effectivePassword environment u =
      (Url.nonEmpty c.password).or (u.password.or environment) := by
  rw [effectivePassword, Url.nonEmpty]
  cases hempty : c.password.isEmpty with
  | false => rfl
  | true =>
    cases u.password with
    | some p => rfl
    | none => exact if_pos h

theorem isWord_clientSslMode (mode : SslMode) : Pairs.IsWord (clientSslMode mode).toList := by
  cases mode <;> decide

theorem toList_pair (key value : String) :
    (pair key value).toList = key.toList ++ '=' :: value.toList := by
  rw [pair, String.toList_append, String.toList_append, List.append_assoc]
  rfl

theorem spells_quotedPair (hspace : Pairs.IsSpacing isSpace) {key : String}
    (hkey : Pairs.IsWord key.toList) (value : Option String) :
    List.Forall₂ (Pairs.Spells isSpace) ((quotedPair key value).map String.toList)
      (value.map (key, ·)).toList := by
  cases value with
  | none => exact .nil
  | some value =>
    have hspells := Pairs.spells_quoted hspace hkey value
    rw [String.ofList_toList, ← toList_pair] at hspells
    exact .cons hspells .nil

theorem spells_wordPair (hspace : Pairs.IsSpacing isSpace) {key value : String}
    (hkey : Pairs.IsWord key.toList) (hvalue : Pairs.IsWord value.toList) :
    Pairs.Spells isSpace (pair key value).toList (key, value) := by
  have hspells := Pairs.spells_word hspace hkey hvalue
  rwa [String.ofList_toList, String.ofList_toList, ← toList_pair] at hspells

/-- The text that a client is opened with is there for every address of a PostgreSQL server, and is
read as the parameters in their order, to its end. No text in them can add a pair or change
another. -/
theorem connectionString_read (hspace : Pairs.IsSpacing isSpace) {c : Config} {u : Url}
    (hurl : c.parsedUrl = .ok u) (hbackend : u.backend = .postgres) (environment : Option String) :
    ∃ text, c.connectionString environment = .ok text ∧
      Pairs.read? isSpace text = some (c.parameters environment u) := by
  have hnumber (key : String) (hkey : Pairs.IsWord key.toList) (n : Nat) :
      Pairs.Spells isSpace (pair key (String.ofList (Text.digits n))).toList
        (key, String.ofList (Text.digits n)) :=
    spells_wordPair hspace hkey (by rw [String.toList_ofList]; exact Pairs.isWord_digits n)
  have hquoted (key : String) (hkey : Pairs.IsWord key.toList) (value : Option String) :=
    spells_quotedPair hspace hkey value
  rw [connectionString, hurl]
  simp only [bind, Except.bind, if_pos hbackend]
  refine ⟨_, rfl, Pairs.read?_intercalate hspace ?_⟩
  rw [parameters, ← effectivePassword_eq c environment hbackend]
  simp only [List.map_append, List.append_assoc]
  have hhost := hquoted "host" (by decide) (some u.primary.name)
  have hport := hnumber "port" (by decide) u.primary.port.toNat
  have hword : Pairs.IsWord "sslmode".toList := by decide
  have hmode := spells_wordPair hspace hword (isWord_clientSslMode u.sslMode)
  have htimeout := hnumber "connect_timeout" (by decide) c.connectTimeout.toNat
  refine List.rel_append (List.rel_append hhost (.cons hport .nil)) ?_
  refine List.rel_append (hquoted "dbname" (by decide) u.database) ?_
  refine List.rel_append (hquoted "user" (by decide) u.username) ?_
  refine List.rel_append (hquoted "password" (by decide) (c.effectivePassword environment u)) ?_
  refine List.rel_append (hquoted "application_name" (by decide) (u.options.lookup "application_name")) ?_
  exact .cons hmode (.cons htimeout .nil)

theorem isSpacing_isBlank : Pairs.IsSpacing Text.isBlank where
  blank := by decide
  visible := by
    intro c ⟨hlow, hhigh⟩
    have hlow' : 33 ≤ c.toNat := hlow
    have hhigh' : c.toNat ≤ 126 := hhigh
    simp only [Text.isBlank, Bool.or_eq_false_iff, Bool.and_eq_false_iff, decide_eq_false_iff_not,
      beq_eq_false_iff_ne]
    omega

/-- Quotes, blanks, equals signs and backslashes in the database, the user and the password, and an
application that ends in a backslash. -/
def tangled : Config where
  url := "postgres://o%27neil%5c:p@db:5433/a' b?sslmode=verify-full&application_name=x%5c"
  password := "' sslmode=disable \\'"
  connectTimeout := 5

def tangledUrl : Url where
  backend := .postgres
  primary := ⟨"db", 5433⟩
  username := some "o'neil\\"
  password := some "p"
  database := some "a' b"
  sslMode := .verifyFull
  options := [("application_name", "x\\")]

theorem connectionString_read_tangled :
    tangled.parsedUrl = .ok tangledUrl ∧ tangledUrl.backend = .postgres ∧
      ∃ text, tangled.connectionString none = .ok text ∧
        Pairs.read? Text.isBlank text =
          some [("host", "db"), ("port", "5433"), ("dbname", "a' b"), ("user", "o'neil\\"),
            ("password", "' sslmode=disable \\'"), ("application_name", "x\\"),
            ("sslmode", "require"), ("connect_timeout", "5")] := by
  have hurl : tangled.parsedUrl = .ok tangledUrl := by decide +kernel
  have hparameters : tangled.parameters none tangledUrl =
      [("host", "db"), ("port", "5433"), ("dbname", "a' b"), ("user", "o'neil\\"),
        ("password", "' sslmode=disable \\'"), ("application_name", "x\\"),
        ("sslmode", "require"), ("connect_timeout", "5")] := by decide +kernel
  rw [← hparameters]
  exact ⟨hurl, rfl, connectionString_read isSpacing_isBlank hurl rfl none⟩

end Config

end Polystore.Connection
