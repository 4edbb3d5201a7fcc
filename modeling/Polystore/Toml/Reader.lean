import Polystore.Calendar.Date
import Polystore.Number.Shortest
import Polystore.Toml.Basic

/-!
Reading keys and values of the TOML format.
-/

namespace Polystore.Toml

open Polystore.Calendar (monthLength)
open Polystore.Number (Binary64)

def isSpace (c : Char) : Bool :=
  c = ' ' || c = '\t'

def skipSpaces (text : List Char) : List Char :=
  text.dropWhile isSpace

/-- Characters that a comment or a quoted text can hold. -/
def isAllowed (c : Char) : Bool :=
  c = '\t' || (0x20 ≤ c.toNat && c.toNat != 0x7F)

def skipComment (text : List Char) : List Char :=
  match text with
  | '#' :: rest => rest.dropWhile isAllowed
  | _ => text

def readNewline : List Char → Option (List Char)
  | '\n' :: rest => some rest
  | '\r' :: '\n' :: rest => some rest
  | _ => none

/-- Skips spaces, comments and line ends; the fuel bounds the number of lines. -/
def skipBlank : Nat → List Char → List Char
  | 0, text => text
  | fuel + 1, text =>
    let rest := skipComment (skipSpaces text)
    match readNewline rest with
    | some more => skipBlank fuel more
    | none => rest

def skipLines (text : List Char) : List Char :=
  skipBlank text.length text

def readCode (count : Nat) (text : List Char) : Option (Char × List Char) := do
  let digits := text.take count
  if digits.length < count then none
  else
    let values ← digits.mapM Text.Hex.value?
    let n := values.foldl (fun n d => 16 * n + d) 0
    if n.isValidChar then pure (Char.ofNat n, text.drop count) else none

def readEscape : List Char → Option (Char × List Char)
  | 'b' :: rest => some ('\x08', rest)
  | 't' :: rest => some ('\t', rest)
  | 'n' :: rest => some ('\n', rest)
  | 'f' :: rest => some ('\x0c', rest)
  | 'r' :: rest => some ('\r', rest)
  | '"' :: rest => some ('"', rest)
  | '\\' :: rest => some ('\\', rest)
  | 'u' :: rest => readCode 4 rest
  | 'U' :: rest => readCode 8 rest
  | _ => none

/-- The rest of a text in double quotes on one line. -/
def readBasic : Nat → List Char → List Char → Option (String × List Char)
  | 0, _, _ => none
  | _ + 1, made, '"' :: rest => some (String.ofList made.reverse, rest)
  | fuel + 1, made, '\\' :: rest => do
    let (c, rest) ← readEscape rest
    readBasic fuel (c :: made) rest
  | fuel + 1, made, c :: rest => if isAllowed c then readBasic fuel (c :: made) rest else none
  | _ + 1, _, [] => none

/-- The rest of a text in single quotes on one line. -/
def readLiteral (text : List Char) : Option (String × List Char) :=
  match text.span (· != '\'') with
  | (inner, '\'' :: rest) => if inner.all isAllowed then some (String.ofList inner, rest) else none
  | _ => none

/-- Up to two quotes before the closing three belong to a text over several lines. -/
def closeLong (mark : Char) (made : List Char) (text : List Char) :
    Option (String × List Char) :=
  let row := (text.takeWhile (· == mark)).length
  if 3 ≤ row && row ≤ 5 then
    some (String.ofList (made.reverse ++ List.replicate (row - 3) mark), text.drop row)
  else none

/-- Skips the white space after a backslash at the end of a line. -/
def skipFold (text : List Char) : Option (List Char) :=
  (readNewline (skipSpaces text)).map fun rest =>
    rest.dropWhile fun c => isSpace c || c = '\n' || c = '\r'

/-- The rest of a text over several lines; escapes count only between double quotes. -/
def readLong (mark : Char) : Nat → List Char → List Char → Option (String × List Char)
  | 0, _, _ => none
  | fuel + 1, made, text =>
    if [mark, mark, mark].isPrefixOf text then closeLong mark made text
    else
      match text with
      | [] => none
      | '\r' :: '\n' :: rest => readLong mark fuel ('\n' :: made) rest
      | '\n' :: rest => readLong mark fuel ('\n' :: made) rest
      | c :: rest =>
        if c = '\\' && mark = '"' then
          match skipFold rest with
          | some rest => readLong mark fuel made rest
          | none =>
            match readEscape rest with
            | some (e, rest) => readLong mark fuel (e :: made) rest
            | none => none
        else if isAllowed c then readLong mark fuel (c :: made) rest
        else none

/-- A line end right after the opening quotes is no part of the text. -/
def readLongText (mark : Char) (text : List Char) : Option (String × List Char) :=
  readLong mark (text.length + 1) [] ((readNewline text).getD text)

def readText (text : List Char) : Option (String × List Char) :=
  match text with
  | '"' :: '"' :: '"' :: rest => readLongText '"' rest
  | '\'' :: '\'' :: '\'' :: rest => readLongText '\'' rest
  | '"' :: rest => readBasic (rest.length + 1) [] rest
  | '\'' :: rest => readLiteral rest
  | _ => none

def isBare (c : Char) : Bool :=
  c.isAlphanum || c = '_' || c = '-'

def readPart (text : List Char) : Option (String × List Char) :=
  match text with
  | '"' :: rest => readBasic (rest.length + 1) [] rest
  | '\'' :: rest => readLiteral rest
  | _ =>
    let (name, rest) := text.span isBare
    if name.isEmpty then none else some (String.ofList name, rest)

/-- The parts of a key, with dots between them; the fuel bounds their number. -/
def readParts : Nat → List Char → Option (List String × List Char)
  | 0, _ => none
  | fuel + 1, text => do
    let (part, rest) ← readPart (skipSpaces text)
    match skipSpaces rest with
    | '.' :: rest => do
      let (parts, rest) ← readParts fuel rest
      pure (part :: parts, rest)
    | rest => pure ([part], rest)

/-- Values and keys are nested less deep than this. -/
def depthLimit : Nat := 80

def readKey (text : List Char) : Option (List String × List Char) := do
  let (parts, rest) ← readParts (text.length + 1) text
  if parts.length < depthLimit then pure (parts, rest) else none

/-- Digits with single underscores between them. -/
def readGrouped (isDigit : Char → Bool) (text : List Char) : Option (List Char) :=
  let digits := text.filter (· != '_')
  let between := (text.zip (text.drop 1)).all fun (a, b) => a != '_' || b != '_'
  if digits.isEmpty || !digits.all isDigit || !between || text.head? = some '_' ||
    text.getLast? = some '_' then none
  else some digits

def fits (i : Int) : Option Toml :=
  if -(2 ^ 63) ≤ i ∧ i < 2 ^ 63 then some (.integer i) else none

def ofBase (base : Nat) (digits : List Char) : Int :=
  digits.foldl (fun n c => (base : Int) * n + ((Text.Hex.value? c).getD 0 : Nat)) 0

def isBelow (base : Nat) (c : Char) : Bool :=
  (Text.Hex.value? c).any (· < base)

def cutSign : List Char → Bool × List Char
  | '-' :: rest => (true, rest)
  | '+' :: rest => (false, rest)
  | text => (false, text)

/-- A whole number: decimal with a sign, or in base sixteen, eight or two. -/
def readInteger (word : List Char) : Option Toml := do
  match word with
  | '0' :: 'x' :: rest => fits (ofBase 16 (← readGrouped (isBelow 16) rest))
  | '0' :: 'o' :: rest => fits (ofBase 8 (← readGrouped (isBelow 8) rest))
  | '0' :: 'b' :: rest => fits (ofBase 2 (← readGrouped (isBelow 2) rest))
  | word =>
    let (negative, rest) := cutSign word
    let digits ← readGrouped Text.isDigit rest
    if 1 < digits.length && digits.head? = some '0' then none
    else
      let n : Int := Text.ofDigits digits
      fits (if negative then -n else n)

/-- The parts of a fractional number after its sign are well formed. -/
def isFloat (text : List Char) : Bool :=
  let (mantissa, exponent) := text.span fun c => c != 'e' && c != 'E'
  let (whole, fraction) := mantissa.span (· != '.')
  let wholeOk := (readGrouped Text.isDigit whole).any fun digits =>
    digits.length = 1 || digits.head? != some '0'
  let fractionOk := fraction.isEmpty || (readGrouped Text.isDigit (fraction.drop 1)).isSome
  let exponentOk := exponent.isEmpty ||
    (readGrouped Text.isDigit (cutSign (exponent.drop 1)).2).isSome
  wholeOk && fractionOk && exponentOk && !(fraction.isEmpty && exponent.isEmpty)

def readFloat (word : List Char) : Option Toml :=
  let (negative, rest) := cutSign word
  if rest = ['i', 'n', 'f'] then
    some (.float (if negative then Binary64.negInfinity else Binary64.infinity))
  else if rest = ['n', 'a', 'n'] then some (.float .nan)
  else if isFloat rest then
    ((Binary64.read? (word.filter (· != '_'))).filter Binary64.isFinite).map .float
  else none

/-- Two digits, within bounds. -/
def readPair (low high : Nat) : List Char → Option (List Char)
  | a :: b :: rest =>
    let n := Text.ofDigits [a, b]
    if Text.isDigit a && Text.isDigit b && low ≤ n && n ≤ high then some rest else none
  | _ => none

def expect (c : Char) : List Char → Option (List Char)
  | [] => none
  | d :: rest => if d = c then some rest else none

def skipDate (text : List Char) : Option (List Char) := do
  let year := text.take 4
  let month := (text.drop 5).take 2
  if year.length = 4 && year.all Text.isDigit then
    let rest ← readPair 1 12 (← expect '-' (text.drop 4))
    readPair 1 (monthLength (Text.ofDigits year) (Text.ofDigits month)) (← expect '-' rest)
  else none

def skipTime (text : List Char) : Option (List Char) := do
  let rest ← readPair 0 23 text
  let rest ← readPair 0 59 (← expect ':' rest)
  let rest ← readPair 0 60 (← expect ':' rest)
  match rest with
  | '.' :: more =>
    let (digits, rest) := Text.spanDigits more
    if digits.isEmpty then none else some rest
  | rest => some rest

def skipOffset (text : List Char) : Option (List Char) := do
  match text with
  | 'Z' :: rest | 'z' :: rest => some rest
  | '+' :: rest | '-' :: rest =>
    let rest ← readPair 0 23 rest
    readPair 0 59 (← expect ':' rest)
  | _ => none

/-- A date, a time of day or both; an offset only with both. -/
def readStamp (text : List Char) : Option (List Char) :=
  match skipDate text with
  | none => skipTime text
  | some rest =>
    match rest with
    | c :: more =>
      if c = 'T' || c = 't' || c = ' ' then
        match skipTime more with
        | some after => some ((skipOffset after).getD after)
        | none => if c = ' ' then some rest else none
      else some rest
    | [] => some []

def isWordChar (c : Char) : Bool :=
  c.isAlphanum || c = '_' || c = '+' || c = '-' || c = '.' || c = ':'

def readWord (text : List Char) : Option (Toml × List Char) := do
  match readStamp text with
  | some rest => if rest.head?.any isWordChar then none else pure (.stamp, rest)
  | none =>
    let (word, rest) := text.span isWordChar
    if word = "true".toList then pure (.boolean true, rest)
    else if word = "false".toList then pure (.boolean false, rest)
    else
      match readInteger word with
      | some v => pure (v, rest)
      | none => (readFloat word).map fun v => (v, rest)

/-- Changes what a path leads to. Dotted keys make the tables they need and cannot go through tables
that have a header; headers go through any table but those between braces, and through the last of
several. The change is told whether the table at the end was made by dotted keys. -/
def within (isDotted : Bool)
    (change : Bool → List (String × Toml) → Option (List (String × Toml))) :
    Bool → List String → List (String × Toml) → Option (List (String × Toml))
  | made, [], entries => change made entries
  | _, key :: path, entries =>
    let put (v : Toml) := entries.map fun (k, old) => if k = key then (k, v) else (k, old)
    match entries.lookup key with
    | none =>
      (within isDotted change isDotted path []).map fun inner =>
        entries ++ [(key, .table (if isDotted then .dotted else .implied) inner)]
    | some (.table origin inner) =>
      if origin = .braces || (isDotted && origin = .header) then none
      else
        (within isDotted change (origin = .dotted) path inner).map fun inner =>
          put (.table origin inner)
    | some (.tables items) =>
      match items.getLast? with
      | none => none
      | some last =>
        (within isDotted change false path last).map fun last =>
          put (.tables (items.dropLast ++ [last]))
    | some _ => none

/-- Puts a value under a key; a key is given a value once. -/
def assign (path : List String) (v : Toml) (entries : List (String × Toml)) :
    Option (List (String × Toml)) :=
  match path.getLast? with
  | none => none
  | some key =>
    let change (made : Bool) (inner : List (String × Toml)) : Option (List (String × Toml)) :=
      if made = path.dropLast.isEmpty || (inner.lookup key).isSome then none
      else some (inner ++ [(key, v)])
    within true change false path.dropLast entries

def readAssignment (reader : List Char → Option (Toml × List Char)) (text : List Char) :
    Option ((List String × Toml) × List Char) := do
  let (path, rest) ← readKey text
  let rest ← expect '=' (skipSpaces rest)
  let (v, rest) ← reader (skipSpaces rest)
  pure ((path, v), rest)

/-- The items of an array; a comma may follow the last. -/
def readItems (reader : List Char → Option (Toml × List Char)) :
    Nat → List Char → Option (List Toml × List Char)
  | 0, _ => none
  | fuel + 1, text =>
    match skipLines text with
    | ']' :: rest => some ([], rest)
    | start => do
      let (item, rest) ← reader start
      match skipLines rest with
      | ',' :: rest => do
        let (items, rest) ← readItems reader fuel rest
        pure (item :: items, rest)
      | ']' :: rest => pure ([item], rest)
      | _ => none

/-- The entries of a table between braces, on one line and with no comma at the end. -/
def readEntries (reader : List Char → Option (Toml × List Char)) :
    Nat → List (String × Toml) → List Char → Option (List (String × Toml) × List Char)
  | 0, _, _ => none
  | fuel + 1, made, text => do
    let ((path, v), rest) ← readAssignment reader text
    let made ← assign path v made
    match skipSpaces rest with
    | ',' :: rest => readEntries reader fuel made rest
    | '\x7d' :: rest => pure (made, rest)
    | _ => none

def readNested : Nat → List Char → Option (Toml × List Char)
  | 0, _ => none
  | depth + 1, text =>
    match text with
    | '"' :: _ | '\'' :: _ => (readText text).map fun (s, rest) => (.string s, rest)
    | '[' :: rest =>
      (readItems (readNested depth) (rest.length + 1) rest).map fun (items, rest) =>
        (.array items, rest)
    | '\x7b' :: rest =>
      match skipSpaces rest with
      | '\x7d' :: rest => some (.table .braces [], rest)
      | start =>
        (readEntries (readNested depth) (start.length + 1) [] start).map fun (entries, rest) =>
          (.table .braces entries, rest)
    | _ => readWord text

def readValue (text : List Char) : Option (Toml × List Char) :=
  readNested depthLimit text

end Polystore.Toml
