import Polystore.Bytes
import Polystore.Json.Number
import Polystore.Text.Hex

/-!
Reading JSON text. Arrays and objects may be nested 127 deep.
-/

namespace Polystore.Json

open Polystore.Text

/-- A text without the blanks it begins with; only four characters are blanks in JSON. -/
def skipBlanks (text : List Char) : List Char :=
  text.dropWhile fun c => c == ' ' || c == '\n' || c == '\t' || c == '\r'

def readUnit : List Char → Option (Nat × List Char)
  | a :: b :: c :: d :: rest => do
    let n := (← Hex.value? a) * 4096 + (← Hex.value? b) * 256 + (← Hex.value? c) * 16 + (← Hex.value? d)
    pure (n, rest)
  | _ => none

/-- A character given by its UTF-16 units; half of a pair alone is refused. -/
def readEscapedChar (text : List Char) : Option (Char × List Char) := do
  let (high, rest) ← readUnit text
  if 0xDC00 ≤ high ∧ high ≤ 0xDFFF then none
  else if 0xD800 ≤ high ∧ high ≤ 0xDBFF then
    match rest with
    | '\\' :: 'u' :: rest =>
      let (low, rest) ← readUnit rest
      if 0xDC00 ≤ low ∧ low ≤ 0xDFFF then
        pure (Char.ofNat (0x10000 + (high - 0xD800) * 0x400 + (low - 0xDC00)), rest)
      else none
    | _ => none
  else pure (Char.ofNat high, rest)

def readChar : List Char → Option (Char × List Char)
  | '\\' :: 'u' :: rest => readEscapedChar rest
  | '\\' :: c :: rest =>
    if c = '"' || c = '\\' || c = '/' then some (c, rest)
    else if c = 'b' then some ('\x08', rest)
    else if c = 'f' then some ('\x0c', rest)
    else if c = 'n' then some ('\n', rest)
    else if c = 'r' then some ('\r', rest)
    else if c = 't' then some ('\t', rest)
    else none
  | c :: rest => if c.toNat < 0x20 || c = '\\' then none else some (c, rest)
  | [] => none

/-- Reads up to the closing quote. The fuel bounds the number of characters. -/
def readQuoted : Nat → List Char → List Char → Option (String × List Char)
  | 0, _, _ => none
  | fuel + 1, read, text =>
    if text.head? = some '"' then some (String.ofList read.reverse, text.drop 1)
    else
      match readChar text with
      | some (c, rest) => readQuoted fuel (c :: read) rest
      | none => none

def readText (text : List Char) : Option (String × List Char) :=
  if text.head? = some '"' then readQuoted text.length [] (text.drop 1) else none

/-- Items up to the closing bracket, separated by commas. -/
def readItems {α : Type} (reader : List Char → Option (α × List Char)) (close : Char) :
    Nat → List Char → Option (List α × List Char)
  | 0, _ => none
  | fuel + 1, text => do
    let (item, rest) ← reader text
    match skipBlanks rest with
    | c :: rest =>
      if c = close then pure ([item], rest)
      else if c = ',' then
        let (items, rest) ← readItems reader close fuel rest
        pure (item :: items, rest)
      else none
    | [] => none

/-- A bracketed list after its opening bracket; it may be empty. -/
def readList {α : Type} (reader : List Char → Option (α × List Char)) (close : Char)
    (text : List Char) : Option (List α × List Char) :=
  let text := skipBlanks text
  if text.head? = some close then some ([], text.drop 1)
  else readItems reader close text.length text

/-- A member of an object: its name, a colon and its value. -/
def readMember (reader : List Char → Option (Json × List Char)) (text : List Char) :
    Option ((String × Json) × List Char) := do
  let (name, rest) ← readText (skipBlanks text)
  match skipBlanks rest with
  | ':' :: rest =>
    let (value, rest) ← reader rest
    pure ((name, value), rest)
  | _ => none

def readWord (word : String) (json : Json) (text : List Char) : Option (Json × List Char) :=
  if word.toList.isPrefixOf text then some (json, text.drop word.length) else none

/-- A document that is neither array nor object. -/
def readScalar : List Char → Option (Json × List Char)
  | [] => none
  | c :: rest =>
    if c = 'n' then readWord "null" .null (c :: rest)
    else if c = 't' then readWord "true" (.bool true) (c :: rest)
    else if c = 'f' then readWord "false" (.bool false) (c :: rest)
    else if c = '"' then (readText (c :: rest)).map fun (s, rest) => (.string s, rest)
    else if c = '-' then readNumber true rest
    else if isDigit c then readNumber false (c :: rest)
    else none

def readNested : Nat → List Char → Option (Json × List Char)
  | 0, text =>
    let text := skipBlanks text
    if text.head? = some '[' || text.head? = some '\x7b' then none else readScalar text
  | depth + 1, text =>
    match skipBlanks text with
    | '[' :: rest => do
      let (items, rest) ← readList (readNested depth) ']' rest
      pure (.array items, rest)
    | '\x7b' :: rest => do
      let (members, rest) ← readList (readMember (readNested depth)) '\x7d' rest
      pure (objectOf members, rest)
    | text => readScalar text

/-- Reads a text that holds one document and nothing else. -/
def read? (text : String) : Option Json :=
  match readNested 127 text.toList with
  | some (json, rest) => if (skipBlanks rest).isEmpty then some json else none
  | none => none

/-- Reads bytes that are the UTF-8 form of one document. -/
def ofBytes? (bytes : Bytes) : Option Json :=
  bytes.toText?.bind read?

end Polystore.Json
