import Polystore.Number.Binary
import Polystore.Text.Digits
import Polystore.Text.Hex

/-!
Values of the TOML format, and how texts are written in it: plainly between double quotes if
nothing has to be escaped, else between single quotes, else over several lines, else with escapes.
-/

namespace Polystore

/-- How a table came to be, which decides what may still be added to it. -/
inductive Toml.Origin where
  /-- By a header of its own. -/
  | header
  /-- By the header of a table inside it. -/
  | implied
  /-- By a dotted key. -/
  | dotted
  /-- Between braces. -/
  | braces
deriving DecidableEq, Repr

inductive Toml where
  | string (s : String)
  | integer (i : Int)
  | float (x : Number.Binary64)
  | boolean (b : Bool)
  /-- A date, a time of day or both. -/
  | stamp
  | array (items : List Toml)
  | table (origin : Toml.Origin) (entries : List (String × Toml))
  /-- Tables under headers in double brackets. -/
  | tables (items : List (List (String × Toml)))

namespace Toml

/-- Characters that cannot stand for themselves. -/
def isControl (c : Char) : Bool :=
  (c.toNat < 0x20 && c != '\t' && c != '\n') || c.toNat = 0x7F

/-- The length of the longest row of a character. -/
def longestRow (mark : Char) : List Char → Nat
  | [] => 0
  | c :: rest =>
    max ((c :: rest).takeWhile (· == mark)).length (longestRow mark rest)

/-- A character other than a double quote, inside double quotes. -/
def escape (multiline : Bool) (c : Char) : List Char :=
  if c = '\x08' then ['\\', 'b']
  else if c = '\t' then ['\\', 't']
  else if c = '\n' then if multiline then ['\n'] else ['\\', 'n']
  else if c = '\x0c' then ['\\', 'f']
  else if c = '\r' then ['\\', 'r']
  else if c = '\\' then ['\\', '\\']
  else if c.toNat < 0x20 || c.toNat = 0x7F then
    ['\\', 'u'] ++ (Text.padLeft 4 '0' (Text.Hex.ofNat c.toNat)).map Char.toUpper
  else [c]

/-- A text inside double quotes. At most so many double quotes may stand together unescaped. -/
def escapeAll (multiline : Bool) (most : Nat) : Nat → List Char → List Char
  | _, [] => []
  | row, c :: rest =>
    if c = '"' then
      if row < most then '"' :: escapeAll multiline most (row + 1) rest
      else ['\\', '"'] ++ escapeAll multiline most 0 rest
    else escape multiline c ++ escapeAll multiline most 0 rest

def quote (text : List Char) : List Char :=
  let newline := text.contains '\n'
  let controls := text.any isControl
  let backslash := text.contains '\\'
  let doubles := longestRow '"' text
  let singles := longestRow '\'' text
  let start := if newline then ['\n'] else []
  let basic := '"' :: escapeAll false 0 0 text ++ ['"']
  let three (mark : Char) (inner : List Char) : List Char :=
    [mark, mark, mark] ++ start ++ inner ++ [mark, mark, mark]
  if !controls && !backslash && doubles = 0 && !newline then basic
  else if !controls && singles = 0 && !newline then '\'' :: text ++ ['\'']
  else if !controls && !backslash && doubles ≤ 2 then three '"' (escapeAll true 2 0 text)
  else if !controls && singles ≤ 2 then three '\'' text
  else if newline then three '"' (escapeAll true 2 0 text)
  else basic

end Toml

end Polystore
