import Polystore.Text.Hex
import Polystore.Text.Shown

/-!
Quoted text for messages: double quotes around the text, a backslash before the quote or a backslash,
short escapes for the common controls, and the code point in braces for any other character that
does not stand for itself.
-/

namespace Polystore.Text.Quoted

def escape (mark c : Char) : List Char :=
  if c = '\x00' then ['\\', '0']
  else if c = '\t' then ['\\', 't']
  else if c = '\r' then ['\\', 'r']
  else if c = '\n' then ['\\', 'n']
  else if c = '\\' then ['\\', '\\']
  else if c = mark then ['\\', mark]
  else if Shown.isShown c then [c]
  else ['\\', 'u', '\x7b'] ++ Hex.ofNat c.toNat ++ ['\x7d']

def quote (text : String) : String :=
  String.ofList ('"' :: text.toList.flatMap (escape '"') ++ ['"'])

/-- The quoted form of a single character, between single quotes. -/
def quoteChar (c : Char) : String :=
  String.ofList ('\'' :: escape '\'' c ++ ['\''])

end Polystore.Text.Quoted
