/-!
Decimal digits: writing a natural number, padding it to a width, and reading digits back.
-/

namespace Polystore.Text

/-- The decimal digits of a number, without leading zeros; zero has one digit. -/
def digits (n : Nat) : List Char :=
  Nat.toDigits 10 n

/-- A text brought to a least length by repeating a character before it. -/
def padLeft (width : Nat) (c : Char) (text : List Char) : List Char :=
  List.replicate (width - text.length) c ++ text

/-- The digits of a number, with zeros before them up to a least width. -/
def paddedDigits (width n : Nat) : List Char :=
  padLeft width '0' (digits n)

/-- Is the character one of the ten decimal digits? -/
def isDigit (c : Char) : Bool :=
  '0' ≤ c && c ≤ '9'

def digitValue (c : Char) : Nat :=
  c.toNat - '0'.toNat

/-- The number that a row of decimal digits denotes. -/
def ofDigits (row : List Char) : Nat :=
  row.foldl (fun n c => 10 * n + digitValue c) 0

/-- A text of one or more decimal digits and nothing else, read as a number. -/
def readNat? (text : List Char) : Option Nat :=
  if text.isEmpty || !text.all isDigit then none else some (ofDigits text)

/-- An integer with an optional sign before its digits. -/
def readInt? : List Char → Option Int
  | '-' :: rest => (readNat? rest).map fun n => -(n : Int)
  | '+' :: rest => (readNat? rest).map Int.ofNat
  | text => (readNat? text).map Int.ofNat

/-- The digits of an integer, after a minus sign if it is negative. -/
def integer (i : Int) : List Char :=
  if i < 0 then '-' :: digits i.natAbs else digits i.natAbs

/-- Cuts a text where its leading row of decimal digits ends. -/
def spanDigits (text : List Char) : List Char × List Char :=
  text.span isDigit

theorem length_padLeft (width : Nat) (c : Char) (text : List Char) :
    (padLeft width c text).length = max width text.length := by
  simp [padLeft]
  omega

theorem ofDigits_append_singleton (row : List Char) (c : Char) :
    ofDigits (row ++ [c]) = 10 * ofDigits row + digitValue c := by
  simp [ofDigits, List.foldl_append]

end Polystore.Text
