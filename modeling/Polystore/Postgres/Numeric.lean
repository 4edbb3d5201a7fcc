import Polystore.Number.DecimalText
import Polystore.Text.Digits

/-!
Exact numbers as the server keeps them: digits to base 10000, the weight of the first one, a sign
word and a number of places. An image is written without zero digits at either end; it is read by
writing out its decimal text.
-/

namespace Polystore.Postgres

open Polystore.Number (Decimal)

/-- An image. Digits are signed words here, because that is how they arrive. -/
structure Numeric where
  digits : List Int
  weight : Int
  sign : Nat
  places : Nat
deriving DecidableEq, Repr

namespace Numeric

def positive : Nat := 0x0000

def negative : Nat := 0x4000

def notANumber : Nat := 0xC000

def positiveInfinity : Nat := 0xD000

def negativeInfinity : Nat := 0xF000

/-- The digits to base 10000 that a row of decimal digits spells, four characters to a digit. -/
def groups : List Char → List Int
  | a :: b :: c :: d :: rest => (Text.ofDigits [a, b, c, d] : Int) :: groups rest
  | [] => []
  | row => [(Text.ofDigits row : Int)]

/-- Zeros that fill a row up to whole groups of four. -/
def filling (row : List Char) : List Char :=
  List.replicate ((4 - row.length % 4) % 4) '0'

def fillLeft (row : List Char) : List Char :=
  filling row ++ row

def fillRight (row : List Char) : List Char :=
  row ++ filling row

/-- Drops zero digits at the front and keeps count in the weight. -/
def dropLeading : Int → List Int → Int × List Int
  | weight, [] => (weight, [])
  | weight, d :: rest => if d = 0 then dropLeading (weight - 1) rest else (weight, d :: rest)

def dropTrailing (digits : List Int) : List Int :=
  (digits.reverse.dropWhile (· == 0)).reverse

/-- The digits of a decimal before its point, at least one of them, filled up to whole groups. -/
def wholeRow (d : Decimal) : List Char :=
  let row := Text.paddedDigits (d.scale + 1) d.mantissa
  fillLeft (row.take (row.length - d.scale))

/-- The digits after the point, filled up on the other side. -/
def fractionRow (d : Decimal) : List Char :=
  let row := Text.paddedDigits (d.scale + 1) d.mantissa
  fillRight (row.drop (row.length - d.scale))

/-- The digits to base 10000 from the first to the last that is not zero, after the weight of the
first one. -/
def significant (d : Decimal) : Int × List Int :=
  let (weight, digits) := dropLeading (((wholeRow d).length / 4 : Nat) - 1)
    (groups (wholeRow d) ++ groups (fractionRow d))
  (weight, dropTrailing digits)

/-- The image of a decimal. -/
def ofDecimal (d : Decimal) : Numeric :=
  let (weight, digits) := significant d
  if digits.isEmpty then ⟨[], 0, positive, d.scale⟩
  else ⟨digits, weight, if d.negative then negative else positive, d.scale⟩

/-- An image without digits, for what is no number. -/
def special (sign : Nat) : Numeric :=
  ⟨[], 0, sign, 0⟩

/-- The digit that weighs ten thousand to a power; zero outside the digits that are there. -/
def digitAt (n : Numeric) (power : Int) : Int :=
  if 0 ≤ n.weight - power then n.digits.getD (n.weight - power).toNat 0 else 0

/-- A digit in at least four characters, a minus sign included. -/
def digitText (d : Int) : List Char :=
  if d < 0 then '-' :: Text.paddedDigits 3 d.natAbs else Text.paddedDigits 4 d.natAbs

/-- The digits from a power down, so many of them. -/
def digitTexts (n : Numeric) : Nat → Int → List Char
  | 0, _ => []
  | count + 1, power => digitText (n.digitAt power) ++ digitTexts n count (power - 1)

/-- The digits before the point; the first one is not filled up. -/
def wholeText (n : Numeric) : List Char :=
  if n.weight < 0 then ['0']
  else Text.integer (n.digitAt n.weight) ++ n.digitTexts n.weight.toNat (n.weight - 1)

/-- The digits after the point, cut at the last place. -/
def fractionText (n : Numeric) : List Char :=
  (n.digitTexts ((n.places + 3) / 4) (-1)).take n.places

def text (n : Numeric) : List Char :=
  (if n.sign = negative then ['-'] else []) ++ n.wholeText ++
    if n.places = 0 then [] else '.' :: n.fractionText

end Numeric

end Polystore.Postgres
