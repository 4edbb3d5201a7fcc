import Polystore.Json.Basic

/-!
Numbers in JSON text. A number without fraction and exponent that fits 64 bits is an integer. Any
other number is a float, made from its first digits, as many as fit 64 bits, and a power of ten by
one multiplication or division; it is refused if it is too large.
-/

namespace Polystore.Json

open Polystore.Number (Binary64 BinaryFormat)
open Polystore.Text

/-- Appends digits to a number as long as it stays below `2 ^ 64`; the second part is what is left. -/
def accumulate : Nat → List Char → Nat × List Char
  | n, [] => (n, [])
  | n, c :: rest =>
    if 10 * n + digitValue c < 2 ^ 64 then accumulate (10 * n + digitValue c) rest
    else (n, c :: rest)

/-- Multiplies by a power of ten, or divides by one. A power out of the range of floats is divided
out in two or more steps; a float that gets too large is refused. -/
def scale : Nat → Binary64 → Int → Option Binary64
  | 0, x, _ => some x
  | fuel + 1, x, exponent =>
    if exponent.natAbs ≤ 308 then
      let power := Binary64.ofRatio false (10 ^ exponent.natAbs) 1
      if 0 ≤ exponent then
        let product := x.mul power
        if product.isInfinite then none else some product
      else some (x.div power)
    else if x.isZero then some x
    else if 0 ≤ exponent then none
    else scale fuel (x.div (Binary64.ofRatio false (10 ^ 308) 1)) (exponent + 308)

/-- The float for a significand below `2 ^ 64` and a power of ten. -/
def floatOf (negative : Bool) (significand : Nat) (exponent : Int) : Option Json :=
  (scale 5 (Binary64.ofRatio false significand 1) exponent).map fun x =>
    .float (if negative then x.neg else x)

/-- Reads the power of ten after its mark. A power too long to be counted makes zero, or is refused. -/
def readExponent (negative : Bool) (significand : Nat) (start : Int) (text : List Char) :
    Option (Json × List Char) := do
  let (down, text) :=
    match text with
    | '+' :: rest => (false, rest)
    | '-' :: rest => (true, rest)
    | _ => (false, text)
  let (row, rest) := spanDigits text
  if row.isEmpty then none
  else
    let power := ofDigits row
    if 2 ^ 31 ≤ power then
      if significand != 0 && !down then none
      else some (.float (Binary64.ofMagnitude negative 0), rest)
    else
      let json ← floatOf negative significand (if down then start - power else start + power)
      pure (json, rest)

/-- Reads an exponent, if there is one, and makes the float. -/
def readTail (negative : Bool) (significand : Nat) (exponent : Int) :
    List Char → Option (Json × List Char)
  | 'e' :: rest | 'E' :: rest => readExponent negative significand exponent rest
  | rest => (floatOf negative significand exponent).map fun json => (json, rest)

/-- Reads the digits after a point; there has to be one. -/
def readFraction (negative : Bool) (significand : Nat) (exponent : Int) (text : List Char) :
    Option (Json × List Char) :=
  let (row, rest) := spanDigits text
  if row.isEmpty then none
  else
    let (significand, dropped) := accumulate significand row
    readTail negative significand (exponent - (row.length - dropped.length : Nat)) rest

/-- The document for a whole number. Minus zero is a float. -/
def wholeNumber (negative : Bool) (n : Nat) : Json :=
  if !negative then .integer n
  else if 0 < n ∧ n ≤ 2 ^ 63 then .integer (-(n : Int))
  else .float (Binary64.ofRatio true n 1)

def readNumber (negative : Bool) (text : List Char) : Option (Json × List Char) :=
  let (row, rest) := spanDigits text
  if row.isEmpty || (row.head? == some '0' && 1 < row.length) then none
  else
    let (n, dropped) := accumulate 0 row
    match rest with
    | '.' :: behind => readFraction negative n dropped.length behind
    | _ =>
      if dropped.isEmpty && rest.head? != some 'e' && rest.head? != some 'E' then
        some (wholeNumber negative n, rest)
      else readTail negative n dropped.length rest

end Polystore.Json
