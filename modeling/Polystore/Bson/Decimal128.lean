import Polystore.Bson.Basic
import Polystore.Number.Decimal
import Polystore.Text.Digits

/-!
Decimals as 128-bit words: a sign, an exponent of 14 bits and a coefficient of 113 bits. Words that
are no numbers, and words whose number a decimal cannot hold, are told apart. Text is read if a word
holds its number exactly.
-/

namespace Polystore.Decimal128

open Polystore.Number (Decimal)

/-- The exponent field of a word for a whole number. -/
def bias : Nat := 6176

def pack (negative : Bool) (exponent coefficient : Nat) : Decimal128 :=
  ⟨BitVec.ofNat 128 ((if negative then 2 ^ 127 else 0) + exponent * 2 ^ 113 + coefficient)⟩

/-- The word with the value and the places of a decimal; a zero is not negative. -/
def ofDecimal (d : Decimal) : Decimal128 :=
  pack (d.negative && d.mantissa != 0) (bias - d.scale) d.mantissa

/-- What a word denotes. -/
inductive Reading where
  | notANumber
  | infinite (negative : Bool)
  | finite (negative : Bool) (coefficient : Nat) (exponent : Int)

/-- Words in the form for large coefficients are not in use and count as zero. -/
def read (w : Decimal128) : Reading :=
  let n := w.bits.toNat
  let negative := n / 2 ^ 127 = 1
  if n / 2 ^ 122 % 32 = 31 then .notANumber
  else if n / 2 ^ 122 % 32 = 30 then .infinite negative
  else if n / 2 ^ 125 % 4 = 3 then .finite negative 0 ((n / 2 ^ 111 % 2 ^ 14 : Nat) - bias)
  else .finite negative (n % 2 ^ 113) ((n / 2 ^ 113 % 2 ^ 14 : Nat) - bias)

/-- Divides by ten so many times, if that is exact. -/
def dropZeros : Nat → Nat → Option Nat
  | coefficient, 0 => some coefficient
  | coefficient, n + 1 => if coefficient % 10 = 0 then dropZeros (coefficient / 10) n else none

/-- The decimal equal to `± coefficient * 10 ^ exponent`, if there is one. Zeros past the last place
a decimal has are dropped; zero takes the nearest scale. -/
def toDecimal? (negative : Bool) (coefficient : Nat) (exponent : Int) : Option Decimal :=
  if coefficient = 0 then Decimal.ofParts? false 0 (min (-exponent).toNat 28)
  else if 0 < exponent then
    if 28 < exponent then none
    else Decimal.ofParts? negative (coefficient * 10 ^ exponent.toNat) 0
  else if exponent < -28 then
    (dropZeros coefficient (-28 - exponent).toNat).bind fun c => Decimal.ofParts? negative c 28
  else Decimal.ofParts? negative coefficient (-exponent).toNat

/-- The words that are no finite numbers, by their names. -/
def ofSpecialName? (negative : Bool) (name : String) : Option Decimal128 :=
  let sign := if negative then 2 ^ 127 else 0
  match name with
  | "nan" => some ⟨BitVec.ofNat 128 (sign + 31 * 2 ^ 122)⟩
  | "snan" => some ⟨BitVec.ofNat 128 (sign + 31 * 2 ^ 122 + 2 ^ 121)⟩
  | "inf" | "infinity" => some ⟨BitVec.ofNat 128 (sign + 30 * 2 ^ 122)⟩
  | _ => none

/-- The word for `± coefficient * 10 ^ exponent`, if it has one. A coefficient has at most 34 digits
and the exponent is from -6176 to 6111: zeros are dropped or put at the end of the coefficient to
get there, and the exponent of zero takes the nearest. -/
def ofScaled? (negative : Bool) (coefficient : Nat) (exponent : Int) : Option Decimal128 :=
  if coefficient = 0 then
    some (pack negative (max (-6176) (min 6111 exponent) + bias).toNat 0)
  else do
    let dropped := max ((Text.digits coefficient).length - 34) (-6176 - exponent).toNat
    let c ← dropZeros coefficient dropped
    let exponent := exponent + dropped
    let padding := (exponent - 6111).toNat
    if (Text.digits c).length + padding ≤ 34 then
      pure (pack negative (min 6111 exponent + bias).toNat (c * 10 ^ padding))
    else none

/-- A row of digits with at most one point: what the digits count, and how many stand behind it. -/
def readCoefficient (text : List Char) : Option (Nat × Nat) := do
  let whole := text.takeWhile (· != '.')
  let fraction := text.drop (whole.length + 1)
  let n ← Text.readNat? (whole ++ fraction)
  pure (n, fraction.length)

/-- The word for a number in text, with an optional sign and an optional power of ten after `e`, or
for the name of a word that is no finite number; letters may be of either case. -/
def ofText? (text : List Char) : Option Decimal128 := do
  let negative := text.head? = some '-'
  let body := if negative || text.head? = some '+' then text.drop 1 else text
  let body := body.map Char.toLower
  match ofSpecialName? negative (String.ofList body) with
  | some word => pure word
  | none =>
    let (coefficient, places) ← readCoefficient (body.takeWhile (· != 'e'))
    let power ←
      match body.dropWhile (· != 'e') with
      | [] => pure 0
      | _ :: power => Text.readInt? power
    if -32768 ≤ power ∧ power ≤ 32767 ∧ places ≤ 32767 ∧ -32768 ≤ power - places then
      ofScaled? negative coefficient (power - places)
    else none

end Polystore.Decimal128
