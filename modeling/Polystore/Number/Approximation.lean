import Polystore.Number.Binary
import Polystore.Number.Decimal

/-!
The decimal that stands for a binary64 word: its leading fifteen to sixteen digits, with zeros at
the end of the fraction left out. A word `m * 2 ^ e` with a negative exponent is turned into
`mantissa * 10 ^ power` with a mantissa of 96 bits, one factor of two or five at a time.
-/

namespace Polystore.Number

/-- The number `mantissa * 10 ^ power` on its way to a decimal. -/
structure Partway where
  mantissa : Nat
  power : Int

namespace Partway

/-- Divides by two: an even mantissa is halved, an odd one multiplied by five against one place. A
mantissa with no room for that loses its last bit. -/
def half (p : Partway) : Partway :=
  if p.mantissa % 2 = 0 then ⟨p.mantissa / 2, p.power⟩
  else if 5 * p.mantissa < 2 ^ 96 then ⟨5 * p.mantissa, p.power - 1⟩
  else ⟨p.mantissa / 2, p.power⟩

def iterate (f : Partway → Partway) : Nat → Partway → Partway
  | 0, p => p
  | n + 1, p => iterate f n (f p)

/-- Divides by ten, rounding halves up, against one place. -/
def dropDigit (p : Partway) : Partway :=
  ⟨p.mantissa / 10 + if 5 ≤ p.mantissa % 10 then 1 else 0, p.power + 1⟩

/-- Places past the last one a decimal has are rounded off one by one; a mantissa that is used up
leaves zero. -/
def fitScale : Nat → Partway → Partway
  | 0, p => p
  | n + 1, p => if p.mantissa < 10 then ⟨0, 0⟩ else fitScale n p.dropDigit

/-- Digits past the precision of a word are rounded off as long as there are places. -/
def fitPrecision : Nat → Partway → Partway
  | 0, p => p
  | n + 1, p => if 2 ^ 52 ≤ p.mantissa then fitPrecision n p.dropDigit else p

end Partway

/-- The decimal for a finite word below `2 ^ 96`. Whole numbers are kept as they are. -/
def Decimal.ofBinary64? (x : Binary64) : Option Decimal :=
  if !x.isFinite then none
  else if x.isZero then ofParts? x.isNegative 0 0
  else
    let (m, e) := x.unpack
    if 0 ≤ e then ofParts? x.isNegative (m * 2 ^ e.toNat) 0
    else
      let p := Partway.iterate Partway.half (-e).toNat ⟨m, 0⟩
      let p := p.fitScale (-p.power - maxScale).toNat
      let p := p.fitPrecision (-p.power).toNat
      let (mantissa, scale) := stripZeros p.mantissa (-p.power).toNat
      ofParts? x.isNegative mantissa scale

end Polystore.Number
