import Polystore.Number.Power

/-!
Binary floating-point words of the two interchange widths. A word is kept as its bits; a finite one
denotes `significand * 2 ^ exponent`, and every operation is exact arithmetic on that pair followed
by one rounding to the nearest word, halves going to the even neighbour.
-/

namespace Polystore.Number

/-- The width of the two fields after the sign. -/
structure BinaryFormat where
  fractionBits : Nat
  exponentBits : Nat

namespace BinaryFormat

def single : BinaryFormat := ⟨23, 8⟩

def double : BinaryFormat := ⟨52, 11⟩

/-- The weight of the last place of the smallest numbers is two to minus this. -/
def minPlace (format : BinaryFormat) : Nat :=
  2 ^ (format.exponentBits - 1) + format.fractionBits - 2

/-- The magnitude bits of infinity: the exponent field full, the fraction zero. -/
def infinity (format : BinaryFormat) : Nat :=
  (2 ^ format.exponentBits - 1) * 2 ^ format.fractionBits

/-- The significand and the exponent of finite magnitude bits. -/
def unpack (format : BinaryFormat) (magnitude : Nat) : Nat × Int :=
  let field := magnitude / 2 ^ format.fractionBits
  let fraction := magnitude % 2 ^ format.fractionBits
  if field = 0 then (fraction, -(format.minPlace : Int))
  else (2 ^ format.fractionBits + fraction, (field : Int) - 1 - format.minPlace)

/-- A quotient rounded to the nearest whole number, halves to the even one. -/
def roundHalfEven (num den : Nat) : Nat :=
  let q := num / den
  let rest := 2 * (num % den)
  if rest > den || (rest == den && q % 2 == 1) then q + 1 else q

/-- The exponent of the last place of the word nearest to `num / den`. -/
def placeOf (format : BinaryFormat) (num den : Nat) : Int :=
  let guess : Int := (num.log2 : Int) - den.log2 - format.fractionBits - 1
  let fits : Bool :=
    if 0 ≤ guess then num < den * 2 ^ guess.toNat * 2 ^ (format.fractionBits + 1)
    else num * 2 ^ (-guess).toNat < den * 2 ^ (format.fractionBits + 1)
  max (if fits then guess else guess + 1) (-(format.minPlace : Int))

/-- The magnitude bits nearest to `num / den`; infinity where that is past the largest word. -/
def roundRatio (format : BinaryFormat) (num den : Nat) : Nat :=
  if num = 0 then 0
  else
    let place := format.placeOf num den
    let significand :=
      if 0 ≤ place then roundHalfEven num (den * 2 ^ place.toNat)
      else roundHalfEven (num * 2 ^ (-place).toNat) den
    let bits := (place + format.minPlace).toNat * 2 ^ format.fractionBits + significand
    min bits format.infinity

end BinaryFormat

/-- A binary64 word. -/
structure Binary64 where
  bits : UInt64
deriving DecidableEq

/-- A binary32 word. -/
structure Binary32 where
  bits : UInt32
deriving DecidableEq

namespace Binary64

/-- The word with the given sign and magnitude bits. -/
def ofMagnitude (negative : Bool) (magnitude : Nat) : Binary64 :=
  ⟨UInt64.ofNat (magnitude + if negative then 2 ^ 63 else 0)⟩

def isNegative (x : Binary64) : Bool :=
  2 ^ 63 ≤ x.bits.toNat

def magnitude (x : Binary64) : Nat :=
  x.bits.toNat % 2 ^ 63

def isFinite (x : Binary64) : Bool :=
  x.magnitude < BinaryFormat.double.infinity

def isInfinite (x : Binary64) : Bool :=
  x.magnitude == BinaryFormat.double.infinity

def isNaN (x : Binary64) : Bool :=
  BinaryFormat.double.infinity < x.magnitude

def isZero (x : Binary64) : Bool :=
  x.magnitude == 0

/-- The quiet word that every result that is not a number is read as. -/
def nan : Binary64 := ⟨0x7FF8000000000000⟩

def infinity : Binary64 := ⟨0x7FF0000000000000⟩

def negInfinity : Binary64 := ⟨0xFFF0000000000000⟩

def zero : Binary64 := ⟨0⟩

/-- The significand and the exponent of a finite word, the sign left out. -/
def unpack (x : Binary64) : Nat × Int :=
  BinaryFormat.double.unpack x.magnitude

/-- The word nearest to a quotient, with a sign. -/
def ofRatio (negative : Bool) (num den : Nat) : Binary64 :=
  ofMagnitude negative (BinaryFormat.double.roundRatio num den)

/-- The word nearest to `coefficient * 10 ^ exponent`, with a sign. -/
def ofDecimal (negative : Bool) (coefficient : Nat) (exponent : Int) : Binary64 :=
  if 0 ≤ exponent then ofRatio negative (coefficient * 10 ^ exponent.toNat) 1
  else ofRatio negative coefficient (10 ^ (-exponent).toNat)

def ofInt (i : Int) : Binary64 :=
  ofRatio (i < 0) i.natAbs 1

/-- The word nearest to `significand * 2 ^ exponent`, with a sign. -/
def ofScaled (negative : Bool) (significand : Nat) (exponent : Int) : Binary64 :=
  if 0 ≤ exponent then ofRatio negative (significand * 2 ^ exponent.toNat) 1
  else ofRatio negative significand (2 ^ (-exponent).toNat)

/-- The product of two finite words, rounded once. -/
def mul (x y : Binary64) : Binary64 :=
  let (m, e) := x.unpack
  let (n, f) := y.unpack
  ofScaled (x.isNegative != y.isNegative) (m * n) (e + f)

/-- The quotient of two finite words, the second not zero, rounded once. -/
def div (x y : Binary64) : Binary64 :=
  let (m, e) := x.unpack
  let (n, f) := y.unpack
  let negative := x.isNegative != y.isNegative
  if f ≤ e then ofRatio negative (m * 2 ^ (e - f).toNat) n
  else ofRatio negative m (n * 2 ^ (f - e).toNat)

def neg (x : Binary64) : Binary64 :=
  ofMagnitude (!x.isNegative) x.magnitude

/-- Numeric equality: both zeros are equal, and a word that is not a number equals none. -/
def numEq (x y : Binary64) : Bool :=
  !x.isNaN && !y.isNaN && (x == y || (x.isZero && y.isZero))

/-- Numeric equality with all words that are not numbers counted as one. -/
def sameNumber (x y : Binary64) : Bool :=
  x.numEq y || (x.isNaN && y.isNaN)

/-- One word out of each class of `sameNumber`. -/
def canonical (x : Binary64) : Binary64 :=
  if x.isNaN then nan else if x.isZero then zero else x

theorem isNaN_zero : zero.isNaN = false := by decide

theorem isZero_zero : zero.isZero = true := by decide

theorem isNaN_nan : nan.isNaN = true := by decide

/-- Two words denote the same number exactly when they have the same representative. -/
theorem sameNumber_iff_canonical_eq (x y : Binary64) :
    x.sameNumber y = true ↔ x.canonical = y.canonical := by
  have ne_of_isNaN {a b : Binary64} (ha : a.isNaN = true) (hb : b.isNaN = false) : a ≠ b := by
    rintro rfl; simp_all
  have ne_of_isZero {a b : Binary64} (ha : a.isZero = true) (hb : b.isZero = false) : a ≠ b := by
    rintro rfl; simp_all
  cases hx : x.isNaN <;> cases hy : y.isNaN <;> cases zx : x.isZero <;> cases zy : y.isZero <;>
    simp [sameNumber, numEq, canonical, hx, hy, zx, zy]
  · exact ⟨fun h => absurd h.symm (ne_of_isZero zy zx), fun h => absurd h.symm (ne_of_isZero isZero_zero zx)⟩
  · exact ⟨fun h => absurd h (ne_of_isZero zx zy), fun h => absurd h (ne_of_isZero isZero_zero zy)⟩
  · exact (ne_of_isNaN isNaN_nan hx).symm
  · exact (ne_of_isNaN isNaN_nan hx).symm
  · exact (ne_of_isNaN isNaN_nan isNaN_zero).symm
  · exact (ne_of_isNaN isNaN_nan isNaN_zero).symm
  · exact ne_of_isNaN isNaN_nan hy
  · exact ne_of_isNaN isNaN_nan isNaN_zero
  · exact ne_of_isNaN isNaN_nan hy
  · exact ne_of_isNaN isNaN_nan isNaN_zero

end Binary64

namespace Binary32

def isNegative (x : Binary32) : Bool :=
  2 ^ 31 ≤ x.bits.toNat

def magnitude (x : Binary32) : Nat :=
  x.bits.toNat % 2 ^ 31

def ofMagnitude (negative : Bool) (magnitude : Nat) : Binary32 :=
  ⟨UInt32.ofNat (magnitude + if negative then 2 ^ 31 else 0)⟩

/-- The same number in the wider format. A payload keeps its place below the point and is made
quiet. -/
def widen (x : Binary32) : Binary64 :=
  let infinity := BinaryFormat.single.infinity
  if x.magnitude < infinity then
    let (m, e) := BinaryFormat.single.unpack x.magnitude
    Binary64.ofScaled x.isNegative m e
  else if x.magnitude = infinity then
    Binary64.ofMagnitude x.isNegative BinaryFormat.double.infinity
  else
    let payload := (x.magnitude - infinity) % 2 ^ 22 + 2 ^ 22
    Binary64.ofMagnitude x.isNegative (BinaryFormat.double.infinity + payload * 2 ^ 29)

end Binary32

/-- The nearest word of the narrower format. A payload loses its low places and is made quiet. -/
def Binary64.narrow (x : Binary64) : Binary32 :=
  let infinity := BinaryFormat.double.infinity
  if x.magnitude < infinity then
    let (m, e) := x.unpack
    let rounded :=
      if 0 ≤ e then BinaryFormat.single.roundRatio (m * 2 ^ e.toNat) 1
      else BinaryFormat.single.roundRatio m (2 ^ (-e).toNat)
    .ofMagnitude x.isNegative rounded
  else if x.magnitude = infinity then
    .ofMagnitude x.isNegative BinaryFormat.single.infinity
  else
    let payload := (x.magnitude - infinity) % 2 ^ 51 / 2 ^ 29 + 2 ^ 22
    .ofMagnitude x.isNegative (BinaryFormat.single.infinity + payload)

end Polystore.Number
