import Polystore.Number.Power

/-!
Decimal numbers with a 96-bit mantissa and up to 28 places. Two decimals can denote one number with
different scales; `normalize` picks the one with the fewest places.
-/

namespace Polystore.Number

/-- The number `± mantissa / 10 ^ scale`. A zero keeps its sign. -/
structure Decimal where
  negative : Bool
  mantissa : Nat
  scale : Nat
  mantissa_lt : mantissa < 2 ^ 96
  scale_le : scale ≤ 28
deriving DecidableEq

namespace Decimal

def maxScale : Nat := 28

def zero : Decimal := ⟨false, 0, 0, by decide, by decide⟩

def ofParts? (negative : Bool) (mantissa scale : Nat) : Option Decimal :=
  if h : mantissa < 2 ^ 96 ∧ scale ≤ 28 then some ⟨negative, mantissa, scale, h.1, h.2⟩ else none

/-- The whole number with a magnitude below `2 ^ 64`. -/
def ofWord (negative : Bool) (magnitude : UInt64) : Decimal :=
  ⟨negative, magnitude.toNat, 0, Nat.lt_of_lt_of_le magnitude.toNat_lt (by decide), by decide⟩

def ofInt64 (n : Int64) : Decimal :=
  ofWord (n < 0) (UInt64.ofNat n.toInt.natAbs)

def ofUInt64 (n : UInt64) : Decimal :=
  ofWord false n

def signed (d : Decimal) : Int :=
  if d.negative then -(d.mantissa : Int) else d.mantissa

def numEq (a b : Decimal) : Bool :=
  a.signed * 10 ^ b.scale == b.signed * 10 ^ a.scale

/-- The whole number a decimal denotes, if it denotes one. -/
def toInt? (d : Decimal) : Option Int :=
  if d.mantissa % 10 ^ d.scale = 0 then
    let n := d.mantissa / 10 ^ d.scale
    some (if d.negative then -(n : Int) else n)
  else none

/-- The least mantissa and scale that denote `mantissa / 10 ^ scale`. -/
def stripZeros (mantissa : Nat) : Nat → Nat × Nat
  | 0 => (mantissa, 0)
  | scale + 1 =>
    if mantissa % 10 = 0 then stripZeros (mantissa / 10) scale else (mantissa, scale + 1)

theorem stripZeros_le (mantissa scale : Nat) :
    (stripZeros mantissa scale).1 ≤ mantissa ∧ (stripZeros mantissa scale).2 ≤ scale := by
  induction scale generalizing mantissa with
  | zero => simp [stripZeros]
  | succ scale ih =>
    rw [stripZeros]
    split
    · have := ih (mantissa / 10)
      constructor
      · exact Nat.le_trans this.1 (Nat.div_le_self _ _)
      · omega
    · simp

theorem stripZeros_mul (mantissa scale : Nat) :
    (stripZeros mantissa scale).1 * 10 ^ scale = mantissa * 10 ^ (stripZeros mantissa scale).2 := by
  induction scale generalizing mantissa with
  | zero => simp [stripZeros]
  | succ scale ih =>
    rw [stripZeros]
    split
    · next h =>
      have hdiv : mantissa = mantissa / 10 * 10 := by omega
      calc
        _ = (stripZeros (mantissa / 10) scale).1 * 10 ^ scale * 10 := by
          rw [Nat.pow_succ, Nat.mul_assoc]
        _ = mantissa / 10 * 10 ^ (stripZeros (mantissa / 10) scale).2 * 10 := by rw [ih]
        _ = mantissa / 10 * 10 * 10 ^ (stripZeros (mantissa / 10) scale).2 := by
          rw [Nat.mul_right_comm]
        _ = _ := by rw [← hdiv]
    · rfl

/-- The same number with the fewest places; zero loses its sign. -/
def normalize (d : Decimal) : Decimal :=
  if d.mantissa = 0 then zero
  else
    let parts := stripZeros d.mantissa d.scale
    ⟨d.negative, parts.1, parts.2,
      Nat.lt_of_le_of_lt (stripZeros_le _ _).1 d.mantissa_lt,
      Nat.le_trans (stripZeros_le _ _).2 d.scale_le⟩

end Decimal

end Polystore.Number
