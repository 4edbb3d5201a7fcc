import Polystore.Bytes

/-!
Hexadecimal text. Main statement: reading what was written gives the bytes back.
-/

namespace Polystore.Text.Hex

def alphabet : List Char :=
  ['0', '1', '2', '3', '4', '5', '6', '7', '8', '9', 'a', 'b', 'c', 'd', 'e', 'f']

def digit (n : Nat) : Char :=
  alphabet.getD n '0'

def value? (c : Char) : Option Nat :=
  alphabet.findIdx? (· == c.toLower)

/-- Two digits a byte. -/
def encode : Bytes → List Char
  | [] => []
  | b :: rest => digit (b.toNat / 16) :: digit (b.toNat % 16) :: encode rest

/-- The bytes that pairs of digits stand for; a digit left over or any other character is refused. -/
def decode? : List Char → Option Bytes
  | [] => some []
  | high :: low :: rest => do
    let h ← value? high
    let l ← value? low
    let bytes ← decode? rest
    pure (UInt8.ofNat (16 * h + l) :: bytes)
  | [_] => none

/-- The digits of a number, without leading zeros. -/
def ofNat (n : Nat) : List Char :=
  Nat.toDigits 16 n

theorem value?_digit : ∀ n < 16, value? (digit n) = some n := by
  decide

theorem decode?_encode (bytes : Bytes) : decode? (encode bytes) = some bytes := by
  induction bytes with
  | nil => rfl
  | cons b rest ih =>
    have hb := b.toNat_lt
    rw [encode, decode?, value?_digit _ (by omega), value?_digit _ (by omega), ih]
    have hsplit : UInt8.ofNat (16 * (b.toNat / 16) + b.toNat % 16) = b := by
      rw [Nat.div_add_mod]
      exact UInt8.ofNat_toNat
    exact congrArg (fun c => some (c :: rest)) hsplit

end Polystore.Text.Hex
