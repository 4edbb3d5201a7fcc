import Polystore.Text.Hex

/-!
Text in which any byte may be written as a percent sign and two hexadecimal digits.
-/

namespace Polystore.Text.Percent

/-- The bytes that a text stands for; a percent sign needs two digits. -/
def bytes? : List Char → Option Bytes
  | [] => some []
  | '%' :: high :: low :: rest => do
    let h ← Hex.value? high
    let l ← Hex.value? low
    let more ← bytes? rest
    pure (UInt8.ofNat (16 * h + l) :: more)
  | c :: rest => do
    if c = '%' then none
    else
      let more ← bytes? rest
      pure (Bytes.ofText (String.singleton c) ++ more)

/-- Letters, digits and the four marks that are never written as escapes. -/
def isPlain (b : UInt8) : Bool :=
  let c := Char.ofNat b.toNat
  c.isAlphanum || c = '-' || c = '.' || c = '_' || c = '~'

/-- The text of some bytes, with all but the plain characters as escapes. -/
def encode (bytes : Bytes) : List Char :=
  bytes.flatMap fun b =>
    if isPlain b then [Char.ofNat b.toNat]
    else ['%', Hex.digit (b.toNat / 16), Hex.digit (b.toNat % 16)]

end Polystore.Text.Percent
