import Polystore.Number.Decimal
import Polystore.Text.Digits

/-!
Decimal text. Writing gives every place of the scale. Reading accepts an optional sign, digits with
at most one point, underscores after the first digit, and a power of ten after `e`; digits that do
not fit are rounded off, halves away from zero, but have to be digits.
-/

namespace Polystore.Number.Decimal

open Polystore.Text

def unsignedText (d : Decimal) : List Char :=
  let row := padLeft (d.scale + 1) '0' (digits d.mantissa)
  let whole := row.take (row.length - d.scale)
  if d.scale = 0 then whole else whole ++ '.' :: row.drop (row.length - d.scale)

def text (d : Decimal) : String :=
  String.ofList (if d.negative then '-' :: d.unsignedText else d.unsignedText)

/-- Why a text is no decimal. -/
inductive ReadError where
  | empty
  | noDigits
  | twoPoints
  | leadingUnderscore
  | unknownCharacter
  | tooManyDigits
  | roundingOverflow
  | badExponent
  | scaleTooLarge (scale : Nat)
  | tooLarge
deriving DecidableEq, Repr

def ReadError.message : ReadError → String
  | .empty => "Invalid decimal: empty"
  | .noDigits => "Invalid decimal: no digits found"
  | .twoPoints => "Invalid decimal: two decimal points"
  | .leadingUnderscore => "Invalid decimal: must start lead with a number"
  | .unknownCharacter => "Invalid decimal: unknown character"
  | .tooManyDigits => "Invalid decimal: overflow from too many digits"
  | .roundingOverflow => "Invalid decimal: overflow from mantissa after rounding"
  | .badExponent => "Failed to parse"
  | .scaleTooLarge scale =>
    "Scale exceeds the maximum precision allowed: " ++ toString scale ++ " > 28"
  | .tooLarge => "Number exceeds maximum value that can be represented."

/-- What has been read so far. -/
structure Progress where
  mantissa : Nat
  scale : Nat
  seenDigit : Bool
  seenPoint : Bool

def Progress.start : Progress := ⟨0, 0, false, false⟩

/-- The error for a character that has no place. -/
def misplaced (c : Char) : ReadError :=
  if c = '.' then .twoPoints
  else if c = '_' then .leadingUnderscore
  else .unknownCharacter

def finish (negative : Bool) (p : Progress) : Except ReadError Decimal :=
  if p.seenDigit then
    match ofParts? (negative && p.mantissa != 0) p.mantissa p.scale with
    | some d => .ok d
    | none => .error .tooManyDigits
  else .error .noDigits

/-- Adds one in the last place. A carry into a 97th bit gives up one place. -/
def roundUp (negative : Bool) (p : Progress) : Except ReadError Decimal :=
  if p.mantissa + 1 < 2 ^ 96 then finish negative { p with mantissa := p.mantissa + 1 }
  else if p.scale = 0 then .error .roundingOverflow
  else finish negative { p with mantissa := (p.mantissa + 5) / 10, scale := p.scale - 1 }

/-- Ends with a tail that does not fit, which holds digits and underscores. Its first digit decides
the rounding, and the others are passed over. -/
def round (negative : Bool) (p : Progress) (tail : List Char) : Except ReadError Decimal :=
  match tail.find? fun c => !isDigit c && c != '_' with
  | some c => .error (misplaced c)
  | none =>
    if (tail.find? isDigit).any fun c => 5 ≤ digitValue c then roundUp negative p
    else finish negative p

/-- Reads digits, a point and underscores to the end of the text. -/
def readDigits (negative : Bool) : Progress → List Char → Except ReadError Decimal
  | p, [] => finish negative p
  | p, c :: rest =>
    if p.seenPoint && p.scale == maxScale then round negative p (c :: rest)
    else if isDigit c then
      let mantissa := 10 * p.mantissa + digitValue c
      if 2 ^ 96 ≤ mantissa then
        if p.seenPoint then round negative p (c :: rest) else .error .tooManyDigits
      else
        let scale := if p.seenPoint then p.scale + 1 else 0
        readDigits negative { p with mantissa, scale, seenDigit := true } rest
    else if c == '.' && !p.seenPoint then readDigits negative { p with seenPoint := true } rest
    else if c == '_' && p.seenDigit then readDigits negative p rest
    else .error (misplaced c)

def readPlain : List Char → Except ReadError Decimal
  | [] => .error .empty
  | '-' :: rest => readDigits true .start rest
  | '+' :: rest => readDigits false .start rest
  | text => readDigits false .start text

/-- Multiplies by a power of ten, by moving the point as far as there are places. -/
def shiftUp (d : Decimal) (power : Nat) : Except ReadError Decimal :=
  if power ≤ d.scale then
    .ok { d with scale := d.scale - power, scale_le := Nat.le_trans (Nat.sub_le _ _) d.scale_le }
  else if maxScale < power then .error (.scaleTooLarge power)
  else
    match ofParts? d.negative (d.mantissa * 10 ^ (power - d.scale)) 0 with
    | some d => .ok d
    | none => .error .tooLarge

theorem mantissa_rounded_lt (d : Decimal) (n : Nat) : (d.mantissa / n + 5) / 10 < 2 ^ 96 := by
  have hle := Nat.div_le_self d.mantissa n
  have hlt := d.mantissa_lt
  omega

/-- Divides by a power of ten, by adding places. Places past the last one that a decimal has are
rounded off, halves away from zero; a zero that is left keeps its sign. -/
def shiftDown (d : Decimal) (power : Nat) : Except ReadError Decimal :=
  if maxScale < power then .error (.scaleTooLarge power)
  else if h : d.scale + power ≤ 28 then .ok { d with scale := d.scale + power, scale_le := h }
  else
    let excess := d.scale + power - 28
    .ok ⟨d.negative, (d.mantissa / 10 ^ (excess - 1) + 5) / 10, 28,
      mantissa_rounded_lt d _, Nat.le_refl 28⟩

/-- A power written as a number below `2 ^ 32`, with an optional plus sign. -/
def readPower (text : List Char) : Except ReadError Nat :=
  let row := if text.head? = some '+' then text.drop 1 else text
  match readNat? row with
  | some n => if n < 2 ^ 32 then .ok n else .error .badExponent
  | none => .error .badExponent

def isExponentMark (c : Char) : Bool :=
  c == 'e' || c == 'E'

def read (text : List Char) : Except ReadError Decimal :=
  match text.span (!isExponentMark ·) with
  | (_, []) => readPlain text
  | (base, _ :: '-' :: power) => do
    let d ← readPlain base
    shiftDown d (← readPower power)
  | (base, _ :: power) => do
    let d ← readPlain base
    shiftUp d (← readPower power)

end Polystore.Number.Decimal
