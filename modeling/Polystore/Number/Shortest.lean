import Polystore.Number.Binary
import Polystore.Text.Digits

/-!
Decimal text of a binary64 word: the fewest digits that read back as the same word, and of those
the nearest; and the reading of such text.
-/

namespace Polystore.Number

/-- A number written as `coefficient * 10 ^ exponent`. -/
structure Scientific where
  coefficient : Nat
  exponent : Int
deriving DecidableEq, Repr

namespace Scientific

/-- Zeros at the end of the coefficient are moved to the exponent, at most so many. -/
def strip : Nat → Scientific → Scientific
  | 0, s => s
  | fuel + 1, s =>
    if s.coefficient % 10 = 0 then strip fuel ⟨s.coefficient / 10, s.exponent + 1⟩ else s

end Scientific

/-- What stands for a number half way between two neighbours on a grid: the upper one, or the one
whose last digit is even. -/
inductive Ties where
  | up
  | even
deriving DecidableEq, Repr

/-- Does the lower of two neighbours stand for a number between them? The ordering tells on which
side of their middle the number lies. -/
def Ties.takesBelow (ties : Ties) (below : Nat) : Ordering → Bool
  | .lt => true
  | .eq => ties = .even && below % 2 = 0
  | .gt => false

namespace Binary64

/-- The numbers that round to a word lie between `low` and `high`, all three over the same
denominator; the ends belong to them if `closed`. -/
structure Interval where
  low : Nat
  value : Nat
  high : Nat
  den : Nat
  closed : Bool

/-- The numbers that round to a finite word other than zero. Below a power of two the neighbour is
half as far away. -/
def interval (x : Binary64) : Interval :=
  let (m, e) := x.unpack
  let step := if m = 2 ^ 52 && -1074 < e then 1 else 2
  let up := 2 ^ (e - 2).toNat
  ⟨(4 * m - step) * up, 4 * m * up, (4 * m + 2) * up, 2 ^ (2 - e).toNat, m % 2 = 0⟩

def Interval.holds (i : Interval) (num den : Nat) : Bool :=
  if i.closed then i.low * den ≤ num * i.den && num * i.den ≤ i.high * den
  else i.low * den < num * i.den && num * i.den < i.high * den

/-- The power of ten of the leading digit of `num / den`. -/
def leadingPower (num den : Nat) : Int :=
  if den ≤ num then (Text.digits (num / den)).length - 1
  else
    let places := (Text.digits (den / num)).length
    if num * 10 ^ (places - 1) = den then 1 - (places : Int) else -(places : Int)

/-- The better of the two neighbours on the grid of multiples of `10 ^ place`, if one of them rounds
to the word. -/
def Interval.onGrid (i : Interval) (ties : Ties) (place : Int) : Option Nat :=
  let num := 10 ^ place.toNat
  let den := 10 ^ (-place).toNat
  let below := i.value * den / (i.den * num)
  let above := below + 1
  match i.holds (below * num) den, i.holds (above * num) den with
  | true, true =>
    let side := compare (2 * (i.value * den)) ((below + above) * (i.den * num))
    some (if ties.takesBelow below side then below else above)
  | true, false => some below
  | false, true => some above
  | false, false => none

/-- The shortest decimal number that rounds to a finite word other than zero. -/
def shortest (x : Binary64) (ties : Ties) : Scientific :=
  let i := x.interval
  let top := leadingPower i.value i.den
  let found := (List.range 17).findSome? fun (k : Nat) =>
    (i.onGrid ties (top - k)).map fun c => (⟨c, top - k⟩ : Scientific)
  match found with
  | some s => s.strip 17
  | none => ⟨x.unpack.1, 0⟩

/-- The digits with the point in its place and no exponent, at least so many after the point. -/
def positional (s : Scientific) (places : Nat) : List Char :=
  let row := Text.digits s.coefficient
  if 0 ≤ s.exponent then
    let whole := row ++ List.replicate s.exponent.toNat '0'
    if places = 0 then whole else whole ++ '.' :: List.replicate places '0'
  else
    let behind := (-s.exponent).toNat
    let row := Text.padLeft (behind + 1) '0' row
    row.take (row.length - behind) ++ '.' :: row.drop (row.length - behind)

/-- How a text writes the words that digits alone do not fix. The point is put in its place if the
power of ten of the leading digit is from `positionalFrom` up to `positionalBelow`, with at least so
many places after it; otherwise the exponent is written. -/
structure Style where
  nan : String := "NaN"
  infinity : String
  places : Nat
  positionalFrom : Int
  positionalBelow : Int
  exponentPlus : Bool := false
  ties : Ties := .up

/-- One digit before the point, and the exponent after a letter. -/
def exponential (style : Style) (s : Scientific) : List Char :=
  let row := Text.digits s.coefficient
  let fraction := row.drop 1
  let exponent := s.exponent + fraction.length
  let sign := if exponent < 0 then ['-'] else if style.exponentPlus then ['+'] else []
  row.take 1 ++ (if fraction.isEmpty then [] else '.' :: fraction) ++ 'e' :: sign ++
    Text.digits exponent.natAbs

def write (style : Style) (x : Binary64) : String :=
  let sign := if x.isNegative then ['-'] else []
  if x.isNaN then style.nan
  else if x.isInfinite then String.ofList sign ++ style.infinity
  else if x.isZero then String.ofList (sign ++ positional ⟨0, 0⟩ style.places)
  else
    let s := x.shortest style.ties
    let power := s.exponent + (Text.digits s.coefficient).length - 1
    let body :=
      if style.positionalFrom ≤ power && power < style.positionalBelow then
        positional s style.places
      else exponential style s
    String.ofList (sign ++ body)

/-- Messages write every digit and name the special words in short. -/
def messageStyle : Style where
  infinity := "inf"
  places := 0
  positionalFrom := -400
  positionalBelow := 400

/-- Values write every digit and name the special words in full. -/
def valueStyle : Style := { messageStyle with infinity := "Infinity" }

/-- Replies are described with a fraction always, and an exponent for the very large and the very
small. -/
def replyStyle : Style :=
  { messageStyle with places := 1, positionalFrom := -4, positionalBelow := 16 }

def display (x : Binary64) : String :=
  write messageStyle x

def valueText (x : Binary64) : String :=
  write valueStyle x

/-- A row of digits, a point and digits, at least one digit in all; what follows is left over. -/
def readMantissa (text : List Char) : Option (Scientific × List Char) :=
  let (whole, rest) := Text.spanDigits text
  let (fraction, rest) :=
    match rest with
    | '.' :: behind => Text.spanDigits behind
    | _ => ([], rest)
  if whole.isEmpty && fraction.isEmpty then none
  else some (⟨Text.ofDigits (whole ++ fraction), -(fraction.length : Int)⟩, rest)

/-- An unsigned decimal number with an optional exponent. -/
def readUnsigned? (text : List Char) : Option Scientific := do
  let (s, rest) ← readMantissa text
  match rest with
  | [] => pure s
  | e :: tail =>
    if e == 'e' || e == 'E' then
      let exponent ← Text.readInt? tail
      pure ⟨s.coefficient, s.exponent + exponent⟩
    else none

/-- The word nearest to a decimal number. Exponents far outside the range are answered without
computing the power. -/
def ofScientific (negative : Bool) (s : Scientific) : Binary64 :=
  let top := s.exponent + (Text.digits s.coefficient).length
  if s.coefficient = 0 || top < -400 then ofMagnitude negative 0
  else if 400 < top then ofMagnitude negative BinaryFormat.double.infinity
  else ofDecimal negative s.coefficient s.exponent

/-- Reads a decimal number or one of the special words in any case, after an optional sign. -/
def read? (text : List Char) : Option Binary64 :=
  let (negative, body) :=
    match text with
    | '-' :: rest => (true, rest)
    | '+' :: rest => (false, rest)
    | _ => (false, text)
  let lower := String.ofList (body.map Char.toLower)
  if lower == "nan" then some (ofMagnitude negative nan.magnitude)
  else if lower == "inf" || lower == "infinity" then
    some (ofMagnitude negative BinaryFormat.double.infinity)
  else (readUnsigned? body).map (ofScientific negative)

end Binary64

end Polystore.Number
