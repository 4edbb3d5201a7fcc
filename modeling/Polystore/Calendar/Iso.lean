import Polystore.Calendar.Stamp
import Polystore.Number.Power
import Polystore.Text.Blank
import Polystore.Text.Digits

/-!
ISO 8601 text of stamps. Parts that are missing are left out. Reading accepts what is written, and
also `Z` for offset zero, fields with fewer digits, and white space before a field.
-/

namespace Polystore.Calendar

open Polystore.Text

namespace Iso

/-- Four digits, and a sign for years that need more or come before year 0. -/
def year (y : Int) : List Char :=
  if 0 ≤ y ∧ y ≤ 9999 then paddedDigits 4 y.natAbs
  else (if y < 0 then '-' else '+') :: paddedDigits 4 y.natAbs

def date (d : Date) : List Char :=
  year d.year ++ '-' :: paddedDigits 2 d.month ++ '-' :: paddedDigits 2 d.day

/-- Three, six or nine places after a point, or nothing. -/
def fraction (nano : Nat) : List Char :=
  if nano = 0 then []
  else if nano % 1000000 = 0 then '.' :: paddedDigits 3 (nano / 1000000)
  else if nano % 1000 = 0 then '.' :: paddedDigits 6 (nano / 1000)
  else '.' :: paddedDigits 9 nano

/-- A leap second is written as one second more. -/
def time (t : Time) : List Char :=
  paddedDigits 2 (t.second / 3600) ++ ':' :: paddedDigits 2 (t.second / 60 % 60) ++
    ':' :: paddedDigits 2 (t.second % 60 + t.nano / 1000000000) ++ fraction (t.nano % 1000000000)

def offset (o : Offset) : List Char :=
  let n := o.seconds.natAbs
  (if o.seconds < 0 then '-' else '+') :: paddedDigits 2 (n / 3600) ++
    ':' :: paddedDigits 2 (n / 60 % 60) ++
    if n % 60 = 0 then [] else ':' :: paddedDigits 2 (n % 60)

/-- Reads at least one and at most so many digits, after any white space. -/
def readField (most : Nat) (text : List Char) : Option (Nat × List Char) :=
  let text := trimStart text
  let row := (text.takeWhile isDigit).take most
  if row.isEmpty then none else some (ofDigits row, text.drop row.length)

def expect (c : Char) : List Char → Option (List Char)
  | [] => none
  | d :: rest => if d = c then some rest else none

/-- A year with a sign has as many digits as there are. -/
def readYear (text : List Char) : Option (Int × List Char) :=
  match trimStart text with
  | '-' :: rest => if startsWithDigit rest then
      (readField rest.length rest).map fun (n, rest) => (-(n : Int), rest) else none
  | '+' :: rest => if startsWithDigit rest then
      (readField rest.length rest).map fun (n, rest) => ((n : Int), rest) else none
  | text => (readField 4 text).map fun (n, rest) => ((n : Int), rest)
where
  startsWithDigit (text : List Char) : Bool :=
    text.head?.any isDigit

def readDate (text : List Char) : Option (Date × List Char) := do
  let (y, rest) ← readYear text
  let rest ← expect '-' rest
  let (m, rest) ← readField 2 rest
  let rest ← expect '-' rest
  let (d, rest) ← readField 2 rest
  let date ← Date.ofYmd? y m d
  pure (date, rest)

/-- Up to nine places count; more are passed over. -/
def readFraction : List Char → Option (Nat × List Char)
  | '.' :: rest =>
    let row := (rest.takeWhile isDigit)
    if row.isEmpty then none
    else
      let kept := row.take 9
      some (ofDigits kept * 10 ^ (9 - kept.length), rest.drop row.length)
  | rest => some (0, rest)

/-- Second 60 is a leap second. -/
def readTime (text : List Char) : Option (Time × List Char) := do
  let (h, rest) ← readField 2 text
  let rest ← expect ':' rest
  let (m, rest) ← readField 2 rest
  let rest ← expect ':' rest
  let (s, rest) ← readField 2 rest
  let (nano, rest) ← readFraction rest
  let time ← if s = 60 then Time.ofHms? h m 59 (nano + 1000000000) else Time.ofHms? h m s nano
  pure (time, rest)

def whole {α : Type} (reader : List Char → Option (α × List Char)) (text : List Char) : Option α :=
  match reader text with
  | some (a, []) => some a
  | _ => none

def readDateTime (text : List Char) : Option (DateTime × List Char) := do
  let (d, rest) ← readDate text
  let rest ← expect 'T' rest
  let (t, rest) ← readTime rest
  pure (⟨d, t⟩, rest)

def readParts (text : List Char) : Option Parts :=
  match whole readDateTime text with
  | some t => some (.both t.date t.time)
  | none =>
    match whole readDate text with
    | some d => some (.date d)
    | none => (whole readTime text).map .time

/-- Two digits. -/
def readPair : List Char → Option Nat
  | [a, b] => if isDigit a && isDigit b then some (ofDigits [a, b]) else none
  | _ => none

/-- Hours and minutes, and seconds if there are any, after a sign. -/
def readOffset : List Char → Option Offset
  | [] => none
  | sign :: rest => do
    let toward ← if sign = '+' then some (1 : Int) else if sign = '-' then some (-1) else none
    match rest.splitOn ':' with
    | [h, m] => Offset.ofSeconds? (toward * ((← readPair h) * 3600 + (← readPair m) * 60))
    | [h, m, s] =>
      Offset.ofSeconds? (toward * ((← readPair h) * 3600 + (← readPair m) * 60 + (← readPair s)))
    | _ => none

/-- Cuts a text before its last sign. -/
def cutAtSign (text : List Char) : Option (List Char × List Char) :=
  let behind := (text.reverse.takeWhile fun c => c != '+' && c != '-').length
  if behind < text.length then
    some (text.take (text.length - behind - 1), text.drop (text.length - behind - 1))
  else none

def readWithOffset (text : List Char) : Option (Parts × Option Offset) :=
  match readParts text with
  | some parts => some (parts, none)
  | none =>
    if text.getLast? = some 'Z' then
      (readParts text.dropLast).map fun parts => (parts, some .utc)
    else do
      let (body, sign) ← cutAtSign text
      let parts ← readParts body
      let offset ← readOffset sign
      pure (parts, some offset)

end Iso

namespace Stamp

def iso (s : Stamp) : String :=
  let body :=
    match s.parts with
    | .date d => Iso.date d
    | .time t => Iso.time t
    | .both d t => Iso.date d ++ 'T' :: Iso.time t
  String.ofList (body ++ (s.offset.map Iso.offset).getD [])

/-- The stamp that a text denotes; it carries no calendar mark. -/
def ofIso? (text : String) : Option Stamp :=
  (Iso.readWithOffset text.toList).map fun (parts, offset) => ⟨parts, offset, none⟩

end Stamp

end Polystore.Calendar
