import Polystore.Calendar.Iso

/-!
Instants in text: a date, a time of day and an offset, every field with all its digits.
-/

namespace Polystore.Calendar.Instant

open Polystore.Text

def readFixed (width : Nat) (text : List Char) : Option (Nat × List Char) :=
  let row := text.take width
  if row.length = width && row.all isDigit then some (ofDigits row, text.drop width) else none

/-- `Z`, or hours and minutes after a sign; in seconds. -/
def readOffset : List Char → Option Int
  | [] => none
  | sign :: rest =>
    if sign = 'Z' ∨ sign = 'z' then if rest.isEmpty then some 0 else none
    else do
      let toward ← if sign = '+' then some (1 : Int) else if sign = '-' then some (-1) else none
      let (h, rest) ← readFixed 2 rest
      let rest ← Iso.expect ':' rest
      let (m, rest) ← readFixed 2 rest
      if h < 24 ∧ m < 60 ∧ rest.isEmpty then pure (toward * (h * 3600 + m * 60)) else none

/-- Does a second after the start of 1970 begin a month? -/
def beginsMonth (second : Int) : Bool :=
  second % 86400 = 0 && (Date.ofDayNumber? (second / 86400)).any (·.day = 1)

/-- The nanoseconds from the start of 1970. Any one ASCII character may stand between date and time.
A leap second ends a month of universal time, and counts as the last nanosecond before it. -/
def nanos? (text : List Char) : Option Int := do
  let (y, rest) ← readFixed 4 text
  let rest ← Iso.expect '-' rest
  let (m, rest) ← readFixed 2 rest
  let rest ← Iso.expect '-' rest
  let (d, rest) ← readFixed 2 rest
  let date ← Date.ofYmd? y m d
  let (separator, rest) ← rest.head?.map fun c => (c, rest.drop 1)
  let (hour, rest) ← readFixed 2 rest
  let rest ← Iso.expect ':' rest
  let (minute, rest) ← readFixed 2 rest
  let rest ← Iso.expect ':' rest
  let (second, rest) ← readFixed 2 rest
  let (nano, rest) ← Iso.readFraction rest
  let offset ← readOffset rest
  let leaps := second = 60
  let time ← Time.ofHms? hour minute (if leaps then 59 else second) (if leaps then 999999999 else nano)
  let seconds := DateTime.seconds ⟨date, time⟩ - offset
  if separator.toNat < 128 && (!leaps || beginsMonth (seconds + 1)) then
    pure (seconds * 1000000000 + time.nano)
  else none

end Polystore.Calendar.Instant
