import Polystore.Error
import Polystore.Text.Digits

/-!
Error reports of the server. A report is a row of fields, each with a letter; severity, code and
message have to be there.
-/

namespace Polystore.Postgres

abbrev Report := List (Char × String)

/-- A whole number below a bound, with an optional plus sign before it. -/
def readBelow? (bound : Nat) (text : String) : Option Nat :=
  let digits := match text.toList with
    | '+' :: rest => rest
    | all => all
  (Text.readNat? digits).filter (· < bound)

namespace Report

def severities : List String :=
  ["PANIC", "FATAL", "ERROR", "WARNING", "NOTICE", "DEBUG", "INFO", "LOG"]

/-- The number in a field, if the report has the field; nothing if it is not a number. -/
def number? (r : Report) (letter : Char) : Option (Option Nat) :=
  match r.lookup letter with
  | none => some none
  | some text => (readBelow? (2 ^ 32) text).map some

/-- Are the fields well-formed of which nothing is kept? -/
def restIsGood (r : Report) (position : Option Nat) : Bool :=
  (r.number? 'L').isSome && (r.lookup 'V').all severities.contains &&
    match r.number? 'p' with
    | none => false
    | some none => true
    | some (some _) => position.isSome || (r.lookup 'q').isSome

/-- What a report says about a statement, unless it is ill-formed. A position in another statement
than the one that was sent is left aside. -/
def failure? (r : Report) (statement : String) : Option BackendError := do
  let severity ← r.lookup 'S'
  let code ← r.lookup 'C'
  let message ← r.lookup 'M'
  let position ← r.number? 'P'
  let place := position.map (BackendError.lineColumn statement)
  if r.restIsGood position then
    some { BackendError.ofSqlState "postgres" code message with
      severity, detail := r.lookup 'D', hint := r.lookup 'H', position,
      line := place.map Prod.fst, column := place.map Prod.snd }
  else none

end Report

end Polystore.Postgres
