/-!
Failures reported by a database server: their category by code, the place in the statement they
point at, and their text.
-/

namespace Polystore

/-- What kind of failure a server reports. -/
inductive Category where
  | syntaxError
  | semantic
  | execution
  | transaction
  | conflict
  | connection
  | unknown
deriving DecidableEq, Repr

namespace Category

def title : Category → String
  | .syntaxError => "Syntax Error"
  | .semantic => "Semantic Error"
  | .execution => "Execution Error"
  | .transaction => "Transaction Error"
  | .conflict => "Conflict"
  | .connection => "Connection Error"
  | .unknown => "Error"

/-- The category of a five-character state code, by its class of two characters. Serialization
failures and deadlocks are told apart from the rest of their class. -/
def ofSqlState (code : String) : Category :=
  if code == "40001" || code == "40P01" then .conflict
  else
    match code.toList with
    | '4' :: '2' :: _ => if code == "42601" || code == "42000" then .syntaxError else .semantic
    | '2' :: '2' :: _ | '2' :: '3' :: _ => .execution
    | '2' :: '5' :: _ | '4' :: '0' :: _ => .transaction
    | '0' :: '8' :: _ => .connection
    | '5' :: '3' :: _ | '5' :: '4' :: _ | '5' :: '5' :: _ | '5' :: '7' :: _ => .execution
    | _ => .unknown

def ofNumber (code : Nat) : Category :=
  if code = 1213 ∨ code = 1205 then .conflict
  else if code = 1064 then .syntaxError
  else if code = 1146 ∨ code = 1054 ∨ code = 1049 then .semantic
  else if code = 1062 ∨ code = 1451 ∨ code = 1452 ∨ code = 1406 ∨ code = 1365 then .execution
  else if code = 2006 ∨ code = 2013 then .connection
  else .unknown

end Category

/-- A failure as a server describes it. The code is empty when it never reached the server. -/
structure BackendError where
  backend : String
  category : Category
  severity : String := "ERROR"
  code : String := ""
  message : String
  detail : Option String := none
  hint : Option String := none
  position : Option Nat := none
  line : Option Nat := none
  column : Option Nat := none
deriving DecidableEq

namespace BackendError

def ofText (backend message : String) : BackendError :=
  { backend, category := .unknown, message }

def ofSqlState (backend code message : String) : BackendError :=
  { backend, category := .ofSqlState code, code, message }

def ofNumber (code : Nat) (message : String) : BackendError :=
  { backend := "mysql", category := .ofNumber code, code := toString code, message }

def ofConnection (backend message : String) : BackendError :=
  { backend, category := .connection, message }

def code? (e : BackendError) : Option String :=
  if e.code.isEmpty then none else some e.code

def isConflict (e : BackendError) : Bool :=
  e.category = .conflict

def text (e : BackendError) : String :=
  e.category.title ++ ": " ++ e.message

/-- The failure over several lines: place, code, detail and hint, as far as they are known. -/
def fullText (e : BackendError) : String :=
  let place :=
    match e.line, e.column with
    | some line, some column =>
      ["  at line " ++ toString line ++ ", column " ++ toString column]
    | _, _ => []
  let code := (e.code?.map fun c => "  " ++ e.backend ++ " code: " ++ c).toList
  let detail := (e.detail.map fun d => "  Detail: " ++ d).toList
  let hint := (e.hint.map fun h => "  Hint: " ++ h).toList
  "\n".intercalate (e.text :: place ++ code ++ detail ++ hint)

/-- Walks a text up to the first character that starts at or past a byte offset, counting lines and
columns from where it stands. -/
def walk (target : Nat) : Nat → Nat × Nat → List Char → Nat × Nat
  | _, place, [] => place
  | offset, (line, column), c :: rest =>
    if target ≤ offset then (line, column)
    else walk target (offset + c.utf8Size) (if c = '\n' then (line + 1, 1) else (line, column + 1)) rest

/-- The line and the column, both counted from one, of a position in a statement. The position
counts bytes from one. -/
def lineColumn (statement : String) (position : Nat) : Nat × Nat :=
  walk (position - 1) 0 (1, 1) statement.toList

end BackendError

end Polystore
