import Polystore.Text.Split
import Polystore.Transaction.Command

/-!
A connection that keeps named values in memory. Its statements are words: `SET`, `GET`, `PUSH`,
`SCAN` and `FAIL`, each followed by a blank and a name; any other statement does nothing. A
transaction starts from a copy of the data, a savepoint keeps one, and a rollback puts one back.
-/

namespace Polystore.Transaction

abbrev Data := List (String × Value)

namespace Data

def get (data : Data) (name : String) : Option Value :=
  data.lookup name

/-- Stores a value, in the place of an earlier one of the same name. -/
def put (name : String) (v : Value) : Data → Data
  | [] => [(name, v)]
  | (n, old) :: rest => if n = name then (n, v) :: rest else (n, old) :: put name v rest

theorem get_put_same (name : String) (v : Value) (data : Data) :
    (data.put name v).get name = some v := by
  induction data with
  | nil => simp [put, get]
  | cons entry rest ih =>
    obtain ⟨n, old⟩ := entry
    by_cases h : n = name
    · simp [put, get, h]
    · have hne : (name == n) = false := beq_eq_false_iff_ne.mpr (Ne.symm h)
      simp only [put, h, if_false, get, List.lookup_cons, hne]
      exact ih

end Data

structure Memory where
  data : Data := []
  /-- The data as they were when the transaction under way began. -/
  snapshot : Option Data := none
  /-- Savepoints, the latest first. -/
  savepoints : List (String × Data) := []
  /-- The commands so far, the latest first. -/
  log : List Command := []
  /-- How many commits will fail, and how. -/
  failingCommits : Option (Nat × Error) := none
  failingRollbacks : Bool := false

namespace Memory

def valueRow (v : Value) : Row :=
  ⟨["value"], [v]⟩

def failure (code message : String) : Error :=
  .server (BackendError.ofSqlState "memory" code message)

/-- The first word of a statement, and what stands after the blank behind it. -/
def words (sql : String) : String × String :=
  match Text.cut ' ' sql.toList with
  | some (verb, rest) => (String.ofList verb, String.ofList rest)
  | none => (sql, "")

/-- The items under a name that holds a list, or nothing yet. -/
def push (data : Data) (name : String) (v : Value) : Data :=
  match data.get name with
  | none => data.put name (.array [v])
  | some (.array items) => data.put name (.array (items ++ [v]))
  | some _ => data

/-- What a statement answers and makes of the data. -/
def execute (data : Data) (sql : String) (params : List Value) : Reply × Data :=
  let (verb, rest) := words sql
  let first := params.headD .null
  match verb with
  | "SET" => ({}, data.put rest first)
  | "GET" => (.ofRows ((data.get rest).map valueRow).toList, data)
  | "PUSH" => ({}, push data rest first)
  | "SCAN" =>
    match data.get rest with
    | some (.array items) => (.ofRows (items.map valueRow), data)
    | _ => ({}, data)
  | "FAIL" => (.failed (failure rest "requested failure"), data)
  | _ => ({}, data)

/-- The savepoints from the latest one of a name on. -/
def fromSavepoint (m : Memory) (name : String) : Option ((String × Data) × List (String × Data)) :=
  match m.savepoints.dropWhile fun s => s.1 != name with
  | [] => none
  | found :: earlier => some (found, earlier)

def noSavepoint (name : String) : Reply :=
  .failed (failure "3B001" ("savepoint " ++ name ++ " does not exist"))

/-- The effect of a command, apart from the log. -/
def apply (m : Memory) : Command → Reply × Memory
  | .execute sql params =>
    let (reply, data) := execute m.data sql params
    (reply, { m with data })
  | .begin _ => ({}, { m with snapshot := some m.data })
  | .commit =>
    match m.failingCommits with
    | some (count + 1, e) => (.failed e, { m with failingCommits := some (count, e) })
    | _ => ({}, { m with snapshot := none, savepoints := [] })
  | .rollback =>
    if m.failingRollbacks then (.failed (failure "08006" "connection lost during rollback"), m)
    else ({}, { m with data := m.snapshot.getD m.data, snapshot := none, savepoints := [] })
  | .savepoint name => ({}, { m with savepoints := (name, m.data) :: m.savepoints })
  | .release name =>
    match m.fromSavepoint name with
    | none => (noSavepoint name, m)
    | some (_, earlier) => ({}, { m with savepoints := earlier })
  | .rollbackTo name =>
    match m.fromSavepoint name with
    | none => (noSavepoint name, m)
    | some (found, earlier) => ({}, { m with data := found.2, savepoints := found :: earlier })

/-- A command is logged before it is looked at. -/
instance : Endpoint Memory where
  perform command m := apply { m with log := command :: m.log } command

/-- The value that others see: what an open transaction does is not among it. -/
def committed (m : Memory) (name : String) : Option Value :=
  (m.snapshot.getD m.data).get name

def history (m : Memory) : List Command :=
  m.log.reverse

end Memory

def Command.entry : Command → String
  | .execute sql _ => "exec " ++ sql
  | .begin _ => "begin"
  | .commit => "commit"
  | .rollback => "rollback"
  | .savepoint name => "savepoint " ++ name
  | .release name => "release " ++ name
  | .rollbackTo name => "rollback to " ++ name

end Polystore.Transaction
