import Polystore.Toml.Reader

/-!
Documents of the TOML format: assignments under headers. A table has one header at most, and a key
one value.
-/

namespace Polystore.Toml

/-- What is read so far: the entries, and the table that assignments go to. -/
structure Progress where
  entries : List (String × Toml) := []
  current : List String := []

/-- Opens the table of a header; one that is there must have come about by inner headers only. -/
def openTable (path : List String) (entries : List (String × Toml)) :
    Option (List (String × Toml)) :=
  match path.getLast? with
  | none => none
  | some key =>
    let change (_ : Bool) (inner : List (String × Toml)) : Option (List (String × Toml)) :=
      match inner.lookup key with
      | none => some (inner ++ [(key, .table .header [])])
      | some (.table .implied more) =>
        some (inner.filter (fun (k, _) => k != key) ++ [(key, .table .header more)])
      | some _ => none
    within false change false path.dropLast entries

/-- Opens one more table of a header in double brackets. -/
def openItem (path : List String) (entries : List (String × Toml)) :
    Option (List (String × Toml)) :=
  match path.getLast? with
  | none => none
  | some key =>
    let change (_ : Bool) (inner : List (String × Toml)) : Option (List (String × Toml)) :=
      match inner.lookup key with
      | none => some (inner ++ [(key, .tables [[]])])
      | some (.tables items) =>
        some (inner.map fun (k, old) => if k = key then (k, .tables (items ++ [[]])) else (k, old))
      | some _ => none
    within false change false path.dropLast entries

def readHeader (p : Progress) (text : List Char) : Option (Progress × List Char) := do
  match text with
  | '[' :: '[' :: rest =>
    let (path, rest) ← readKey rest
    let rest ← expect ']' (← expect ']' (skipSpaces rest))
    let entries ← openItem path p.entries
    pure (⟨entries, path⟩, rest)
  | '[' :: rest =>
    let (path, rest) ← readKey rest
    let rest ← expect ']' (skipSpaces rest)
    let entries ← openTable path p.entries
    pure (⟨entries, path⟩, rest)
  | _ => none

def readEntry (p : Progress) (text : List Char) : Option (Progress × List Char) := do
  let ((path, v), rest) ← readAssignment readValue text
  let entries ← within false (fun _ => assign path v) false p.current p.entries
  pure (⟨entries, p.current⟩, rest)

/-- Lines up to the end of the text; the fuel bounds their number. -/
def readLines : Nat → Progress → List Char → Option Progress
  | 0, _, _ => none
  | fuel + 1, p, text =>
    match skipLines text with
    | [] => some p
    | start => do
      let (p, rest) ← if start.head? = some '[' then readHeader p start else readEntry p start
      match skipComment (skipSpaces rest) with
      | [] => some p
      | rest => do
        let rest ← readNewline rest
        readLines fuel p rest

def read? (text : String) : Option (List (String × Toml)) :=
  let chars := text.toList
  let body := if chars.head? = some '\uFEFF' then chars.drop 1 else chars
  (readLines (body.length + 1) {} body).map Progress.entries

end Polystore.Toml
