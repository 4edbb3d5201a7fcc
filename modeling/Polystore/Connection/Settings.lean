import Polystore.Connection.Config
import Polystore.Toml.Document

/-!
Saved connections and the file they are kept in. Passwords are read but never written.
-/

namespace Polystore.Connection

open Polystore.Text.Quoted (quote)
open Polystore.Transaction (Isolation)

structure Settings where
  connections : List Config := []
  lastConnection : Option String := none
deriving DecidableEq, Repr

/-- Why settings cannot be loaded or saved. -/
inductive SettingsError where
  | malformed
  | badUrl (name : String) (cause : Error)
  | tooLarge

namespace SettingsError

def message (path : String) : SettingsError → String
  | .malformed => "Failed to parse " ++ path
  | .badUrl name _ => "Connection " ++ quote name ++ " has an invalid URL"
  | .tooLarge => "Failed to serialize settings"

def cause? : SettingsError → Option Error
  | .badUrl _ cause => some cause
  | _ => none

end SettingsError

namespace Settings

/-- Where the file is, below the directory for configurations. -/
def defaultPath : List String := ["dbkit", "connections.toml"]

def get (s : Settings) (name : String) : Option Config :=
  s.connections.find? fun c => c.name == name

/-- Puts a connection in the place of the first one with its name, or at the end. -/
def replaceFirst (c : Config) : List Config → List Config
  | [] => [c]
  | d :: rest => if d.name == c.name then c :: rest else d :: replaceFirst c rest

def upsert (s : Settings) (c : Config) : Settings :=
  { s with connections := replaceFirst c s.connections }

def fieldNames : List String :=
  ["name", "url", "password", "isolation", "retry_on_conflict", "max_attempts",
    "connect_timeout_secs", "accept_invalid_certs", "ca_cert_path"]

/-- The fields of a table, or of an array that lists them in order. -/
def fieldsOf : Toml → Option (List (String × Toml))
  | .table _ entries => some entries
  | .array items => some (fieldNames.zip items)
  | _ => none

def asText : Toml → Option String
  | .string s => some s
  | _ => none

def asFlag : Toml → Option Bool
  | .boolean b => some b
  | _ => none

def asNat (bound : Nat) : Toml → Option Nat
  | .integer i => if 0 ≤ i ∧ i < bound then some i.toNat else none
  | _ => none

def required {α : Type} (fields : List (String × Toml)) (name : String) (as : Toml → Option α) :
    Option α :=
  (fields.lookup name).bind as

/-- A field that can be left out but not be of another kind. -/
def optional {α : Type} (fields : List (String × Toml)) (name : String) (as : Toml → Option α) :
    Option (Option α) :=
  match fields.lookup name with
  | none => some none
  | some v => (as v).map some

def configOf (v : Toml) : Option Config := do
  let fields ← fieldsOf v
  let name ← required fields "name" asText
  let url ← required fields "url" asText
  let password ← optional fields "password" asText
  let isolation ← optional fields "isolation" fun v => (asText v).bind Isolation.ofName?
  let retryOnConflict ← optional fields "retry_on_conflict" asFlag
  let maxAttempts ← optional fields "max_attempts" (asNat (2 ^ 32))
  let connectTimeout ← optional fields "connect_timeout_secs" (asNat (2 ^ 63))
  let acceptInvalidCertificates ← optional fields "accept_invalid_certs" asFlag
  let certificatePath ← optional fields "ca_cert_path" asText
  pure { name, url, password := password.getD "", isolation := isolation.getD .default,
         retryOnConflict := retryOnConflict.getD false,
         maxAttempts := maxAttempts.map UInt32.ofNat,
         connectTimeout := UInt64.ofNat (connectTimeout.getD 15),
         acceptInvalidCertificates := acceptInvalidCertificates.getD false, certificatePath }

def configsOf : Toml → Option (List Config)
  | .array items => items.mapM configOf
  | .tables items => items.mapM fun entries => configOf (.table .header entries)
  | _ => none

def ofDocument (entries : List (String × Toml)) : Option Settings := do
  let connections ← optional entries "connections" configsOf
  let lastConnection ← optional entries "last_connection" asText
  pure ⟨connections.getD [], lastConnection⟩

/-- The settings in a file. No file is the same as an empty one; every address has to be a good
one. -/
def load : Option String → Except SettingsError Settings
  | none => .ok {}
  | some text => do
    match (Toml.read? text).bind ofDocument with
    | none => .error .malformed
    | some s =>
      s.connections.forM fun c =>
        match c.parsedUrl with
        | .ok _ => pure ()
        | .error cause => .error (.badUrl c.name cause)
      pure s

def line (key : String) (value : List Char) : List Char :=
  key.toList ++ " = ".toList ++ value ++ ['\n']

def textLine (key value : String) : List Char :=
  line key (Toml.quote value.toList)

def flagLine (key : String) (b : Bool) : List Char :=
  line key (if b then "true".toList else "false".toList)

def numberLine (key : String) (n : Nat) : List Char :=
  line key (Text.digits n)

/-- The part of the file for one connection; its password is left out. -/
def configText (c : Config) : List Char :=
  "[[connections]]\n".toList ++ textLine "name" c.name ++ textLine "url" c.url ++
    textLine "isolation" c.isolation.name ++ flagLine "retry_on_conflict" c.retryOnConflict ++
    (c.maxAttempts.map fun n => numberLine "max_attempts" n.toNat).getD [] ++
    numberLine "connect_timeout_secs" c.connectTimeout.toNat ++
    flagLine "accept_invalid_certs" c.acceptInvalidCertificates ++
    (c.certificatePath.map (textLine "ca_cert_path")).getD []

/-- The file for the settings. A time limit beyond the numbers of the format cannot be written. -/
def save (s : Settings) : Except SettingsError String :=
  if s.connections.any fun c => 2 ^ 63 ≤ c.connectTimeout.toNat then .error .tooLarge
  else
    let last := (s.lastConnection.map (textLine "last_connection")).toList
    let parts :=
      if s.connections.isEmpty then ["connections = []\n".toList ++ last.flatten]
      else last ++ s.connections.map configText
    .ok (String.ofList (['\n'].intercalate parts))

end Settings

end Polystore.Connection
