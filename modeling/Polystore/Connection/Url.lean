import Polystore.Error
import Polystore.Text.Percent
import Polystore.Text.Split
import Polystore.Value.Basic

/-!
Addresses of databases: a scheme, credentials, one host or several, a database and options.
-/

namespace Polystore.Connection

open Polystore.Text (cut cutAt cutLast split)

/-- The kinds of store that an address can name. -/
inductive Backend where
  | redis
  | postgres
  | mongoDb
  | mySql
deriving DecidableEq, Repr

namespace Backend

def name : Backend → String
  | .redis => "redis"
  | .postgres => "postgres"
  | .mongoDb => "mongodb"
  | .mySql => "mysql"

def defaultPort : Backend → UInt16
  | .redis => 6379
  | .postgres => 5432
  | .mongoDb => 27017
  | .mySql => 3306

/-- The store that a scheme of any case stands for. -/
def ofScheme? (scheme : List Char) : Option Backend :=
  match String.ofList (scheme.map Char.toLower) with
  | "redis" => some .redis
  | "postgres" | "postgresql" => some .postgres
  | "mongodb" => some .mongoDb
  | "mysql" => some .mySql
  | _ => none

end Backend

/-- How much protection a connection asks for. -/
inductive SslMode where
  | disable
  /-- Encrypted if the server can. -/
  | prefer
  /-- Encrypted, whoever the server is. -/
  | require
  /-- Encrypted, with a certificate that can be traced. -/
  | verifyCa
  /-- Encrypted, with a traceable certificate for the host. -/
  | verifyFull
deriving DecidableEq, Repr

namespace SslMode

def ofName? (name : List Char) : Option SslMode :=
  match String.ofList (name.map Char.toLower) with
  | "none" | "disable" => some .disable
  | "prefer" => some .prefer
  | "require" => some .require
  | "verify-ca" => some .verifyCa
  | "verify-full" => some .verifyFull
  | _ => none

def usesTls (mode : SslMode) : Bool :=
  mode != .disable

end SslMode

structure Host where
  name : String
  port : UInt16
deriving DecidableEq, Repr

/-- An address. Options are in ascending order of their keys. -/
structure Url where
  backend : Backend
  primary : Host
  others : List Host := []
  username : Option String := none
  password : Option String := none
  database : Option String := none
  sslMode : SslMode := .disable
  options : List (String × String) := []
deriving DecidableEq, Repr

namespace Url

def invalid {α : Type} (cause : UrlError) : Except Error α :=
  .error (.invalidUrl cause)

def unescape (text : List Char) : Except Error String :=
  match Text.Percent.bytes? text with
  | none => invalid (.badEscape (String.ofList text))
  | some bytes =>
    match bytes.toText? with
    | none => invalid (.escapesNotText (String.ofList text))
    | some s => .ok s

/-- A port number; a plus sign may stand before it. -/
def readPort (text : List Char) : Except Error UInt16 :=
  let digits := match text with
    | '+' :: rest => rest
    | _ => text
  match Text.readNat? digits with
  | some n => if n < 65536 then .ok (UInt16.ofNat n) else invalid (.invalidPort (String.ofList text))
  | none => invalid (.invalidPort (String.ofList text))

/-- The name of a host and the text of its port. A name in brackets may hold colons. -/
def splitHost (spec : List Char) : Except Error (List Char × Option (List Char)) :=
  match spec with
  | '[' :: rest =>
    match cut ']' rest with
    | none => invalid (.unterminatedHost (String.ofList spec))
    | some (name, []) => .ok (name, none)
    | some (name, ':' :: port) => .ok (name, some port)
    | some _ => invalid (.textAfterHost (String.ofList spec))
  | _ =>
    match cutLast ':' spec with
    | some (name, port) => .ok (name, some port)
    | none => .ok (spec, none)

def readHost (defaultPort : UInt16) (spec : List Char) : Except Error Host := do
  let (name, port) ← splitHost spec
  if name.isEmpty then invalid .missingHost
  else
    let port ← match port with
      | some text => readPort text
      | none => pure defaultPort
    let name ← unescape name
    pure ⟨name, port⟩

/-- An empty user name is none. -/
def nonEmpty (s : String) : Option String :=
  if s.isEmpty then none else some s

/-- User name and password, as far as they are given. -/
def readCredentials : Option (List Char) → Except Error (Option String × Option String)
  | none => .ok (none, none)
  | some info =>
    match cut ':' info with
    | none => do
      let user ← unescape info
      pure (nonEmpty user, none)
    | some (user, password) => do
      let user ← unescape user
      let password ← unescape password
      pure (nonEmpty user, some password)

def trimSlashes (path : List Char) : List Char :=
  ((path.dropWhile (· == '/')).reverse.dropWhile (· == '/')).reverse

/-- The last part of a path. -/
def readDatabase (path : List Char) : Except Error (Option String) :=
  match (split '/' (trimSlashes path)).getLast? with
  | none | some [] => .ok none
  | some last => (unescape last).map some

/-- What the options say. A mode that is named wins over a switch. -/
structure Query where
  ssl : Option Bool := none
  mode : Option SslMode := none
  options : List (String × String) := []

def Query.sslMode (q : Query) : SslMode :=
  match q.mode, q.ssl with
  | some mode, _ => mode
  | none, some true => .verifyFull
  | none, _ => .disable

def readSwitch (value : String) : Except Error Bool :=
  match String.ofList (value.toList.map Char.toLower) with
  | "true" | "1" | "yes" => .ok true
  | "false" | "0" | "no" => .ok false
  | _ => invalid (.invalidSsl value)

/-- Takes in one option; of several with one key the last counts. -/
def Query.add (q : Query) (pair : List Char) : Except Error Query := do
  let (key, value) := (cut '=' pair).getD (pair, [])
  let key ← unescape key
  let value ← unescape value
  if key == "ssl" || key == "tls" then
    let switch ← readSwitch value
    pure { q with ssl := some switch }
  else if key == "sslmode" then
    match SslMode.ofName? value.toList with
    | some mode => pure { q with mode := some mode }
    | none => invalid (.invalidSslMode value)
  else pure { q with options := Value.insertEntry key value q.options }

def readQuery (query : List Char) : Except Error Query :=
  ((split '&' query).filter fun pair => !pair.isEmpty).foldlM Query.add {}

/-- An address with what stands between the scheme and the last at sign struck out. -/
def redact (url : List Char) : String :=
  match cutAt [':', '/', '/'] url, cutLast '@' url with
  | some (scheme, _), some (before, after) =>
    if scheme.length < before.length then
      String.ofList (scheme ++ "://***@".toList ++ after)
    else String.ofList url
  | _, _ => String.ofList url

/-- Cuts before the first of a character, which stays with the rest. -/
def cutBefore (mark : Char) (text : List Char) : List Char × List Char :=
  text.span (· != mark)

def ofText (text : String) : Except Error Url := do
  let url := text.toList
  match cutAt [':', '/', '/'] url with
  | none => invalid (.missingScheme (redact url))
  | some (scheme, rest) =>
    match Backend.ofScheme? scheme with
    | none => invalid (.unknownScheme (String.ofList scheme))
    | some backend =>
      let (head, query) := (cut '?' rest).getD (rest, [])
      let (authority, path) := cutBefore '/' head
      let (info, hostList) := match cutLast '@' authority with
        | some (info, hosts) => (some info, hosts)
        | none => (none, authority)
      let (username, password) ← readCredentials info
      match ← (split ',' hostList).mapM (readHost backend.defaultPort) with
      | [] => invalid .missingHost
      | primary :: others =>
        if !others.isEmpty && backend != .mongoDb then invalid (.singleHostOnly backend.name)
        else
          let database ← readDatabase path
          let query ← readQuery query
          pure { backend, primary, others, username, password, database,
                 sslMode := query.sslMode, options := query.options }

def hosts (u : Url) : List Host :=
  u.primary :: u.others

/-- A host as it is written in an address. -/
def hostText (h : Host) : String :=
  let name := if h.name.toList.contains ':' then "[" ++ h.name ++ "]" else h.name
  name ++ ":" ++ String.ofList (Text.digits h.port.toNat)

/-- The address without its password, for people to read. -/
def redacted (u : Url) : String :=
  let credentials := match u.username with
    | some user => user ++ (if u.password.isSome then ":***" else "") ++ "@"
    | none => ""
  let database := match u.database with
    | some d => "/" ++ d
    | none => ""
  u.backend.name ++ "://" ++ credentials ++ ",".intercalate (u.hosts.map hostText) ++ database

end Url

end Polystore.Connection
