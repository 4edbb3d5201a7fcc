import Polystore.Connection.Url
import Polystore.Transaction.Options

/-!
The configuration of a connection, and the key and value text that a PostgreSQL client is opened
with.
-/

namespace Polystore.Connection

open Polystore.Transaction (Isolation)

structure Config where
  name : String := "Local PostgreSQL"
  url : String := "postgres://postgres@localhost:5432/postgres"
  /-- Wins over the password in the address unless it is empty. -/
  password : String := ""
  isolation : Isolation := .default
  retryOnConflict : Bool := false
  maxAttempts : Option UInt32 := none
  connectTimeout : UInt64 := 15
  acceptInvalidCertificates : Bool := false
  certificatePath : Option String := none
deriving DecidableEq, Repr

namespace Config

def parsedUrl (c : Config) : Except Error Url :=
  Url.ofText c.url

/-- The configuration for an address, which has to be a good one. -/
def ofUrl (name url : String) : Except Error Config := do
  let c : Config := { name, url }
  let _ ← c.parsedUrl
  pure c

/-- The password that is sent: the one configured, or that of the address, or that of the environment
for PostgreSQL. -/
def effectivePassword (c : Config) (environment : Option String) (u : Url) : Option String :=
  if !c.password.isEmpty then some c.password
  else
    match u.password with
    | some p => some p
    | none => if u.backend = .postgres then environment else none

/-- A value between single quotes, with a backslash before quotes and backslashes inside. -/
def quoteValue (value : String) : String :=
  String.ofList ('\'' ::
    value.toList.flatMap (fun c => if c = '\'' ∨ c = '\\' then ['\\', c] else [c]) ++ ['\''])

def pair (key value : String) : String :=
  key ++ "=" ++ value

def quotedPair (key : String) (value : Option String) : List String :=
  (value.map fun v => pair key (quoteValue v)).toList

/-- The client itself knows three modes; certificates are looked at elsewhere. -/
def clientSslMode : SslMode → String
  | .disable => "disable"
  | .prefer => "prefer"
  | .require | .verifyCa | .verifyFull => "require"

def connectionString (c : Config) (environment : Option String) : Except Error String := do
  let u ← c.parsedUrl
  if u.backend = .postgres then
    let parts :=
      [pair "host" (quoteValue u.primary.name),
        pair "port" (String.ofList (Text.digits u.primary.port.toNat))] ++
      quotedPair "dbname" u.database ++ quotedPair "user" u.username ++
      quotedPair "password" (c.effectivePassword environment u) ++
      quotedPair "application_name" (u.options.lookup "application_name") ++
      [pair "sslmode" (clientSslMode u.sslMode),
        pair "connect_timeout" (String.ofList (Text.digits c.connectTimeout.toNat))]
    pure (" ".intercalate parts)
  else .error (.invalidConfiguration (.wrongBackend c.name u.backend.name))

/-- Name and address without the password; the name alone if the address is no good. -/
def display (c : Config) : String :=
  match c.parsedUrl with
  | .ok u => c.name ++ " (" ++ u.redacted ++ ")"
  | .error _ => c.name

def transactionOptions (c : Config) : Transaction.Options where
  isolation := c.isolation
  retry := if c.retryOnConflict then .onConflict c.maxAttempts else .never

def timeoutMilliseconds (c : Config) : Nat :=
  1000 * c.connectTimeout.toNat

end Config

end Polystore.Connection
