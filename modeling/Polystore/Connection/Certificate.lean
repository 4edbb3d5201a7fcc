import Polystore.Connection.Config
import Polystore.Text.Base64
import Polystore.Text.Blank

/-!
Certificates that a connection trusts, and what has to be in order before a PostgreSQL server is
called.
-/

namespace Polystore.Connection

namespace Certificate

def opening : List Char := "-----BEGIN CERTIFICATE-----".toList

def closing : List Char := "-----END CERTIFICATE-----".toList

def contains (mark line : List Char) : Bool :=
  (Text.cutAt mark line).isSome

def invalid {α : Type} (cause : ConfigurationError) : Except Error α :=
  .error (.invalidConfiguration cause)

/-- How far a bundle is read: whether a block is open, the text in it, and the blocks so far. -/
structure Progress where
  isOpen : Bool := false
  body : List Char := []
  blocks : List Bytes := []

/-- Takes in one line. A block without text is passed over. -/
def Progress.add (p : Progress) (line : List Char) : Except Error Progress :=
  if contains opening line then .ok { p with isOpen := true, body := [] }
  else if contains closing line then
    if p.body.isEmpty then .ok { p with isOpen := false }
    else
      match Text.Base64.decode? p.body with
      | some block => .ok { p with isOpen := false, blocks := p.blocks ++ [block] }
      | none => invalid .badCertificateBase64
  else if p.isOpen then .ok { p with body := p.body ++ Text.trim line }
  else .ok p

def ofBundle (bundle : Bytes) : Except Error (List Bytes) := do
  match bundle.toText? with
  | none => invalid .certificatesNotText
  | some text =>
    let p ← (Text.lines text.toList).foldlM Progress.add {}
    if p.blocks.isEmpty then invalid .noCertificates else pure p.blocks

end Certificate

/-- How the server is called. -/
inductive Protection where
  | plain
  /-- Encrypted, with no look at the certificate. -/
  | unchecked
  /-- Encrypted; the certificates given are trusted, or those of the system if there are none. -/
  | checked (trusted : List Bytes)
deriving DecidableEq, Repr

/-- The certificates that the configuration names. They have to be there and to be readable. -/
def Config.trusted (c : Config) (file : String → Option Bytes) (isCertificate : Bytes → Bool) :
    Except Error (List Bytes) :=
  match c.certificatePath with
  | none => .ok []
  | some path =>
    match file path with
    | none => Certificate.invalid .unreadableCertificates
    | some bundle => do
      let blocks ← Certificate.ofBundle bundle
      if blocks.all isCertificate then pure blocks else Certificate.invalid .badCertificate

/-- What the PostgreSQL server is called with. The modes that verify accept no invalid certificate,
whatever the configuration says. -/
def Config.plan (c : Config) (environment : Option String) (file : String → Option Bytes)
    (isCertificate : Bytes → Bool) : Except Error (String × Protection) := do
  let u ← c.parsedUrl
  if u.backend = .postgres then
    let text ← c.connectionString environment
    let verifies := u.sslMode = .verifyCa ∨ u.sslMode = .verifyFull
    if u.sslMode = .disable then pure (text, .plain)
    else if c.acceptInvalidCertificates ∧ ¬verifies then pure (text, .unchecked)
    else
      let trusted ← c.trusted file isCertificate
      pure (text, .checked trusted)
  else Certificate.invalid (.notPostgres c.name)

end Polystore.Connection
