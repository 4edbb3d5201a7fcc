import Polystore.Error.Backend
import Polystore.Number.DecimalText
import Polystore.Text.Quoted

/-!
Everything that can go wrong, as causes, and the wording of each cause in one place. A cause that
is worded by the reader of a foreign format has no text of its own.
-/

namespace Polystore

open Polystore.Text.Quoted (quote quoteChar)

/-- What is wrong with a connection address. -/
inductive UrlError where
  | missingScheme (redacted : String)
  | unknownScheme (scheme : String)
  | singleHostOnly (backend : String)
  | invalidSsl (value : String)
  | invalidSslMode (value : String)
  | unterminatedHost (host : String)
  | textAfterHost (host : String)
  | missingHost
  | invalidPort (port : String)
  | badEscape (text : String)
  | escapesNotText (text : String)
deriving DecidableEq, Repr

def UrlError.message : UrlError → String
  | .missingScheme url => "missing scheme in " ++ quote url
  | .unknownScheme scheme => "unknown scheme " ++ quote scheme
  | .singleHostOnly backend => backend ++ " URLs take a single host"
  | .invalidSsl value => "invalid ssl value " ++ quote value
  | .invalidSslMode value => "invalid sslmode " ++ quote value
  | .unterminatedHost host => "unterminated IPv6 host " ++ quote host
  | .textAfterHost host => "unexpected text after IPv6 host " ++ quote host
  | .missingHost => "missing host"
  | .invalidPort port => "invalid port " ++ quote port
  | .badEscape text => "bad percent escape in " ++ quote text
  | .escapesNotText text => "percent escapes in " ++ quote text ++ " are not UTF-8"

/-- What is wrong with a configuration. -/
inductive ConfigurationError where
  | keyWithoutColumns
  | wrongBackend (name backend : String)
  | notPostgres (name : String)
  | unreadableCertificates
  | certificatesNotText
  | badCertificateBase64
  | badCertificate
  | noCertificates
deriving DecidableEq, Repr

def ConfigurationError.message : ConfigurationError → String
  | .keyWithoutColumns => "primary key without columns"
  | .wrongBackend name backend => name ++ " is a " ++ backend ++ " URL, not PostgreSQL"
  | .notPostgres name => name ++ " is not a PostgreSQL connection"
  | .unreadableCertificates => "failed to read CA certificate file"
  | .certificatesNotText => "CA certificate file is not valid UTF-8"
  | .badCertificateBase64 => "failed to decode certificate base64"
  | .badCertificate => "failed to parse certificate"
  | .noCertificates => "no valid certificates found in PEM data"

/-- What is wrong with an expression, a statement or a request for a column. -/
inductive ExpressionError where
  | emptyStamp
  | noColumn (name : String)
  | unknownRegexOption (letter : Char)
  | emptyMembership
  | noConjuncts
  | noDisjuncts
  | emptyConnective
  | emptyAnd
  | emptyOr
  | twoLiterals
  | orderAgainstNull (operator : String)
  | likeWithoutKey
  | patternWithoutKey
  | betweenWithoutKey
  | betweenNull
  | betweenNotLiteral
  | membershipOperands
  | documentMembershipOperands
  | membershipNeedsList
  | compositeOperator
  | compositeOperand
  | compositeCount (columns values : Nat)
  | compositeColumn (column : String)
  | compositeKind (kind : String)
  | reuseBeforeBind (index : Nat)
  | embeddedDialect (inner outer : String)
  | sentToWrongBackend (statement connection : String)
  | stated (text : String)
deriving DecidableEq, Repr

def ExpressionError.message : ExpressionError → String
  | .emptyStamp => "date components need a date, a time or both"
  | .noColumn name => "no column named " ++ quote name
  | .unknownRegexOption letter => "unknown regex option " ++ quoteChar letter
  | .emptyMembership => "IN requires at least one value"
  | .noConjuncts => "AND of no predicates"
  | .noDisjuncts => "OR of no predicates"
  | .emptyConnective => "empty AND/OR"
  | .emptyAnd => "empty AND"
  | .emptyOr => "empty OR"
  | .twoLiterals => "comparison between two literals"
  | .orderAgainstNull operator => operator ++ " against NULL"
  | .likeWithoutKey => "LIKE without a key"
  | .patternWithoutKey => "pattern without a key"
  | .betweenWithoutKey => "BETWEEN without a key"
  | .betweenNull => "BETWEEN with a NULL bound"
  | .betweenNotLiteral => "BETWEEN bounds must be literals in a filter"
  | .membershipOperands => "IN needs a key and a list of values"
  | .documentMembershipOperands => "unsupported IN operand pairing for documents"
  | .membershipNeedsList => "IN needs a key or a list of values"
  | .compositeOperator => "composite primary key only supports equality and inequality"
  | .compositeOperand => "composite primary key can only be compared with a literal"
  | .compositeCount columns values =>
    "composite primary key has " ++ toString columns ++ " columns, got " ++ toString values ++
      " values"
  | .compositeColumn column => "missing primary key column " ++ column
  | .compositeKind kind => "composite primary key compared with a " ++ kind
  | .reuseBeforeBind index => "bind reuse " ++ toString index ++ " refers to no earlier bind"
  | .embeddedDialect inner outer =>
    "cannot embed a " ++ inner ++ " statement in a " ++ outer ++ " statement"
  | .sentToWrongBackend statement connection =>
    statement ++ " statement sent to a " ++ connection ++ " connection"
  | .stated text => text

/-- The formats whose readers word their own complaints. -/
inductive ForeignFormat where
  | utf8
  | json
  | uuid
  | bson
deriving DecidableEq, Repr

/-- What is wrong with a value on the wire. -/
inductive WireError where
  | foreign (format : ForeignFormat)
  | truncated (needed found : Nat)
  | numericSign (word : Nat)
  | negativeDigitCount
  | negativeDimensions
  | negativeLength
  | arrayTooLong
  | elementTooLarge
  | timeOfDay (micros : Int)
  | zoneOffset (seconds : Int)
  | jsonbVersion
  | decimalText (text : String) (cause : Number.Decimal.ReadError)
  | stated (text : String)
deriving DecidableEq, Repr

def WireError.message? : WireError → Option String
  | .foreign _ => none
  | .truncated needed found =>
    some ("expected " ++ toString needed ++ " more bytes, found " ++ toString found)
  | .numericSign word =>
    some ("numeric sign word 0x" ++ String.ofList (Text.padLeft 4 '0' (Text.Hex.ofNat word)))
  | .negativeDigitCount => some "negative numeric digit count"
  | .negativeDimensions => some "negative array dimension count"
  | .negativeLength => some "negative array length"
  | .arrayTooLong => some "array too long"
  | .elementTooLarge => some "array element too large"
  | .timeOfDay micros =>
    some ("time of day " ++ String.ofList (Text.integer micros) ++ "us out of range")
  | .zoneOffset seconds =>
    some ("time zone offset " ++ String.ofList (Text.integer seconds) ++ "s out of range")
  | .jsonbVersion => some "unknown jsonb version"
  | .decimalText text cause =>
    some ("invalid decimal text " ++ quote text ++ ": " ++ cause.message)
  | .stated text => some text

/-- Every failure that reaches a caller. -/
inductive Error where
  | invalidUrl (cause : UrlError)
  | invalidConfiguration (cause : ConfigurationError)
  /-- A value cannot cross the boundary of a backend. -/
  | unsupportedType (backend description : String)
  /-- A number does not fit where it should go. -/
  | numericOverflow (value target : String)
  /-- The dialect lacks something that was asked for. -/
  | unsupportedOperation (dialect operation : String)
  | invalidExpression (cause : ExpressionError)
  | objectNotFound
  | invalidObjectId (text : String)
  /-- A transaction was started by a caller that already holds the connection. -/
  | transactionDeadlock
  /-- Rolling back failed too; the error that led to it is kept. -/
  | rollbackFailed (rollback cause : Error)
  /-- A server reported it, or could not be reached. -/
  | server (failure : BackendError)
  | malformed (cause : WireError)
deriving DecidableEq

namespace Error

def kind : Error → String
  | .invalidUrl _ => "InvalidUrl"
  | .invalidConfiguration _ => "InvalidConfiguration"
  | .unsupportedType _ _ => "UnsupportedType"
  | .numericOverflow _ _ => "NumericOverflow"
  | .unsupportedOperation _ _ => "UnsupportedOperation"
  | .invalidExpression _ => "InvalidExpression"
  | .objectNotFound => "ObjectNotFound"
  | .invalidObjectId _ => "InvalidObjectId"
  | .transactionDeadlock => "TransactionDeadlock"
  | .rollbackFailed _ _ => "RollbackFailed"
  | .server _ => "Backend"
  | .malformed _ => "Codec"

/-- The wording, as far as it is this library's own. -/
def message? : Error → Option String
  | .invalidUrl cause => some ("invalid connection URL: " ++ cause.message)
  | .invalidConfiguration cause => some ("invalid configuration: " ++ cause.message)
  | .unsupportedType backend description =>
    some (backend ++ " cannot represent " ++ description)
  | .numericOverflow value target => some (value ++ " does not fit in " ++ target)
  | .unsupportedOperation dialect operation =>
    some (dialect ++ " does not support " ++ operation)
  | .invalidExpression cause => some ("invalid expression: " ++ cause.message)
  | .objectNotFound => some "object not found"
  | .invalidObjectId text => some ("invalid object id: " ++ text)
  | .transactionDeadlock =>
    some "transaction deadlock: the connection is already held by this call path"
  | .rollbackFailed rollback cause => do
    let first ← rollback.message?
    let second ← cause.message?
    pure ("rollback failed: " ++ first ++ " (after: " ++ second ++ ")")
  | .server failure => some failure.text
  | .malformed cause => cause.message?.map fun text => "malformed wire value: " ++ text

/-- Serialization failures and detected deadlocks, which are worth another attempt. -/
def isConflict : Error → Bool
  | .server failure => failure.isConflict
  | _ => false

end Error

end Polystore
