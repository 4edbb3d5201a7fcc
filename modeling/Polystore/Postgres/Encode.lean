import Polystore.Number.Approximation
import Polystore.Postgres.Numeric
import Polystore.Postgres.Type
import Polystore.Value.Convert
import Polystore.Value.Json

/-!
Values in the server's binary form: the type that a value is sent as, and its bytes as a given
type. A number that would not arrive exactly is refused.
-/

namespace Polystore.Postgres

open Polystore.Calendar (Date Time DateTime Stamp)
open Polystore.Number (Binary64 Decimal)

def stampType (s : Stamp) : Scalar :=
  match s.parts, s.offset with
  | .date _, _ => .date
  | .time _, none => .time
  | .time _, some _ => .timetz
  | .both _ _, none => .timestamp
  | .both _ _, some _ => .timestamptz

/-- The type of a single datum. A null is left to the server. -/
def scalarType? : Value → Option Scalar
  | .null => some .unknown
  | .string _ => some .text
  | .bool _ => some .bool
  | .int _ => some .int8
  | .uint _ => some .numeric
  | .decimal _ => some .numeric
  | .float _ => some .float8
  | .date s => some (stampType s)
  | .binary _ => some .bytea
  | .uuid _ => some .uuid
  | .array _ | .map _ | .payload _ => none

/-- The one type that all of several values have. -/
def commonType? : List Value → Option Scalar
  | [] => none
  | v :: rest => (scalarType? v).filter fun s => rest.all fun w => scalarType? w = some s

/-- The type that a value is sent as. An array is sent as such if its items other than nulls have one
type; any other nesting is sent as JSON. -/
def paramType (v : Value) : PgType :=
  match v with
  | .array items =>
    let present := items.filter fun item => !item.isNull
    if present.isEmpty then .arrayOf .text
    else
      match commonType? present with
      | some s => .arrayOf s
      | none => .scalar .jsonb
  | .map _ => .scalar .jsonb
  | .payload p => if p.format = .json then .scalar .jsonb else .scalar .bytea
  | v => .scalar ((scalarType? v).getD .text)

def mismatch {α : Type} (v : Value) (type : PgType) : Except Error α :=
  .error (.unsupportedType "postgres" (v.kind.name ++ " as " ++ type.name))

def word (width : Nat) (i : Int) : Bytes :=
  Bytes.bigEndian width (Bytes.unsigned (8 * width) i)

/-- The bytes of an image: four words, then the digits. -/
def Numeric.bytes (n : Numeric) : Bytes :=
  word 2 n.digits.length ++ word 2 n.weight ++ word 2 n.sign ++ word 2 n.places ++
    n.digits.flatMap (word 2)

def encodeDecimal (d : Decimal) : Bytes :=
  (Numeric.ofDecimal d).bytes

/-- An integer as a word of so many bytes, if it fits. -/
def encodeWord (width : Nat) (target : String) (i : Int) : Except Error Bytes :=
  if -(2 ^ (8 * width - 1)) ≤ i ∧ i < 2 ^ (8 * width - 1) then .ok (word width i)
  else Value.overflow (Value.intText i) target

def encodeInteger (v : Value) (i : Int) (d : Decimal) (type : PgType) : Except Error Bytes :=
  match type with
  | .scalar .int8 => encodeWord 8 "int8" i
  | .scalar .int4 => encodeWord 4 "int4" i
  | .scalar .int2 => encodeWord 2 "int2" i
  | .scalar .numeric => .ok (encodeDecimal d)
  | type => mismatch v type

def encodeFloatNumeric (x : Binary64) : Except Error Bytes :=
  if x.isNaN then .ok (Numeric.special Numeric.notANumber).bytes
  else if x.isInfinite then
    .ok (Numeric.special (if x.isNegative then Numeric.negativeInfinity
      else Numeric.positiveInfinity)).bytes
  else
    match Decimal.ofBinary64? x with
    | some d => .ok (encodeDecimal d)
    | none => Value.overflow x.display "numeric"

def encodeFloat (x : Binary64) (type : PgType) : Except Error Bytes :=
  match type with
  | .scalar .float8 => .ok (Bytes.bigEndian 8 x.bits.toNat)
  | .scalar .float4 =>
    if x.isFinite && !x.narrow.widen.numEq x then Value.overflow x.display "float4"
    else .ok (Bytes.bigEndian 4 x.narrow.bits.toNat)
  | .scalar .numeric => encodeFloatNumeric x
  | type => mismatch (.float x) type

/-- The first of January 2000, in days after the first of January 1970. -/
def epochDay : Int := 10957

/-- Microseconds from the first of January 2000; parts of one are dropped toward that day. -/
def epochMicros (t : DateTime) : Int :=
  (t.nanos - epochDay * 86400000000000).tdiv 1000

def timeMicros (t : Time) : Int :=
  (t.second : Int) * 1000000 + (t.nano / 1000 : Nat)

def encodeStamp (s : Stamp) (type : PgType) : Except Error Bytes :=
  match type, s.parts with
  | .scalar .date, .date d | .scalar .date, .both d _ => .ok (word 4 (d.dayNumber - epochDay))
  | .scalar .time, .time t => .ok (word 8 (timeMicros t))
  | .scalar .timetz, .time t =>
    let east := (s.offset.map fun o => o.seconds).getD 0
    .ok (word 8 (timeMicros t) ++ word 4 (-east))
  | .scalar .timestamp, .both d t => .ok (word 8 (epochMicros ⟨d, t⟩))
  | .scalar .timestamptz, .both d t =>
    .ok (word 8 (epochMicros (s.toUtc.local?.getD ⟨d, t⟩)))
  | type, _ => mismatch (.date s) type

def jsonbVersion : UInt8 := 1

/-- The JSON text of a value, after a version byte in the binary variant of the type. -/
def encodeJson (v : Value) (type : PgType) : Except Error Bytes :=
  match type with
  | .scalar .jsonb => v.toJsonBytes.map (jsonbVersion :: ·)
  | .scalar .json => v.toJsonBytes
  | type => mismatch v type

def encodePayload (p : Payload) (type : PgType) : Except Error Bytes :=
  match p.format, type with
  | .json, .scalar .jsonb => .ok (jsonbVersion :: p.bytes)
  | .json, .scalar .json => .ok p.bytes
  | _, .scalar .bytea => .ok p.bytes
  | _, type => mismatch (.payload p) type

/-- The header of an array of one dimension, counted from one. -/
def arrayHeader (items : List Value) (element : PgType) : Bytes :=
  word 4 1 ++ word 4 (if items.any Value.isNull then 1 else 0) ++
    Bytes.bigEndian 4 element.number ++ word 4 items.length ++ word 4 1

/-- An item after its length; a null has length minus one and no bytes. -/
def framed : Option Bytes → Except Error Bytes
  | none => .ok (word 4 (-1))
  | some bytes =>
    if bytes.length < 2 ^ 31 then .ok (word 4 bytes.length ++ bytes)
    else .error (.malformed .elementTooLarge)

mutual

/-- The bytes of a value as a type, or nothing for null. -/
def encode : Value → PgType → Except Error (Option Bytes)
  | .null, _ => .ok none
  | .bool b, type =>
    if type = .scalar .bool then .ok (some [if b then 1 else 0]) else mismatch (.bool b) type
  | .string s, type =>
    if type.isText then .ok (some (Bytes.ofText s)) else mismatch (.string s) type
  | .int n, type => (encodeInteger (.int n) n.toInt (.ofInt64 n) type).map some
  | .uint n, type => (encodeInteger (.uint n) n.toNat (.ofUInt64 n) type).map some
  | .float x, type => (encodeFloat x type).map some
  | .decimal d, type =>
    if type = .scalar .numeric then .ok (some (encodeDecimal d)) else mismatch (.decimal d) type
  | .date s, type => (encodeStamp s type).map some
  | .binary bytes, type =>
    if type = .scalar .bytea then .ok (some bytes) else mismatch (.binary bytes) type
  | .uuid u, type =>
    if type = .scalar .uuid then .ok (some u.octets)
    else if type.isText then .ok (some (Bytes.ofText u.text))
    else mismatch (.uuid u) type
  | .array items, type =>
    match type.element? with
    | some element =>
      if items.length < 2 ^ 31 then
        (encodeItems items element).map fun bytes => some (arrayHeader items element ++ bytes)
      else .error (.malformed .arrayTooLong)
    | none => (encodeJson (.array items) type).map some
  | .map entries, type => (encodeJson (.map entries) type).map some
  | .payload p, type => (encodePayload p type).map some
termination_by structural v => v

def encodeItems : List Value → PgType → Except Error Bytes
  | [], _ => .ok []
  | v :: rest, element => do
    let item ← encode v element
    let bytes ← framed item
    let more ← encodeItems rest element
    pure (bytes ++ more)
termination_by structural items => items

end

end Polystore.Postgres
