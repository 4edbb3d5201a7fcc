import Polystore.Bson.Extended
import Polystore.Value.Convert
import Polystore.Value.Json

/-!
Values as documents of the document store. Stamps that are not instants travel as texts; instants
keep whole milliseconds and come back at offset zero; whole numbers past the signed range travel as
decimals; object identifiers come back as their texts.
-/

namespace Polystore

open Polystore.Calendar (Stamp DateTime)
open Polystore.Number (Decimal)

namespace Bson

def rawSubtype : UInt8 := 0x80

def messagePackSubtype : UInt8 := 0x81

def ofDecimal (d : Decimal) : Bson :=
  .decimal128 (Decimal128.ofDecimal d)

def ofUInt64 (n : UInt64) : Bson :=
  (Value.int64? n.toNat).elim (ofDecimal (.ofUInt64 n)) .int64

def ofStamp (s : Stamp) : Bson :=
  match s.instant? with
  | some t => .dateTime (Int64.ofInt t.milliseconds)
  | none => .string s.iso

mutual

/-- The document value with the content of a JSON document. -/
def ofJson : Json → Bson
  | .null => .null
  | .bool b => .bool b
  | .integer i => if i < 2 ^ 63 then .int64 (Int64.ofInt i) else ofUInt64 (UInt64.ofNat i.toNat)
  | .float x => .double x
  | .string s => .string s
  | .array items => .array (ofJsonItems items)
  | .object members => .document (Value.sortEntries (ofJsonMembers members))
termination_by structural json => json

def ofJsonItems : List Json → List Bson
  | [] => []
  | item :: rest => ofJson item :: ofJsonItems rest
termination_by structural items => items

def ofJsonMembers : List (String × Json) → List (String × Bson)
  | [] => []
  | (name, value) :: rest => (name, ofJson value) :: ofJsonMembers rest
termination_by structural members => members

end

def ofPayload (p : Payload) : Except Error Bson :=
  match p.format with
  | .bson =>
    match Bson.ofBytes? p.bytes with
    | some read => .ok read
    | none => .error (.malformed (.foreign .bson))
  | .json =>
    match Json.ofBytes? p.bytes with
    | some json => .ok (ofJson json)
    | none => .error (.malformed (.foreign .json))
  | .messagePack => .ok (.binary messagePackSubtype p.bytes)
  | .raw => .ok (.binary rawSubtype p.bytes)

mutual

def ofValue : Value → Except Error Bson
  | .null => .ok .null
  | .bool b => .ok (.bool b)
  | .string s => .ok (.string s)
  | .int n => .ok (.int64 n)
  | .uint n => .ok (ofUInt64 n)
  | .float x => .ok (.double x)
  | .decimal d => .ok (ofDecimal d)
  | .date s => .ok (ofStamp s)
  | .binary bytes => .ok (.binary 0 bytes)
  | .uuid u => .ok (.binary 4 u.octets)
  | .array items => (ofItems items).map .array
  | .map entries => (ofEntries entries).map .document
  | .payload p => ofPayload p
termination_by structural v => v

def ofItems : List Value → Except Error (List Bson)
  | [] => .ok []
  | v :: rest => do
    let item ← ofValue v
    let items ← ofItems rest
    pure (item :: items)
termination_by structural items => items

def ofEntries : List (String × Value) → Except Error (List (String × Bson))
  | [] => .ok []
  | (k, v) :: rest => do
    let field ← ofValue v
    let fields ← ofEntries rest
    pure ((k, field) :: fields)
termination_by structural entries => entries

end

def unsupported {α : Type} (description : String) : Except Error α :=
  .error (.unsupportedType "mongodb" description)

/-- Words that are no numbers give floats. -/
def ofDecimal128 (w : Decimal128) : Except Error Value :=
  match w.read with
  | .notANumber => .ok (.float .nan)
  | .infinite negative => .ok (.float (if negative then .negInfinity else .infinity))
  | .finite negative coefficient exponent =>
    match Decimal128.toDecimal? negative coefficient exponent with
    | some d => .ok (.decimal d)
    | none => unsupported "decimal128 beyond decimal range"

def ofBinary (subtype : UInt8) (bytes : Bytes) : Except Error Value :=
  if subtype = 3 ∨ subtype = 4 then
    match Uuid.ofOctets? bytes with
    | some u => .ok (.uuid u)
    | none => .error (.malformed (.foreign .uuid))
  else if subtype = rawSubtype then .ok (.payload ⟨.raw, bytes⟩)
  else if subtype = messagePackSubtype then .ok (.payload ⟨.messagePack, bytes⟩)
  else .ok (.binary bytes)

def ofMilliseconds (milliseconds : Int) : Except Error Value :=
  (DateTime.ofNanos? (milliseconds * 1000000)).elim (unsupported "out-of-range datetime")
    fun t => .ok (.date (.zoned t .utc))

mutual

def toValue : Bson → Except Error Value
  | .null | .undefined => .ok .null
  | .bool b => .ok (.bool b)
  | .string s => .ok (.string s)
  | .int32 n => .ok (.int n.toInt64)
  | .int64 n => .ok (.int n)
  | .double x => .ok (.float x)
  | .decimal128 w => ofDecimal128 w
  | .dateTime milliseconds => ofMilliseconds milliseconds.toInt
  | .binary subtype bytes => ofBinary subtype bytes
  | .objectId id => .ok (.string id.text)
  | .timestamp time increment =>
    .ok (.uint (UInt64.ofNat (time.toNat * 2 ^ 32 + increment.toNat)))
  | .array items => (toValues items).map .array
  | .document fields => (toEntries fields).map Value.mapOf
  | b => unsupported b.typeName
termination_by structural b => b

def toValues : List Bson → Except Error (List Value)
  | [] => .ok []
  | b :: rest => do
    let v ← b.toValue
    let vs ← toValues rest
    pure (v :: vs)
termination_by structural items => items

def toEntries : List (String × Bson) → Except Error (List (String × Value))
  | [] => .ok []
  | (k, b) :: rest => do
    let v ← b.toValue
    let entries ← toEntries rest
    pure ((k, v) :: entries)
termination_by structural fields => fields

end

end Bson

namespace ObjectId

/-- An object identifier is given by 24 hexadecimal digits or by 12 bytes. -/
def ofValue : Value → Except Error ObjectId
  | .string s =>
    match read? s with
    | some id => .ok id
    | none => .error (.invalidObjectId s)
  | .binary bytes =>
    match ofOctets? bytes with
    | some id => .ok id
    | none => .error (.invalidObjectId (toString bytes.length ++ " bytes"))
  | v => .error (.invalidObjectId v.kind.name)

end ObjectId

/-- Literals compared with the primary key are sent as object identifiers if they look like one. -/
def Bson.ofKeyLiteral (v : Value) : Except Error Bson :=
  match ObjectId.ofValue v with
  | .ok id => .ok (.objectId id)
  | .error _ => ofValue v

end Polystore
