import Polystore.Bson.Decimal128
import Polystore.Bson.Reader
import Polystore.Calendar.Instant
import Polystore.Number.Shortest
import Polystore.Text.Base64
import Polystore.Value.Uuid

/-!
The documents in bytes. A document with a field of a reserved name is no document but spells a value
of another type, and the fields after that one are not looked at.
-/

namespace Polystore.Bson

open Polystore.Number (Binary64)

/-- The types that a single field of a reserved name spells. -/
inductive Spelling where
  | objectId
  | symbol
  | int32
  | int64
  | double
  | decimal128
  | decimal128Octets
  | binary
  | uuid
  | timestamp
  | regex
  | reference
  | dateTime
  | minKey
  | maxKey
  | undefined
deriving DecidableEq, Repr

namespace Spelling

def ofName? : String → Option Spelling
  | "$oid" => some .objectId
  | "$symbol" => some .symbol
  | "$numberInt" => some .int32
  | "$numberLong" => some .int64
  | "$numberDouble" => some .double
  | "$numberDecimal" => some .decimal128
  | "$numberDecimalBytes" => some .decimal128Octets
  | "$binary" => some .binary
  | "$uuid" => some .uuid
  | "$timestamp" => some .timestamp
  | "$regularExpression" => some .regex
  | "$dbPointer" => some .reference
  | "$date" => some .dateTime
  | "$minKey" => some .minKey
  | "$maxKey" => some .maxKey
  | "$undefined" => some .undefined
  | _ => none

def readInt? (bits : Nat) (text : String) : Option Int := do
  let n ← Text.readInt? text.toList
  if -2 ^ (bits - 1) ≤ n ∧ n < 2 ^ (bits - 1) then pure n else none

/-- Twenty-four hexadecimal digits or twelve octets. -/
def readObjectId? : Wire → Option ObjectId
  | .leaf (.string s) => ObjectId.read? s
  | .leaf (.binary 0 octets) => ObjectId.ofOctets? octets
  | _ => none

/-- An object identifier, also if it is spelled. -/
def spelledObjectId? : Wire → Option ObjectId
  | .leaf (.objectId id) => some id
  | .document [(name, digits)] => if name = "$oid" then digits.text?.bind ObjectId.read? else none
  | .array (digits :: _) => digits.text?.bind ObjectId.read?
  | _ => none

/-- Bytes in base64, and their subtype in two hexadecimal digits. -/
def readBinary? (body subtype : String) : Option Bson := do
  let bytes ← Text.Base64.decode? body.toList
  match ← Text.Hex.decode? subtype.toList with
  | [subtype] => pure (.binary subtype bytes)
  | _ => none

/-- Milliseconds from the start of 1970: an integer in text that is spelled, or the text of an
instant, whose parts of a millisecond are cut off. -/
def readMilliseconds? : Wire → Option Int
  | .document [(name, n)] =>
    if name = "$numberLong" then n.text?.bind (readInt? 64) else none
  | .array [n] => n.text?.bind (readInt? 64)
  | wire => do
    let nanos ← Calendar.Instant.nanos? (← wire.text?).toList
    pure (nanos.tdiv 1000000)

/-- The value that a field of a reserved name spells. -/
def value? (spelling : Spelling) (wire : Wire) : Option Bson :=
  match spelling with
  | .objectId => (readObjectId? wire).map .objectId
  | .symbol => wire.text?.map .symbol
  | .int32 => (wire.text?.bind (readInt? 32)).map fun n => .int32 (Int32.ofInt n)
  | .int64 => (wire.text?.bind (readInt? 64)).map fun n => .int64 (Int64.ofInt n)
  | .double => (wire.text?.bind fun s => Binary64.read? s.toList).map .double
  | .decimal128 => (wire.text?.bind fun s => Decimal128.ofText? s.toList).map .decimal128
  | .decimal128Octets => do
    let octets ← wire.bytes?
    if octets.length = 16 then
      pure (.decimal128 ⟨BitVec.ofNat 128 (Bytes.ofLittleEndian octets)⟩)
    else none
  | .binary => do
    let (body, subtype) ← wire.pair? "base64" "subType"
    readBinary? (← body.text?) (← subtype.text?)
  | .uuid => (wire.text?.bind Uuid.read?).map fun u => .binary 4 u.octets
  | .timestamp => do
    let (time, increment) ← wire.pair? "t" "i"
    pure (.timestamp (UInt32.ofNat (← time.nat? (2 ^ 32))) (UInt32.ofNat (← increment.nat? (2 ^ 32))))
  | .regex => do
    let (pattern, options) ← wire.pair? "pattern" "options"
    pure (.regexOf (← pattern.text?) (← options.text?))
  | .reference => do
    let (collection, id) ← wire.pair? "$ref" "$id"
    pure (.reference (← collection.text?) (← spelledObjectId? id))
  | .dateTime => (readMilliseconds? wire).map fun n => .dateTime (Int64.ofInt n)
  | .minKey => if wire.nat? 256 = some 1 then some .minKey else none
  | .maxKey => if wire.nat? 256 = some 1 then some .maxKey else none
  | .undefined =>
    match wire with
    | .leaf (.bool true) => some .undefined
    | _ => none

end Spelling

mutual

def ofWire? : Wire → Option Bson
  | .broken => none
  | .leaf value => some value
  | .array items => (ofWires? items).map .array
  | .document fields => ofFields? [] fields
  | .codeWithScope source scope =>
    ((ofFields? [] scope).bind fields?).map fun scope => .codeWithScope source scope
termination_by structural wire => wire

def ofWires? : List Wire → Option (List Bson)
  | [] => some []
  | item :: rest => do
    let value ← ofWire? item
    let values ← ofWires? rest
    pure (value :: values)
termination_by structural items => items

/-- The document of the fields, after those that have been read, or the value that they spell. -/
def ofFields? (read : List (String × Bson)) : List (String × Wire) → Option Bson
  | [] => some (.document read)
  | (name, wire) :: rest =>
    if name = "$code" then
      match rest with
      | [] => wire.text?.map .code
      | (next, scope) :: _ =>
        if next = "$scope" then do
          let source ← wire.text?
          let scope ← (ofWire? scope).bind fields?
          pure (.codeWithScope source scope)
        else none
    else if name = "$scope" then
      match rest with
      | [] => none
      | (next, source) :: _ =>
        if next = "$code" then do
          let scope ← (ofWire? wire).bind fields?
          let source ← source.text?
          pure (.codeWithScope source scope)
        else none
    else
      match Spelling.ofName? name with
      | some spelling => spelling.value? wire
      | none => (ofWire? wire).bind fun value => ofFields? (insertField name value read) rest
termination_by structural fields => fields

end

/-- The document at the start of some bytes. What follows it is not looked at. -/
def ofBytes? (bytes : Bytes) : Option Bson := do
  let (inner, _) ← takeDocument bytes
  let fields ← (ofFields? [] (readFields inner.length inner)).bind fields?
  pure (.document fields)

end Polystore.Bson
