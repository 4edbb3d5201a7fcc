import Polystore.Postgres.Numeric
import Polystore.Postgres.Type
import Polystore.Value.Json

/-!
Values out of the server's binary form. Time stamps at an offset come back at offset zero, and
numbers that are none come back as floats.
-/

namespace Polystore.Postgres

open Polystore.Calendar (Date Time DateTime Offset Stamp)
open Polystore.Number (Binary32 Binary64 Decimal)

def take (n : Nat) (bytes : Bytes) : Except Error (Bytes × Bytes) :=
  if n ≤ bytes.length then .ok (bytes.take n, bytes.drop n)
  else .error (.malformed (.truncated n bytes.length))

def readWord (width : Nat) (bytes : Bytes) : Except Error (Nat × Bytes) :=
  (take width bytes).map fun (word, rest) => (Bytes.ofBigEndian word, rest)

def readSigned (width : Nat) (bytes : Bytes) : Except Error (Int × Bytes) :=
  (readWord width bytes).map fun (n, rest) => (Bytes.signed (8 * width) n, rest)

def readMany {α : Type} (reader : Bytes → Except Error (α × Bytes)) :
    Nat → Bytes → Except Error (List α × Bytes)
  | 0, bytes => .ok ([], bytes)
  | n + 1, bytes => do
    let (a, rest) ← reader bytes
    let (as, rest) ← readMany reader n rest
    pure (a :: as, rest)

def unsupported {α : Type} (description : String) : Except Error α :=
  .error (.unsupportedType "postgres" description)

def Numeric.toValue (n : Numeric) : Except Error Value :=
  match Decimal.read n.text with
  | .ok d => .ok (.decimal d)
  | .error _ => unsupported ("numeric " ++ String.ofList n.text ++ " beyond decimal range")

/-- An exact number. The sign word is looked at before the digits. -/
def decodeNumeric (bytes : Bytes) : Except Error Value := do
  let (count, rest) ← readSigned 2 bytes
  let (weight, rest) ← readSigned 2 rest
  let (sign, rest) ← readWord 2 rest
  let (places, rest) ← readWord 2 rest
  if sign = Numeric.notANumber then .ok (.float .nan)
  else if sign = Numeric.positiveInfinity then .ok (.float .infinity)
  else if sign = Numeric.negativeInfinity then .ok (.float .negInfinity)
  else if sign = Numeric.positive ∨ sign = Numeric.negative then
    if count < 0 then .error (.malformed .negativeDigitCount)
    else
      let (digits, _) ← readMany (readSigned 2) count.toNat rest
      Numeric.toValue ⟨digits, weight, sign, places⟩
  else .error (.malformed (.numericSign sign))

/-- The ends of the range stand for infinite dates. -/
def decodeDate (days : Int) : Except Error Value :=
  if days = 2 ^ 31 - 1 ∨ days = -(2 ^ 31) then unsupported "infinite date"
  else
    match Date.ofDayNumber? (days + 10957) with
    | some d => .ok (.date (.ofDate d))
    | none => unsupported "out-of-range date"

def timeOfMicros (micros : Int) : Except Error Time :=
  let second := micros / 1000000
  match if 0 ≤ second then Time.ofSecond? second.toNat ((micros % 1000000).toNat * 1000) else none with
  | some t => .ok t
  | none => .error (.malformed (.timeOfDay micros))

/-- Microseconds are counted from the first of January 2000. -/
def dateTimeOfMicros (micros : Int) : Except Error DateTime :=
  match DateTime.ofNanos? ((micros + 10957 * 86400000000) * 1000) with
  | some t => .ok t
  | none => unsupported "infinite or out-of-range timestamp"

/-- The wire counts offsets to the west. -/
def decodeTimetz (bytes : Bytes) : Except Error Value := do
  let (micros, rest) ← readSigned 8 bytes
  let time ← timeOfMicros micros
  let (west, _) ← readSigned 4 rest
  match Offset.ofSeconds? (-west) with
  | some offset => .ok (.date ⟨.time time, some offset, none⟩)
  | none => .error (.malformed (.zoneOffset west))

def decodeText (bytes : Bytes) : Except Error Value :=
  match bytes.toText? with
  | some s => .ok (.string s)
  | none => .error (.malformed (.foreign .utf8))

/-- A value of a built-in type that is no array. What follows the value is not looked at where the
type has a fixed width. -/
def decodeScalar (type : Scalar) (bytes : Bytes) : Except Error Value :=
  match type with
  | .bool => (readWord 1 bytes).map fun (n, _) => .bool (n != 0)
  | .int2 => (readSigned 2 bytes).map fun (i, _) => .int (Int64.ofInt i)
  | .int4 => (readSigned 4 bytes).map fun (i, _) => .int (Int64.ofInt i)
  | .int8 => (readSigned 8 bytes).map fun (i, _) => .int (Int64.ofInt i)
  | .oid => (readWord 4 bytes).map fun (n, _) => .int (Int64.ofInt n)
  | .float4 =>
    (readWord 4 bytes).map fun (n, _) => .float (Binary32.widen ⟨UInt32.ofNat n⟩)
  | .float8 => (readWord 8 bytes).map fun (n, _) => .float ⟨UInt64.ofNat n⟩
  | .numeric => decodeNumeric bytes
  | .bytea => .ok (.binary bytes)
  | .uuid =>
    match Uuid.ofOctets? bytes with
    | some u => .ok (.uuid u)
    | none => .error (.malformed (.foreign .uuid))
  | .date => (readSigned 4 bytes).bind fun (days, _) => decodeDate days
  | .time => do
    let (micros, _) ← readSigned 8 bytes
    let time ← timeOfMicros micros
    pure (.date (.ofTime time))
  | .timetz => decodeTimetz bytes
  | .timestamp => do
    let (micros, _) ← readSigned 8 bytes
    let t ← dateTimeOfMicros micros
    pure (.date (.ofDateTime t))
  | .timestamptz => do
    let (micros, _) ← readSigned 8 bytes
    let t ← dateTimeOfMicros micros
    pure (.date (.zoned t .utc))
  | .json => Value.ofJsonBytes bytes
  | .jsonb =>
    match bytes with
    | 1 :: rest => Value.ofJsonBytes rest
    | _ => .error (.malformed .jsonbVersion)
  | .text | .varchar | .bpchar | .name | .unknown => decodeText bytes
  | .point => unsupported "point"
  | .other name _ => unsupported name

/-- An item after its length; a negative length stands for null. -/
def readItem (decode : Bytes → Except Error Value) (bytes : Bytes) :
    Except Error (Value × Bytes) := do
  let (length, rest) ← readSigned 4 bytes
  if length < 0 then pure (.null, rest)
  else
    let (item, rest) ← take length.toNat rest
    let v ← decode item
    pure (v, rest)

/-- The length of a dimension; its lower bound is passed over. -/
def readDimension (bytes : Bytes) : Except Error (Nat × Bytes) := do
  let (length, rest) ← readSigned 4 bytes
  let (_, rest) ← readSigned 4 rest
  if length < 0 then .error (.malformed .negativeLength) else pure (length.toNat, rest)

/-- Cuts a list into arrays of a length; the fuel bounds their number. -/
def chunks (length : Nat) : Nat → List Value → List Value
  | 0, _ => []
  | fuel + 1, items =>
    let chunk := items.take length
    if chunk.isEmpty then [] else .array chunk :: chunks length fuel (items.drop length)

/-- Groups the items of the innermost dimension first. -/
def nest (lengths : List Nat) (items : List Value) : List Value :=
  lengths.foldr (fun length items => chunks length items.length items) items

/-- The number of items of an array, counted in a 64-bit word. -/
def itemCount (lengths : List Nat) : Nat :=
  (lengths.foldl (fun count length => count * UInt64.ofNat length) 1).toNat

/-- An array of any number of dimensions, its items in row-major order. -/
def decodeArray (decode : Bytes → Except Error Value) (bytes : Bytes) : Except Error Value := do
  let (dimensions, rest) ← readSigned 4 bytes
  let (_, rest) ← readSigned 4 rest
  let (_, rest) ← readWord 4 rest
  if dimensions = 0 then pure (.array [])
  else if dimensions < 0 then .error (.malformed .negativeDimensions)
  else
    let (lengths, rest) ← readMany readDimension dimensions.toNat rest
    let (items, _) ← readMany (readItem decode) (itemCount lengths) rest
    pure (.array (nest (lengths.drop 1) items))

def decode : PgType → Bytes → Except Error Value
  | .scalar s, bytes => decodeScalar s bytes
  | .arrayOf s, bytes => decodeArray (decodeScalar s) bytes
  | .enumeration _, bytes => decodeText bytes
  | .composite name, _ => unsupported name
  | .domain _ base, bytes => decode base bytes
  | .array _ element, bytes => decodeArray (decode element) bytes

end Polystore.Postgres
