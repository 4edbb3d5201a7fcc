import Polystore.Bson.Wire

/-!
Reading the binary form of documents, field by field.
-/

namespace Polystore.Bson

open Polystore.Number (Binary64)

def take (n : Nat) (bytes : Bytes) : Option (Bytes × Bytes) :=
  if n ≤ bytes.length then some (bytes.take n, bytes.drop n) else none

def readWord (width : Nat) (bytes : Bytes) : Option (Nat × Bytes) :=
  (take width bytes).map fun (word, rest) => (Bytes.ofLittleEndian word, rest)

/-- A length: a word of four bytes that is not negative. -/
def readLength (bytes : Bytes) : Option (Nat × Bytes) :=
  (readWord 4 bytes).bind fun (n, rest) => if n < 2 ^ 31 then some (n, rest) else none

/-- A text up to a zero byte. -/
def readKey (bytes : Bytes) : Option (String × Bytes) := do
  let row := bytes.takeWhile (· != 0)
  let (_, rest) ← take (row.length + 1) bytes
  let text ← Bytes.toText? row
  pure (text, rest)

/-- A text after its length, which counts the zero byte at the end. -/
def readString (bytes : Bytes) : Option (String × Bytes) := do
  let (n, rest) ← readLength bytes
  let (row, rest) ← take n rest
  if row.getLast? = some 0 then
    let text ← Bytes.toText? row.dropLast
    pure (text, rest)
  else none

def readObjectId (bytes : Bytes) : Option (ObjectId × Bytes) := do
  let (row, rest) ← take 12 bytes
  let id ← ObjectId.ofOctets? row
  pure (id, rest)

/-- Bytes after their length and their subtype. The old subtype counts the length twice. -/
def readBinary (bytes : Bytes) : Option (Bson × Bytes) := do
  let (n, rest) ← readLength bytes
  let (subtype, rest) ← readWord 1 rest
  let (row, rest) ← take n rest
  if subtype = 2 then
    let (inner, row) ← readLength row
    if inner = row.length then pure (.binary 2 row, rest) else none
  else pure (.binary (UInt8.ofNat subtype) row, rest)

/-- A value of a type whose values do not nest. -/
def readFlat (type : Nat) (bytes : Bytes) : Option (Bson × Bytes) :=
  if type = 0x01 then
    (readWord 8 bytes).map fun (n, rest) => (.double ⟨UInt64.ofNat n⟩, rest)
  else if type = 0x02 then (readString bytes).map fun (s, rest) => (.string s, rest)
  else if type = 0x05 then readBinary bytes
  else if type = 0x06 then some (.undefined, bytes)
  else if type = 0x07 then (readObjectId bytes).map fun (id, rest) => (.objectId id, rest)
  else if type = 0x08 then
    (readWord 1 bytes).bind fun (n, rest) => if n ≤ 1 then some (.bool (n == 1), rest) else none
  else if type = 0x09 then
    (readWord 8 bytes).map fun (n, rest) => (.dateTime (Int64.ofInt (Bytes.signed 64 n)), rest)
  else if type = 0x0A then some (.null, bytes)
  else if type = 0x0B then do
    let (pattern, rest) ← readKey bytes
    let (options, rest) ← readKey rest
    pure (.regexOf pattern options, rest)
  else if type = 0x0C then do
    let (collection, rest) ← readString bytes
    let (id, rest) ← readObjectId rest
    pure (.reference collection id, rest)
  else if type = 0x0D then (readString bytes).map fun (s, rest) => (.code s, rest)
  else if type = 0x0E then (readString bytes).map fun (s, rest) => (.symbol s, rest)
  else if type = 0x10 then
    (readWord 4 bytes).map fun (n, rest) => (.int32 (Int32.ofInt (Bytes.signed 32 n)), rest)
  else if type = 0x11 then do
    let (increment, rest) ← readWord 4 bytes
    let (time, rest) ← readWord 4 rest
    pure (.timestamp (UInt32.ofNat time) (UInt32.ofNat increment), rest)
  else if type = 0x12 then
    (readWord 8 bytes).map fun (n, rest) => (.int64 (Int64.ofInt (Bytes.signed 64 n)), rest)
  else if type = 0x13 then
    (readWord 16 bytes).map fun (n, rest) => (.decimal128 ⟨BitVec.ofNat 128 n⟩, rest)
  else if type = 0x7F then some (.maxKey, bytes)
  else if type = 0xFF then some (.minKey, bytes)
  else none

/-- Takes the bytes of a nested document, whose length counts itself and a zero byte at the end; the
first part is what lies between. -/
def takeDocument (bytes : Bytes) : Option (Bytes × Bytes) := do
  let (n, _) ← readLength bytes
  let (row, rest) ← take n bytes
  if 5 ≤ n ∧ row.getLast? = some 0 then pure ((row.drop 4).dropLast, rest) else none

/-- The value of a field and the bytes after it, where `inner` reads the fields of a document in it. -/
def readWire (inner : Bytes → List (String × Wire)) (type : Nat) (bytes : Bytes) :
    Option (Wire × Bytes) :=
  if type = 0x03 then
    (takeDocument bytes).map fun (row, rest) => (.document (inner row), rest)
  else if type = 0x04 then
    (takeDocument bytes).map fun (row, rest) => (.array ((inner row).map (·.2)), rest)
  else if type = 0x0F then do
    let (n, _) ← readLength bytes
    let (row, rest) ← take n bytes
    let (source, row) ← readString (row.drop 4)
    let (scope, row) ← takeDocument row
    if row.isEmpty then pure (.codeWithScope source (inner scope), rest) else none
  else (readFlat type bytes).map fun (value, rest) => (.leaf value, rest)

/-- The fields in the bytes of a document. Where they go wrong stands a last field that is broken.
The fuel bounds fields and nesting together: every step takes at least one byte. -/
def readFields : Nat → Bytes → List (String × Wire)
  | _, [] => []
  | 0, _ :: _ => [("", .broken)]
  | fuel + 1, type :: bytes =>
    match readKey bytes with
    | none => [("", .broken)]
    | some (key, rest) =>
      match readWire (readFields fuel) type.toNat rest with
      | none => [(key, .broken)]
      | some (value, rest) => (key, value) :: readFields fuel rest

end Polystore.Bson
