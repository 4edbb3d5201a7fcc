import Polystore.Number.Binary
import Polystore.Text.Hex

/-!
Documents of the document store, and the identifiers in them.
-/

namespace Polystore

open Polystore.Number (Binary64)

/-- Twelve octets. -/
structure ObjectId where
  octets : Bytes
  length_eq : octets.length = 12
deriving DecidableEq

namespace ObjectId

def ofOctets? (octets : Bytes) : Option ObjectId :=
  if h : octets.length = 12 then some ⟨octets, h⟩ else none

/-- Twenty-four hexadecimal digits. -/
def text (id : ObjectId) : String :=
  String.ofList (Text.Hex.encode id.octets)

def read? (text : String) : Option ObjectId :=
  (Text.Hex.decode? text.toList).bind ofOctets?

theorem read?_text (id : ObjectId) : read? id.text = some id := by
  simp [read?, text, Text.Hex.decode?_encode, ofOctets?, id.length_eq]

end ObjectId

/-- A decimal floating-point word of 128 bits. -/
structure Decimal128 where
  bits : BitVec 128
deriving DecidableEq

/-- A document value. The fields of a document stand in their order. -/
inductive Bson where
  | null
  | undefined
  | minKey
  | maxKey
  | bool (b : Bool)
  | string (s : String)
  | symbol (s : String)
  | code (source : String)
  | codeWithScope (source : String) (scope : List (String × Bson))
  | regex (pattern options : String)
  | int32 (n : Int32)
  | int64 (n : Int64)
  | double (x : Binary64)
  | decimal128 (word : Decimal128)
  | dateTime (milliseconds : Int64)
  | binary (subtype : UInt8) (bytes : Bytes)
  | objectId (id : ObjectId)
  | timestamp (time increment : UInt32)
  | reference (collection : String) (id : ObjectId)
  | array (items : List Bson)
  | document (fields : List (String × Bson))

namespace Bson

instance : Inhabited Bson := ⟨.null⟩

def typeName : Bson → String
  | .null => "Null"
  | .undefined => "Undefined"
  | .minKey => "MinKey"
  | .maxKey => "MaxKey"
  | .bool _ => "Boolean"
  | .string _ => "String"
  | .symbol _ => "Symbol"
  | .code _ => "JavaScriptCode"
  | .codeWithScope _ _ => "JavaScriptCodeWithScope"
  | .regex _ _ => "RegularExpression"
  | .int32 _ => "Int32"
  | .int64 _ => "Int64"
  | .double _ => "Double"
  | .decimal128 _ => "Decimal128"
  | .dateTime _ => "DateTime"
  | .binary _ _ => "Binary"
  | .objectId _ => "ObjectId"
  | .timestamp _ _ => "Timestamp"
  | .reference _ _ => "DbPointer"
  | .array _ => "Array"
  | .document _ => "EmbeddedDocument"

/-- A regular expression; the letters of its options stand in their order. -/
def regexOf (pattern options : String) : Bson :=
  .regex pattern (String.ofList (options.toList.mergeSort (· ≤ ·)))

def fields? : Bson → Option (List (String × Bson))
  | .document fields => some fields
  | _ => none

/-- The fields with one more: a name that is there keeps its place and gets the new value. -/
def insertField (name : String) (value : Bson) : List (String × Bson) → List (String × Bson)
  | [] => [(name, value)]
  | (n, v) :: rest => if n = name then (n, value) :: rest else (n, v) :: insertField name value rest

end Bson

end Polystore
