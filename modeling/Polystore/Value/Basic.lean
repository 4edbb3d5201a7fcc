import Polystore.Calendar.Iso
import Polystore.Error
import Polystore.Number.Shortest
import Polystore.Value.Uuid

/-!
The one type of value that every backend's data is carried in, and the text of values.
-/

namespace Polystore

open Polystore.Calendar (Stamp)
open Polystore.Number (Binary64 Decimal)

/-- The format of a payload that is passed through unread. -/
inductive PayloadFormat where
  | json
  | bson
  | messagePack
  | raw
deriving DecidableEq, Repr

def PayloadFormat.name : PayloadFormat → String
  | .json => "Json"
  | .bson => "Bson"
  | .messagePack => "MessagePack"
  | .raw => "Raw"

/-- Bytes in a format that is not looked into. -/
structure Payload where
  format : PayloadFormat
  bytes : Bytes
deriving DecidableEq

/-- A value. The entries of a map are in ascending order of their keys, and no key comes twice;
`Value.mapOf` builds such a map from any entries. -/
inductive Value where
  | null
  | bool (b : Bool)
  | string (s : String)
  | int (n : Int64)
  | uint (n : UInt64)
  | float (x : Binary64)
  | decimal (d : Decimal)
  | date (s : Stamp)
  | binary (bytes : Bytes)
  | uuid (u : Uuid)
  | array (items : List Value)
  | map (entries : List (String × Value))
  | payload (p : Payload)

/-- Which alternative a value belongs to. -/
inductive Kind where
  | null
  | bool
  | string
  | int
  | uint
  | float
  | decimal
  | date
  | binary
  | uuid
  | array
  | map
  | payload
deriving DecidableEq, Repr

namespace Kind

def name : Kind → String
  | .null => "null"
  | .bool => "boolean"
  | .string => "string"
  | .int => "int64"
  | .uint => "uint64"
  | .float => "float64"
  | .decimal => "decimal"
  | .date => "date"
  | .binary => "binary"
  | .uuid => "uuid"
  | .array => "array"
  | .map => "map"
  | .payload => "opaque"

def isScalar : Kind → Bool
  | .null | .array | .map | .payload => false
  | _ => true

def all : List Kind :=
  [.null, .bool, .string, .int, .uint, .float, .decimal, .date, .binary, .uuid, .array, .map, .payload]

def ofName? (name : String) : Option Kind :=
  all.find? fun kind => kind.name == name

end Kind

namespace Value

instance : Inhabited Value := ⟨.null⟩

def kind : Value → Kind
  | .null => .null
  | .bool _ => .bool
  | .string _ => .string
  | .int _ => .int
  | .uint _ => .uint
  | .float _ => .float
  | .decimal _ => .decimal
  | .date _ => .date
  | .binary _ => .binary
  | .uuid _ => .uuid
  | .array _ => .array
  | .map _ => .map
  | .payload _ => .payload

def isNull : Value → Bool
  | .null => true
  | _ => false

def asText? : Value → Option String
  | .string s => some s
  | _ => none

def asArray? : Value → Option (List Value)
  | .array items => some items
  | _ => none

def asMap? : Value → Option (List (String × Value))
  | .map entries => some entries
  | _ => none

/-- The entries with one more put in its place; an entry with the same key is replaced. -/
def insertEntry {α : Type} (key : String) (value : α) : List (String × α) → List (String × α)
  | [] => [(key, value)]
  | (k, v) :: rest =>
    if key < k then (key, value) :: (k, v) :: rest
    else if key = k then (key, value) :: rest
    else (k, v) :: insertEntry key value rest

/-- The entries in ascending order of their keys; the last of several with one key counts. -/
def sortEntries {α : Type} (entries : List (String × α)) : List (String × α) :=
  entries.foldl (fun sorted (key, value) => insertEntry key value sorted) []

def mapOf (entries : List (String × Value)) : Value :=
  .map (sortEntries entries)

/-- The text of a single datum other than bytes. -/
def scalarText? : Value → Option String
  | .bool b => some (if b then "1" else "0")
  | .string s => some s
  | .int n => some (String.ofList (Text.integer n.toInt))
  | .uint n => some (String.ofList (Text.digits n.toNat))
  | .float x => some x.valueText
  | .decimal d => some d.text
  | .date s => some s.iso
  | .uuid u => some u.text
  | _ => none

mutual

def display : Value → String
  | .null => "NULL"
  | .bool b => if b then "true" else "false"
  | .string s => s
  | .int n => String.ofList (Text.integer n.toInt)
  | .uint n => String.ofList (Text.digits n.toNat)
  | .float x => x.valueText
  | .decimal d => d.text
  | .date s => s.iso
  | .binary bytes => "<" ++ toString bytes.length ++ " bytes>"
  | .uuid u => u.text
  | .array items => "[" ++ ", ".intercalate (displayItems items) ++ "]"
  | .map entries => "\x7b" ++ ", ".intercalate (displayEntries entries) ++ "\x7d"
  | .payload p => "<" ++ p.format.name ++ " payload, " ++ toString p.bytes.length ++ " bytes>"
termination_by structural v => v

def displayItems : List Value → List String
  | [] => []
  | v :: rest => v.display :: displayItems rest
termination_by structural items => items

def displayEntries : List (String × Value) → List String
  | [] => []
  | (k, v) :: rest => (k ++ ": " ++ v.display) :: displayEntries rest
termination_by structural entries => entries

end

/-- A decimal number as text; the three words for what a decimal cannot hold give a float. -/
def ofDecimalText (text : String) : Except Error Value :=
  if text == "NaN" then .ok (.float .nan)
  else if text == "Infinity" then .ok (.float .infinity)
  else if text == "-Infinity" then .ok (.float .negInfinity)
  else
    match Decimal.read text.toList with
    | .ok d => .ok (.decimal d)
    | .error cause => .error (.malformed (.decimalText text cause))

end Value

/-- A stamp needs a date, a time of day, or both. -/
def Calendar.Stamp.make (date : Option Calendar.Date) (time : Option Calendar.Time)
    (offset : Option Calendar.Offset) : Except Error Calendar.Stamp :=
  match Calendar.Stamp.ofParts? date time with
  | some parts => .ok ⟨parts, offset, none⟩
  | none => .error (.invalidExpression .emptyStamp)

end Polystore
