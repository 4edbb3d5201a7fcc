import Polystore.Text.Blank
import Polystore.Value.Convert
import Polystore.Value.Json

/-!
Replies of the key-value store's wire protocol. Most type information is lost on the way in: a
reply can be read for what it says, or as a kind that the reader knows it to be.
-/

namespace Polystore

open Polystore.Number (Binary64 Decimal)
open Polystore.Calendar (Stamp)

inductive Resp where
  | nil
  | integer (n : Int64)
  | double (x : Binary64)
  | boolean (b : Bool)
  | simple (s : String)
  | bulk (bytes : Bytes)
  | array (items : List Resp)
  | error (message : String)

namespace Resp

mutual

def describe : Resp → String
  | .nil => "Nil"
  | .integer n => "Integer(" ++ String.ofList (Text.integer n.toInt) ++ ")"
  | .double x => "Double(" ++ x.write Binary64.replyStyle ++ ")"
  | .boolean b => "Boolean(" ++ (if b then "true" else "false") ++ ")"
  | .simple s => "SimpleString(" ++ Text.Quoted.quote s ++ ")"
  | .bulk bytes => "BulkString([" ++ ", ".intercalate (bytes.map fun b => toString b.toNat) ++ "])"
  | .array items => "Array([" ++ ", ".intercalate (describeItems items) ++ "])"
  | .error message => "Error(" ++ Text.Quoted.quote message ++ ")"
termination_by structural reply => reply

def describeItems : List Resp → List String
  | [] => []
  | item :: rest => item.describe :: describeItems rest
termination_by structural items => items

end

def isHomogeneous : List Value → Bool
  | [] => true
  | first :: rest => first.kind.isScalar && rest.all fun v => v.kind = first.kind

def ofScalar (v : Value) : Except Error Resp :=
  match v with
  | .binary bytes => .ok (.bulk bytes)
  | _ =>
    match v.scalarText? with
    | some s => .ok (.bulk (Bytes.ofText s))
    | none => .error (.unsupportedType "redis" (v.kind.name ++ " array element"))

/-- What is sent for a value. Arrays of one kind of data are sent as arrays, all other nested values
as JSON text. -/
def ofValue : Value → Except Error Resp
  | .null => .ok .nil
  | .array items =>
    if isHomogeneous items then (items.mapM ofScalar).map .array
    else (Value.array items).toJsonBytes.map .bulk
  | .map entries => (Value.map entries).toJsonBytes.map .bulk
  | .payload p => .ok (.bulk p.bytes)
  | v => ofScalar v

/-- The failure in an error reply; its first word is the code. -/
def failure (message : String) : Error :=
  let word := (Text.trimStart message.toList).takeWhile fun c => !Text.isBlank c
  .server { BackendError.ofText "redis" message with code := String.ofList word }

mutual

def toValue : Resp → Except Error Value
  | .nil => .ok .null
  | .integer n => .ok (.int n)
  | .double x => .ok (.float x)
  | .boolean b => .ok (.bool b)
  | .simple s => .ok (.string s)
  | .bulk bytes =>
    match bytes.toText? with
    | some s => .ok (.string s)
    | none => .ok (.binary bytes)
  | .array items => (toValues items).map .array
  | .error message => .error (failure message)
termination_by structural reply => reply

def toValues : List Resp → Except Error (List Value)
  | [] => .ok []
  | item :: rest => do
    let v ← item.toValue
    let vs ← toValues rest
    pure (v :: vs)
termination_by structural items => items

end

def readFloat (s : String) : Option Binary64 :=
  Binary64.read? s.toList

/-- A number below `2 ^ 64`, with an optional plus sign. -/
def readUnsigned (s : String) : Option UInt64 :=
  let row := match s.toList with
    | '+' :: rest => rest
    | text => text
  (Text.readNat? row).bind fun n => Value.uint64? n

def readAs (kind : Kind) (s : String) : Option Value :=
  match kind with
  | .string => some (.string s)
  | .bool =>
    if s == "1" || s == "true" then some (.bool true)
    else if s == "0" || s == "false" then some (.bool false)
    else none
  | .int => ((Text.readInt? s.toList).bind Value.int64?).map .int
  | .uint => (readUnsigned s).map .uint
  | .float => (readFloat s).map .float
  | .decimal => (Value.ofDecimalText s).toOption
  | .date => (Stamp.ofIso? s).map .date
  | .uuid => (Uuid.read? s).map .uuid
  | .array | .map => ((Json.read? s).map Value.ofJson).filter fun v => v.kind = kind
  | .null | .binary | .payload => none

/-- The error for a reply that cannot be of a kind. -/
def mismatch (reply : Resp) (kind : Kind) : Error :=
  .unsupportedType "redis" (reply.describe ++ " as " ++ kind.name)

def readText (reply : Resp) (kind : Kind) (s : String) : Except Error Value :=
  match readAs kind s with
  | some v => .ok v
  | none => .error (reply.mismatch kind)

/-- An integer reply read as a value of a kind. -/
def readInteger (reply : Resp) (kind : Kind) (n : Int64) : Except Error Value :=
  match kind with
  | .int => .ok (.int n)
  | .uint =>
    match Value.uint64? n.toInt with
    | some u => .ok (.uint u)
    | none => Value.overflow (Value.intText n.toInt) "u64"
  | .decimal => .ok (.decimal (.ofInt64 n))
  | _ => .error (reply.mismatch kind)

/-- The value of a reply that is known to be of a kind. -/
def toValueAs (kind : Kind) (reply : Resp) : Except Error Value :=
  match reply with
  | .nil => .ok .null
  | .error message => .error (failure message)
  | .array items =>
    if kind = .array then (toValues items).map .array else .error (reply.mismatch kind)
  | .bulk bytes =>
    if kind = .binary then .ok (.binary bytes)
    else
      match bytes.toText? with
      | some s => reply.readText kind s
      | none => .error (.malformed (.foreign .utf8))
  | .simple s => reply.readText kind s
  | .integer n => reply.readInteger kind n
  | .double x => if kind = .float then .ok (.float x) else .error (reply.mismatch kind)
  | .boolean b => if kind = .bool then .ok (.bool b) else .error (reply.mismatch kind)

end Resp

end Polystore
