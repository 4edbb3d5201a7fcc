import Polystore.Json.Reader
import Polystore.Text.Base64
import Polystore.Value.Basic

/-!
The JSON form of values. Bytes are written in base64; identifiers, stamps and decimals as texts; and
the floats that are no numbers by name. JSON has no tags, so all of these read back as texts.
-/

namespace Polystore.Value

open Polystore.Number (Binary64)

mutual

def toJson : Value → Except Error Json
  | .null => .ok .null
  | .bool b => .ok (.bool b)
  | .string s => .ok (.string s)
  | .int n => .ok (.integer n.toInt)
  | .uint n => .ok (.integer n.toNat)
  | .float x => .ok (if x.isFinite then .float x else .string x.valueText)
  | .decimal d => .ok (.string d.text)
  | .date s => .ok (.string s.iso)
  | .binary bytes => .ok (.string (String.ofList (Text.Base64.encode bytes)))
  | .uuid u => .ok (.string u.text)
  | .array items => (toJsonItems items).map .array
  | .map entries => (toJsonEntries entries).map .object
  | .payload p =>
    match p.format with
    | .json =>
      match Json.ofBytes? p.bytes with
      | some json => .ok json
      | none => .error (.malformed (.foreign .json))
    | format => .error (.unsupportedType "json" (format.name ++ " opaque payload"))
termination_by structural v => v

def toJsonItems : List Value → Except Error (List Json)
  | [] => .ok []
  | v :: rest => do
    let item ← v.toJson
    let items ← toJsonItems rest
    pure (item :: items)
termination_by structural items => items

def toJsonEntries : List (String × Value) → Except Error (List (String × Json))
  | [] => .ok []
  | (k, v) :: rest => do
    let member ← v.toJson
    let members ← toJsonEntries rest
    pure ((k, member) :: members)
termination_by structural entries => entries

end

mutual

def ofJson : Json → Value
  | .null => .null
  | .bool b => .bool b
  | .integer i => if i < 2 ^ 63 then .int (Int64.ofInt i) else .uint (UInt64.ofNat i.toNat)
  | .float x => .float x
  | .string s => .string s
  | .array items => .array (ofJsonItems items)
  | .object members => mapOf (ofJsonMembers members)
termination_by structural json => json

def ofJsonItems : List Json → List Value
  | [] => []
  | item :: rest => ofJson item :: ofJsonItems rest
termination_by structural items => items

def ofJsonMembers : List (String × Json) → List (String × Value)
  | [] => []
  | (name, value) :: rest => (name, ofJson value) :: ofJsonMembers rest
termination_by structural members => members

end

/-- The UTF-8 form of the JSON text of a value. -/
def toJsonBytes (v : Value) : Except Error Bytes :=
  v.toJson.map fun json => Bytes.ofText json.compact

def ofJsonBytes (bytes : Bytes) : Except Error Value :=
  match Json.ofBytes? bytes with
  | some json => .ok (ofJson json)
  | none => .error (.malformed (.foreign .json))

end Polystore.Value
