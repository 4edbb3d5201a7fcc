import Polystore.Sql.Dialect
import Polystore.Text.Hex
import Polystore.Value.Json

/-!
Values written out in statements that people read.
-/

namespace Polystore.Sql

/-- A text between single quotes, with those inside it doubled. -/
def quoteText (text : String) : String :=
  String.ofList
    ('\'' :: text.toList.flatMap (fun c => if c = '\'' then ['\'', '\''] else [c]) ++ ['\''])

def bytesLiteral (d : Dialect) (bytes : Bytes) : String :=
  let hex := String.ofList (Text.Hex.encode bytes)
  if d.foldsCase then "'\\x" ++ hex ++ "'" else "X'" ++ hex ++ "'"

mutual

/-- A value as a literal. A map that has no JSON form is an empty text. -/
def literal (d : Dialect) : Value → String
  | .null => "NULL"
  | .bool b => d.boolText b
  | .binary bytes => bytesLiteral d bytes
  | .array items =>
    let inner := ", ".intercalate (literals d items)
    if d.hasArrays then "ARRAY[" ++ inner ++ "]" else "(" ++ inner ++ ")"
  | .map entries =>
    quoteText (match (Value.map entries).toJson with
      | .ok json => json.compact
      | .error _ => "")
  | .payload p => "<" ++ p.format.name ++ " " ++ toString p.bytes.length ++ " bytes>"
  | .int n => (Value.int n).scalarText?.getD ""
  | .uint n => (Value.uint n).scalarText?.getD ""
  | .float x => (Value.float x).scalarText?.getD ""
  | .decimal x => (Value.decimal x).scalarText?.getD ""
  | v => quoteText (v.scalarText?.getD "")
termination_by structural v => v

def literals (d : Dialect) : List Value → List String
  | [] => []
  | v :: rest => literal d v :: literals d rest
termination_by structural items => items

end

end Polystore.Sql
