import Polystore.Number.Shortest

/-!
JSON documents and their compact text.
-/

namespace Polystore

open Polystore.Number (Binary64)

/-- A JSON document. An integer is within `-2 ^ 63` and `2 ^ 64 - 1`, a float is finite, and the
members of an object stand in the order in which their names came up. -/
inductive Json where
  | null
  | bool (b : Bool)
  | integer (i : Int)
  | float (x : Binary64)
  | string (s : String)
  | array (items : List Json)
  | object (members : List (String × Json))

namespace Json

/-- The members with one more: a name that is there keeps its place and gets the new value. -/
def insertMember (name : String) (value : Json) : List (String × Json) → List (String × Json)
  | [] => [(name, value)]
  | (n, v) :: rest => if n = name then (n, value) :: rest else (n, v) :: insertMember name value rest

/-- The object that these members, put in one by one, make. -/
def objectOf (members : List (String × Json)) : Json :=
  .object (members.foldl (fun made (name, value) => insertMember name value made) [])

def escape (c : Char) : List Char :=
  if c = '"' then ['\\', '"']
  else if c = '\\' then ['\\', '\\']
  else if c = '\x08' then ['\\', 'b']
  else if c = '\x0c' then ['\\', 'f']
  else if c = '\n' then ['\\', 'n']
  else if c = '\r' then ['\\', 'r']
  else if c = '\t' then ['\\', 't']
  else if c.toNat < 0x20 then
    ['\\', 'u', '0', '0', (c.toNat / 16).digitChar, (c.toNat % 16).digitChar]
  else [c]

def quoted (s : String) : List Char :=
  '"' :: s.toList.flatMap escape ++ ['"']

/-- Floats have a fraction or an exponent, so that they read back as floats. -/
def floatStyle : Binary64.Style :=
  { Binary64.replyStyle with positionalFrom := -5, exponentPlus := true, ties := .even }

mutual

def write : Json → List Char
  | .null => ['n', 'u', 'l', 'l']
  | .bool true => ['t', 'r', 'u', 'e']
  | .bool false => ['f', 'a', 'l', 's', 'e']
  | .integer i => Text.integer i
  | .float x => (x.write floatStyle).toList
  | .string s => quoted s
  | .array items => '[' :: [','].intercalate (writeItems items) ++ [']']
  | .object members => '\x7b' :: [','].intercalate (writeMembers members) ++ ['\x7d']
termination_by structural json => json

def writeItems : List Json → List (List Char)
  | [] => []
  | item :: rest => item.write :: writeItems rest
termination_by structural items => items

def writeMembers : List (String × Json) → List (List Char)
  | [] => []
  | (name, value) :: rest => (quoted name ++ ':' :: value.write) :: writeMembers rest
termination_by structural members => members

end

def compact (json : Json) : String :=
  String.ofList json.write

end Json

end Polystore
