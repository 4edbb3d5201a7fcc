import Polystore.Text.Hex

/-!
Universally unique identifiers and their text: 32 hexadecimal digits in groups of 8, 4, 4, 4 and 12.
-/

namespace Polystore

/-- Sixteen octets. -/
structure Uuid where
  octets : Bytes
  length_eq : octets.length = 16
deriving DecidableEq

namespace Uuid

open Polystore.Text

def ofOctets? (octets : Bytes) : Option Uuid :=
  if h : octets.length = 16 then some ⟨octets, h⟩ else none

def text (u : Uuid) : String :=
  let row := Hex.encode u.octets
  let hyphen := ['-']
  String.ofList (row.take 8 ++ hyphen ++ (row.drop 8).take 4 ++ hyphen ++ (row.drop 12).take 4 ++
    hyphen ++ (row.drop 16).take 4 ++ hyphen ++ row.drop 20)

/-- The digits of the hyphenated form, if the hyphens are where they belong and nowhere else. -/
def withoutHyphens (text : List Char) : Option (List Char) :=
  match text.splitOn '-' with
  | [a, b, c, d, e] =>
    if a.length = 8 ∧ b.length = 4 ∧ c.length = 4 ∧ d.length = 4 ∧ e.length = 12 then
      some (a ++ b ++ c ++ d ++ e)
    else none
  | _ => none

/-- The inner part of a text that starts and ends in a given way. -/
def inside? (start finish text : List Char) : Option (List Char) :=
  if start.isPrefixOf text && finish.isSuffixOf text && start.length + finish.length ≤ text.length then
    some ((text.drop start.length).take (text.length - start.length - finish.length))
  else none

/-- Reads the hyphenated form, alone, in braces or after `urn:uuid:`, or the digits alone. -/
def read? (text : String) : Option Uuid :=
  let text := text.toList
  let row :=
    if text.length = 32 then some text
    else if text.length = 36 then withoutHyphens text
    else if text.length = 38 then (inside? ['\x7b'] ['\x7d'] text).bind withoutHyphens
    else (inside? "urn:uuid:".toList [] text).bind withoutHyphens
  (row.bind Hex.decode?).bind ofOctets?

end Uuid

end Polystore
