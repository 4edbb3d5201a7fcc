import Polystore.Connection.Url

/-!
Network addresses that are given as numbers, of four and of sixteen bytes.
-/

namespace Polystore.Connection

/-- An address: four bytes, or eight words of sixteen bits. -/
inductive Address where
  | v4 (a b c d : UInt8)
  | v6 (groups : List Nat)
deriving DecidableEq, Repr

namespace Address

/-- One of four bytes: at most three digits, and no zero before others. -/
def readByte (text : List Char) : Option (UInt8 × List Char) :=
  let (digits, rest) := Text.spanDigits text
  let n := Text.ofDigits digits
  if digits.isEmpty || 3 < digits.length || 255 < n || (1 < digits.length && digits.head? = some '0')
  then none
  else some (UInt8.ofNat n, rest)

def expect (c : Char) : List Char → Option (List Char)
  | [] => none
  | d :: rest => if d = c then some rest else none

/-- Four bytes with dots between them. -/
def readV4 (text : List Char) : Option ((UInt8 × UInt8 × UInt8 × UInt8) × List Char) := do
  let (a, rest) ← readByte text
  let (b, rest) ← readByte (← expect '.' rest)
  let (c, rest) ← readByte (← expect '.' rest)
  let (d, rest) ← readByte (← expect '.' rest)
  pure ((a, b, c, d), rest)

def isHexDigit (c : Char) : Bool :=
  (Text.Hex.value? c).isSome

def readGroup (text : List Char) : Option (Nat × List Char) :=
  let (digits, rest) := text.span isHexDigit
  if digits.isEmpty || 4 < digits.length then none
  else some (digits.foldl (fun n c => 16 * n + (Text.Hex.value? c).getD 0) 0, rest)

/-- Groups with colons between them, at most so many; four bytes with dots may stand for the last two.
Tells whether they do. -/
def readGroups : Nat → Bool → List Char → List Nat × Bool × List Char
  | 0, _, text => ([], false, text)
  | limit + 1, isFirst, text =>
    match if isFirst then some text else expect ':' text with
    | none => ([], false, text)
    | some start =>
      let dotted := if 0 < limit then readV4 start else none
      match dotted with
      | some ((a, b, c, d), rest) =>
        ([256 * a.toNat + b.toNat, 256 * c.toNat + d.toNat], true, rest)
      | none =>
        match readGroup start with
        | none => ([], false, text)
        | some (group, rest) =>
          let (groups, endsDotted, rest) := readGroups limit false rest
          (group :: groups, endsDotted, rest)

/-- Eight groups; two colons stand for one or more groups of zero. -/
def readV6 (text : List Char) : Option (List Nat) := do
  let (head, endsDotted, rest) := readGroups 8 true text
  if head.length = 8 then if rest.isEmpty then some head else none
  else if endsDotted then none
  else
    let rest ← expect ':' (← expect ':' rest)
    let (tail, _, rest) := readGroups (7 - head.length) true rest
    if rest.isEmpty then some (head ++ List.replicate (8 - head.length - tail.length) 0 ++ tail)
    else none

/-- The address that a text writes out in numbers. -/
def read? (text : String) : Option Address :=
  match readV4 text.toList with
  | some ((a, b, c, d), []) => some (.v4 a b c d)
  | _ => (readV6 text.toList).map .v6

def v4Text (a b c d : Nat) : List Char :=
  ['.'].intercalate ([a, b, c, d].map Text.digits)

def groupsText (groups : List Nat) : List Char :=
  [':'].intercalate (groups.map Text.Hex.ofNat)

/-- Start and length of the longest run of zeros from a place on; of equally long ones the first. -/
def longestZeros : Nat → List Nat → Nat × Nat
  | _, [] => (0, 0)
  | start, g :: rest =>
    let here := ((g :: rest).takeWhile (· == 0)).length
    let later := longestZeros (start + 1) rest
    if 0 < here && later.2 ≤ here then (start, here) else later

/-- The shortest spelling: a run of two or more zeros is left out, and an address that stands for
one of four bytes shows them. -/
def v6Text (groups : List Nat) : List Char :=
  match groups with
  | [0, 0, 0, 0, 0, 0xFFFF, x, y] =>
    "::ffff:".toList ++ v4Text (x / 256) (x % 256) (y / 256) (y % 256)
  | groups =>
    let (start, count) := longestZeros 0 groups
    if 1 < count then
      groupsText (groups.take start) ++ [':', ':'] ++ groupsText (groups.drop (start + count))
    else groupsText groups

/-- Address and port as they are written together. -/
def text (a : Address) (port : UInt16) : String :=
  let host := match a with
    | .v4 a b c d => v4Text a.toNat b.toNat c.toNat d.toNat
    | .v6 groups => '[' :: v6Text groups ++ [']']
  String.ofList (host ++ ':' :: Text.digits port.toNat)

end Address

/-- The addresses of hosts that are given in numbers. A host with a name is not looked up here. -/
def Url.addresses (u : Url) : Except Error (List (Address × UInt16)) :=
  u.hosts.mapM fun h =>
    match Address.read? h.name with
    | some a => .ok (a, h.port)
    | none => .error (.server (.ofConnection u.backend.name
        ("failed to resolve " ++ h.name ++ ":" ++ String.ofList (Text.digits h.port.toNat))))

end Polystore.Connection
