import Polystore.Value.Basic

/-!
When two values are the same, and the words that a hash of a value is made from. Payloads are the
same as nothing, not even themselves.
-/

namespace Polystore.Value

open Polystore.Calendar (Stamp Parts)

mutual

/-- Are two values the same? Numbers of one kind are compared by what they denote. -/
def same : Value → Value → Bool
  | .null, .null => true
  | .bool a, .bool b => a == b
  | .string a, .string b => a == b
  | .int a, .int b => a == b
  | .uint a, .uint b => a == b
  | .float a, .float b => a.sameNumber b
  | .decimal a, .decimal b => a.numEq b
  | .date a, .date b => a == b
  | .binary a, .binary b => a == b
  | .uuid a, .uuid b => a == b
  | .array a, .array b => sameItems a b
  | .map a, .map b => sameEntries a b
  | _, _ => false
termination_by structural v => v

def sameItems : List Value → List Value → Bool
  | [], [] => true
  | a :: as, b :: bs => a.same b && sameItems as bs
  | _, _ => false
termination_by structural items => items

def sameEntries : List (String × Value) → List (String × Value) → Bool
  | [], [] => true
  | (k, a) :: as, (l, b) :: bs => k == l && a.same b && sameEntries as bs
  | _, _ => false
termination_by structural entries => entries

end

instance : BEq Value := ⟨same⟩

/-- The words for a text: its bytes and an end mark that no byte equals. -/
def textDigest (s : String) : List Int :=
  (Bytes.ofText s).map (fun b => (b.toNat : Int)) ++ [256]

def bytesDigest (bytes : Bytes) : List Int :=
  (bytes.length : Int) :: bytes.map fun b => (b.toNat : Int)

def stampDigest (s : Stamp) : List Int :=
  let date := match s.date? with
    | some d => [1, d.year, (d.month : Int), (d.day : Int)]
    | none => [0]
  let time := match s.time? with
    | some t => [1, (t.second : Int), (t.nano : Int)]
    | none => [0]
  let offset := match s.offset with
    | some o => [1, o.seconds]
    | none => [0]
  let calendar := match s.calendar with
    | some .gregorian => [1, 0]
    | some .iso8601 => [1, 1]
    | none => [0]
  date ++ time ++ offset ++ calendar

def kindNumber (kind : Kind) : Int :=
  Kind.all.idxOf kind

mutual

/-- The words a hash of a value is made from: its kind, and what `same` compares. -/
def digest : Value → List Int
  | .null => [kindNumber .null]
  | .bool b => [kindNumber .bool, if b then 1 else 0]
  | .string s => kindNumber .string :: textDigest s
  | .int n => [kindNumber .int, n.toInt]
  | .uint n => [kindNumber .uint, (n.toNat : Int)]
  | .float x => [kindNumber .float, (x.canonical.bits.toNat : Int)]
  | .decimal d =>
    let n := d.normalize
    [kindNumber .decimal, if n.negative then 1 else 0, (n.mantissa : Int), (n.scale : Int)]
  | .date s => kindNumber .date :: stampDigest s
  | .binary bytes => kindNumber .binary :: bytesDigest bytes
  | .uuid u => kindNumber .uuid :: bytesDigest u.octets
  | .array items => kindNumber .array :: (items.length : Int) :: digestItems items
  | .map entries => kindNumber .map :: (entries.length : Int) :: digestEntries entries
  | .payload _ => [kindNumber .payload]
termination_by structural v => v

def digestItems : List Value → List Int
  | [] => []
  | v :: rest => v.digest ++ digestItems rest
termination_by structural items => items

def digestEntries : List (String × Value) → List Int
  | [] => []
  | (k, v) :: rest => textDigest k ++ v.digest ++ digestEntries rest
termination_by structural entries => entries

end

end Polystore.Value
