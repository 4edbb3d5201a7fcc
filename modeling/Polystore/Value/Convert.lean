import Polystore.Number.Approximation
import Polystore.Value.Basic

/-!
Checked conversions out of values. A number is converted only if it fits exactly; a value of
another kind is never converted.
-/

namespace Polystore.Value

open Polystore.Calendar (Stamp)
open Polystore.Number (Binary64 Decimal)

/-- The error for a value of a kind that has no conversion. -/
def mismatch (v : Value) (target : String) : Error :=
  .unsupportedType "dbkit" (v.kind.name ++ " as " ++ target)

def overflow {α : Type} (value target : String) : Except Error α :=
  .error (.numericOverflow value target)

def intText (i : Int) : String :=
  String.ofList (Text.integer i)

/-- Integers from `-2 ^ 63` up to `2 ^ 63`, the upper end left out. -/
def int64? (i : Int) : Option Int64 :=
  if -(2 ^ 63) ≤ i ∧ i < 2 ^ 63 then some (Int64.ofInt i) else none

/-- Integers from zero up to `2 ^ 64`, the upper end left out. -/
def uint64? (i : Int) : Option UInt64 :=
  if 0 ≤ i ∧ i < 2 ^ 64 then some (UInt64.ofNat i.toNat) else none

def toInt64 : Value → Except Error Int64
  | .int n => .ok n
  | .uint n =>
    match int64? n.toNat with
    | some i => .ok i
    | none => overflow (intText n.toNat) "i64"
  | .decimal d =>
    match d.toInt?.bind int64? with
    | some i => .ok i
    | none => overflow d.text "i64"
  | v => .error (v.mismatch "i64")

def toInt32 (v : Value) : Except Error Int32 := do
  let wide := (← v.toInt64).toInt
  if -(2 ^ 31) ≤ wide ∧ wide < 2 ^ 31 then .ok (Int32.ofInt wide)
  else overflow (intText wide) "i32"

/-- A zero with a minus sign counts as negative. -/
def toUInt64 : Value → Except Error UInt64
  | .uint n => .ok n
  | .int n =>
    match uint64? n.toInt with
    | some u => .ok u
    | none => overflow (intText n.toInt) "u64"
  | .decimal d =>
    match if d.negative then none else d.toInt?.bind uint64? with
    | some u => .ok u
    | none => overflow d.text "u64"
  | v => .error (v.mismatch "u64")

/-- Only the integers up to `2 ^ 53` are converted: all of those are words. -/
def toBinary64 : Value → Except Error Binary64
  | .float x => .ok x
  | .int n =>
    if -(2 ^ 53) ≤ n.toInt ∧ n.toInt ≤ 2 ^ 53 then .ok (.ofInt n.toInt)
    else overflow (intText n.toInt) "f64"
  | .uint n =>
    if n.toNat ≤ 2 ^ 53 then .ok (.ofInt n.toNat) else overflow (intText n.toNat) "f64"
  | v => .error (v.mismatch "f64")

def toDecimal : Value → Except Error Decimal
  | .decimal d => .ok d
  | .int n => .ok (.ofInt64 n)
  | .uint n => .ok (.ofUInt64 n)
  | .float x =>
    match Decimal.ofBinary64? x with
    | some d => .ok d
    | none => overflow x.display "decimal"
  | v => .error (v.mismatch "decimal")

def toBool : Value → Except Error Bool
  | .bool b => .ok b
  | v => .error (v.mismatch "bool")

def toText : Value → Except Error String
  | .string s => .ok s
  | v => .error (v.mismatch "string")

def toUuid : Value → Except Error Uuid
  | .uuid u => .ok u
  | v => .error (v.mismatch "uuid")

def toStamp : Value → Except Error Stamp
  | .date s => .ok s
  | v => .error (v.mismatch "date")

def toBytes : Value → Except Error Bytes
  | .binary bytes => .ok bytes
  | v => .error (v.mismatch "binary")

end Polystore.Value
