/-!
What can be asked of a transaction: how far it is kept apart from others, and whether it is tried
again after a conflict.
-/

namespace Polystore.Transaction

inductive Isolation where
  /-- Whatever the server is set to. -/
  | default
  | readCommitted
  | repeatableRead
  | serializable
deriving DecidableEq, Repr

namespace Isolation

def sql : Isolation → Option String
  | .default => none
  | .readCommitted => some "READ COMMITTED"
  | .repeatableRead => some "REPEATABLE READ"
  | .serializable => some "SERIALIZABLE"

def name : Isolation → String
  | .default => "default"
  | .readCommitted => "read-committed"
  | .repeatableRead => "repeatable-read"
  | .serializable => "serializable"

def ofName? (text : String) : Option Isolation :=
  [.default, .readCommitted, .repeatableRead, .serializable].find? fun level => level.name == text

end Isolation

inductive Retry where
  | never
  /-- After a conflict, up to so many attempts in all if there is a limit. -/
  | onConflict (maxAttempts : Option UInt32)
deriving DecidableEq, Repr

/-- Is there another attempt after a conflict, when so many have been made? -/
def Retry.allows (attempts : Nat) : Retry → Bool
  | .never => false
  | .onConflict none => true
  | .onConflict (some most) => attempts < most.toNat

structure Options where
  isolation : Isolation := .default
  retry : Retry := .never
deriving DecidableEq, Repr

end Polystore.Transaction
