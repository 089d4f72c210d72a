/-
Which sub-pool has which account.

An account belongs to at most one sub-pool at a time. A sub-pool claims an
account before its first transaction and gives it up after the last. Claiming
an account that the sub-pool already has is harmless but means that it lost
track of its own accounts, so it is counted.
-/
import Std.Data.ExtTreeMap
import TxRelay.Pool.Error

set_option autoImplicit false

namespace TxRelay

/-- The claims on accounts (`ReservationTable`). -/
structure Reservations where
  /-- The sub-pool that has an account, by index. -/
  owners : Std.ExtTreeMap Address Nat
  /-- How many sub-pools there are. -/
  poolCount : Nat
  /-- How many times a sub-pool claimed what it had. -/
  anomalies : Nat
deriving DecidableEq

namespace Reservations

/-- No account is claimed (`ReservationTable::new`). -/
def new (poolCount : Nat) : Reservations := ⟨∅, poolCount, 0⟩

/-- The sub-pool that has an account (`ReservationTable::owner`). -/
def owner? (r : Reservations) (a : Address) : Option Nat := r.owners[a]?

/-- Whether a sub-pool has an account (`AddressReserver::owns`). -/
def owns (r : Reservations) (pool : Nat) (a : Address) : Bool := r.owner? a == some pool

/-- How many accounts are claimed (`ReservationTable::len`). -/
def size (r : Reservations) : Nat := r.owners.size

/-- How many accounts a sub-pool has. -/
def heldBy (r : Reservations) (pool : Nat) : Nat := r.owners.values.count pool

/-- How many accounts each sub-pool has (`ReservationTable::stats`). -/
def held (r : Reservations) : List Nat := (List.range r.poolCount).map r.heldBy

/-- A sub-pool claims an account (`ReservationTable::reserve`). -/
def acquire (r : Reservations) (pool : Nat) (a : Address) : Except ReservationError Reservations :=
  match r.owner? a with
  | none => .ok { r with owners := r.owners.insert a pool }
  | some owner =>
    if owner = pool then .ok { r with anomalies := r.anomalies + 1 }
    else .error (.alreadyReserved a owner)

/-- A sub-pool gives up an account (`ReservationTable::reserve`). -/
def release (r : Reservations) (pool : Nat) (a : Address) : Except ReservationError Reservations :=
  match r.owner? a with
  | none => .error (.notReserved a)
  | some owner =>
    if owner = pool then .ok { r with owners := r.owners.erase a }
    else .error (.notOwned a owner pool)

/-- A sub-pool gives up accounts one after the other. What cannot be given up
is left alone and reported. -/
def releaseAll (r : Reservations) (pool : Nat) :
    List Address → Reservations × List ReservationError
  | [] => (r, [])
  | a :: rest =>
    match r.release pool a with
    | .ok r => releaseAll r pool rest
    | .error e =>
      let (r, errors) := releaseAll r pool rest
      (r, e :: errors)

end Reservations

end TxRelay
