/-
A sliding window per key: so many calls in so long a time.

For each key the times of its accepted calls are kept, oldest first. A call
first forgets what is at least a whole period old at the front, and is then
accepted if fewer than the limit remain. A refused call leaves no time behind.
Times are in milliseconds; a clock that went back counts as no time passed.
-/
import Std.Data.ExtTreeMap
import TxRelay.Identity

set_option autoImplicit false

namespace TxRelay

/-- The accepted calls of every key (`SlidingWindowThrottler`). -/
structure Throttle (κ : Type) [Ord κ] where
  period : Nat
  /-- How many calls fit into it. -/
  limit : Nat
  /-- Times of accepted calls, oldest first. -/
  accepted : Std.ExtTreeMap κ (List Nat)

namespace Throttle

variable {κ : Type} [Ord κ] [Std.TransOrd κ]

/-- A throttle that has seen no call (`SlidingWindowThrottler::new`). -/
def new (period limit : Nat) : Throttle κ := ⟨period, limit, ∅⟩

/-- The times that still count, looking from the front until one does. -/
def fresh (period now : Nat) (times : List Nat) : List Nat :=
  times.dropWhile fun t => period ≤ now - t

/-- A call of a key; also says whether it is accepted
(`SlidingWindowThrottler::handle`). -/
def handle (t : Throttle κ) (key : κ) (now : Nat) : Throttle κ × Bool :=
  let times := fresh t.period now (t.accepted.getD key [])
  if t.limit ≤ times.length then ({ t with accepted := t.accepted.insert key times }, false)
  else ({ t with accepted := t.accepted.insert key (times ++ [now]) }, true)

/-- The throttle as if a key had never called
(`SlidingWindowThrottler::forget`). -/
def forget (t : Throttle κ) (key : κ) : Throttle κ :=
  { t with accepted := t.accepted.erase key }

/-- How many keys are kept track of (`SlidingWindowThrottler::tracked`). -/
def tracked (t : Throttle κ) : Nat := t.accepted.size

end Throttle

end TxRelay
