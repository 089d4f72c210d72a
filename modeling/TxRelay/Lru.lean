/-
A bounded map that forgets what was used least recently.

Entries are kept in the order of their last use, most recent first. Writing an
entry and looking one up count as uses; looking without using does not.
-/
set_option autoImplicit false

namespace TxRelay

/-- A bounded map (`LruCache`). -/
structure Lru (κ ν : Type) where
  capacity : Nat
  /-- The entries, most recently used first. -/
  entries : List (κ × ν)

namespace Lru

variable {κ ν : Type} [DecidableEq κ]

/-- An empty map for at least one entry (`LruCache::new`). -/
def new (capacity : Nat) : Lru κ ν := ⟨max 1 capacity, []⟩

/-- The value of a key, without using it (`LruCache::peek`). -/
def peek? (m : Lru κ ν) (k : κ) : Option ν :=
  (m.entries.find? fun e => e.1 = k).map Prod.snd

/-- The entries of the other keys. -/
def others (m : Lru κ ν) (k : κ) : List (κ × ν) :=
  m.entries.filter fun e => e.1 ≠ k

/-- The map with a value for a key, used just now (`LruCache::put`). -/
def put (m : Lru κ ν) (k : κ) (v : ν) : Lru κ ν :=
  { m with entries := ((k, v) :: m.others k).take m.capacity }

/-- The map after using a key. -/
def touch (m : Lru κ ν) (k : κ) : Lru κ ν :=
  match m.peek? k with
  | some v => { m with entries := (k, v) :: m.others k }
  | none => m

end Lru

end TxRelay
