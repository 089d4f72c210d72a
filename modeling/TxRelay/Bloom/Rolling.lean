/-
The filter over a pool, rebuilt as its contents change.

A filter cannot forget, so what leaves a pool keeps matching. The stale part
stays small because the filter is replaced by an empty one under a fresh salt
once it has taken in more insertions than its rate of false positives allows;
the owner then inserts again what it still holds.

Salts are drawn at random. Which salts are drawn is not for the filter to
decide, so it is given the whole sequence of draws: generation `g` uses draw
`g`.
-/
import TxRelay.Bloom.Filter
import TxRelay.Bloom.Settings
import TxRelay.Identity

set_option autoImplicit false

namespace TxRelay.Bloom

/-- A salted filter and its policy (`GossipBloom`). -/
structure RollingFilter where
  settings : Settings
  salts : Nat → Salt
  filter : BloomFilter
  /-- How many insertions the filter may take in. -/
  maxCount : Nat
  /-- How many times the filter was replaced. -/
  resets : Nat

namespace RollingFilter

/-- An empty filter for a number of elements, and how many insertions it may
take in (`GossipBloom::sized`). -/
def fresh (s : Settings) (elements : Nat) : BloomFilter × Nat :=
  let size := Sizing.optimal (max elements s.minElements) s.targetRate
  (BloomFilter.new size.bits size.hashes, Sizing.capacity size.bits size.hashes s.resetRate)

/-- The first generation. -/
def start (s : Settings) (salts : Nat → Salt) : RollingFilter :=
  let (filter, maxCount) := fresh s s.minElements
  { settings := s, salts, filter, maxCount, resets := 0 }

/-- The first generation, if the settings make a filter (`GossipBloom::new`). -/
def new (s : Settings) (salts : Nat → Salt) : Except FilterError RollingFilter := do
  s.validate
  pure (start s salts)

/-- The salt of the current generation (`GossipBloom::salt`). -/
def salt (f : RollingFilter) : Salt := f.salts f.resets

/-- The filter with an id inserted (`GossipBloom::add`). -/
def add (f : RollingFilter) (id : Bytes) : RollingFilter :=
  { f with filter := f.filter.insert id f.salt.toList }

/-- Whether an id may have been inserted (`GossipBloom::has`). -/
def has (f : RollingFilter) (id : Bytes) : Bool :=
  f.filter.contains id f.salt.toList

/-- The next generation, empty (`GossipBloom::reset`). -/
def reset (f : RollingFilter) (elements : Nat) : RollingFilter :=
  let (filter, maxCount) := fresh f.settings elements
  { f with filter, maxCount, resets := f.resets + 1 }

/-- Whether the filter has taken in more than it may. -/
def isStale (f : RollingFilter) : Bool := f.maxCount < f.filter.n

/-- The filter if it may go on, else the next generation with the given ids,
sized for a number of elements (`GossipBloom::reset_if_needed`). -/
def refresh (f : RollingFilter) (elements : Nat) (ids : List Digest) : RollingFilter :=
  if f.isStale then ids.foldl (fun f id => f.add id.toList) (f.reset elements) else f

/-- The bytes of the filter and its salt, as they are sent to a peer
(`GossipBloom::marshal`). -/
def marshal (f : RollingFilter) : Bytes × Salt := (f.filter.toBytes, f.salt)

end RollingFilter

end TxRelay.Bloom
