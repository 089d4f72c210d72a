/-
The transfers of a pool and the ways of finding them.

A transfer is found by its id, by its time of arrival, by each input that it
spends, and, unless it was handed to block assembly, among those that may be
evicted: those from outside first, the oldest first among equals. A rolling
filter over the ids goes along; it is never told of departures, so it is built
anew when it has taken in too much. The last verdicts on refused transfers are
remembered as well.

As with the holdings of a sub-pool, putting in and taking out touch every
index and check nothing.
-/
import Std.Data.ExtTreeMap
import Std.Data.ExtTreeSet
import TxRelay.Bloom.Rolling
import TxRelay.Lru
import TxRelay.Transfer

set_option autoImplicit false

namespace TxRelay

/-- A pooled transfer (`Entry`). -/
structure PooledTransfer where
  tx : Transfer
  id : Digest
  /-- Whether it came in through this node's own interface. -/
  isLocal : Bool
  /-- When it arrived: the larger, the later. -/
  seq : Nat
  /-- Whether it was handed to block assembly. -/
  issued : Bool
deriving DecidableEq

/-- A place in the order of eviction (`Entry::eviction_key`). -/
structure EvictionKey where
  /-- Whether the transfer came in through this node's own interface. -/
  isLocal : Bool
  seq : Nat
  /-- The id, to tell apart what came together. -/
  id : Digest
deriving DecidableEq

namespace EvictionKey

/-- Those from outside first, then the oldest first, then by id. -/
def order : EvictionKey → EvictionKey → Ordering :=
  compareLex (compareOn isLocal) (compareLex (compareOn seq) (compareOn id))

instance : Ord EvictionKey := ⟨order⟩

instance : Std.TransOrd EvictionKey :=
  inferInstanceAs
    (Std.TransCmp (compareLex (compareOn isLocal) (compareLex (compareOn seq) (compareOn id))))

instance : Std.LawfulEqOrd EvictionKey where
  eq_of_compare {a b} h := by
    have h : (compare a.isLocal b.isLocal).then
        ((compare a.seq b.seq).then (compare a.id b.id)) = .eq := h
    rw [Ordering.then_eq_eq, Ordering.then_eq_eq] at h
    have h1 := Std.LawfulEqCmp.eq_of_compare h.1
    have h2 := Std.LawfulEqCmp.eq_of_compare h.2.1
    have h3 := Std.LawfulEqCmp.eq_of_compare h.2.2
    cases a; cases b; simp_all

/-- The place of a pooled transfer. -/
def of (e : PooledTransfer) : EvictionKey := ⟨e.isLocal, e.seq, e.id⟩

end EvictionKey

/-- The transfers of a pool (`MempoolStore`). -/
structure TransferStore where
  entries : Std.ExtTreeMap Digest PooledTransfer
  /-- Those that may be evicted. -/
  evictable : Std.ExtTreeSet EvictionKey
  byArrival : Std.ExtTreeMap Nat Digest
  spenders : Std.ExtTreeMap Digest Digest
  /-- The filter over the ids. -/
  filter : Bloom.RollingFilter
  /-- The last verdicts on refused transfers. -/
  verdicts : Lru Digest String
  /-- The next time of arrival. -/
  nextSeq : Nat

namespace TransferStore

/-- A store without transfers (`MempoolStore::new`). -/
def new (filter : Bloom.RollingFilter) (verdicts : Nat) : TransferStore :=
  ⟨∅, ∅, ∅, ∅, filter, Lru.new verdicts, 0⟩

/-- How many transfers there are. -/
def size (s : TransferStore) : Nat := s.entries.size

/-- How many transfers were not handed to block assembly
(`MempoolStore::pending_len`). -/
def pendingSize (s : TransferStore) : Nat := s.evictable.size

/-- Whether a transfer is there. -/
def contains (s : TransferStore) (id : Digest) : Bool := s.entries.contains id

/-- A transfer. -/
def get? (s : TransferStore) (id : Digest) : Option PooledTransfer := s.entries[id]?

/-- Those who spend an input of a transfer, each once, in the order of their ids
(`MempoolStore::conflicts`). -/
def rivals (s : TransferStore) (tx : Transfer) : List Digest :=
  (Std.ExtTreeSet.ofList (tx.inputs.filterMap fun input => s.spenders[input]?)).toList

/-! ## Putting in and taking out -/

/-- The pooled form of a transfer that arrives next. -/
def arriving (s : TransferStore) (tx : Transfer) (isLocal : Bool) : PooledTransfer :=
  ⟨tx, tx.id, isLocal, s.nextSeq, false⟩

/-- Puts in a transfer (`MempoolStore::insert`). -/
def insert (s : TransferStore) (tx : Transfer) (isLocal : Bool) : TransferStore :=
  let e := s.arriving tx isLocal
  { s with
    entries := s.entries.insert e.id e
    evictable := s.evictable.insert (EvictionKey.of e)
    byArrival := s.byArrival.insert e.seq e.id
    spenders := tx.inputs.foldl (fun m input => m.insert input e.id) s.spenders
    filter := s.filter.add e.id.toList
    nextSeq := s.nextSeq + 1 }

/-- The spenders without one of them, on the given inputs. -/
def unspend (id : Digest) (m : Std.ExtTreeMap Digest Digest) (inputs : List Digest) :
    Std.ExtTreeMap Digest Digest :=
  inputs.foldl (fun m input => if m[input]? = some id then m.erase input else m) m

/-- Takes out a transfer that is there. -/
def without (s : TransferStore) (e : PooledTransfer) : TransferStore :=
  { s with
    entries := s.entries.erase e.id
    evictable := if e.issued then s.evictable else s.evictable.erase (EvictionKey.of e)
    byArrival := s.byArrival.erase e.seq
    spenders := unspend e.id s.spenders e.tx.inputs }

/-- Takes out a transfer, if it is there (`MempoolStore::remove`). -/
def remove (s : TransferStore) (id : Digest) : TransferStore × Option PooledTransfer :=
  match s.get? id with
  | none => (s, none)
  | some e => (s.without e, some e)

/-- Takes out transfers one after the other; also says how many were there. -/
def removeAll (s : TransferStore) : List Digest → TransferStore × Nat
  | [] => (s, 0)
  | id :: rest =>
    match s.remove id with
    | (s, none) => s.removeAll rest
    | (s, some _) =>
      let (s, n) := s.removeAll rest
      (s, n + 1)

/-- Takes out the first transfer in the order of eviction
(`MempoolStore::evict_one`). -/
def evict (s : TransferStore) : TransferStore × Option PooledTransfer :=
  match s.evictable.min? with
  | none => (s, none)
  | some key => s.remove key.id

/-! ## Block assembly -/

/-- A transfer is handed to block assembly; false if it is not there or was
handed over before (`MempoolStore::mark_issued`). -/
def issue (s : TransferStore) (id : Digest) : TransferStore × Bool :=
  match s.get? id with
  | none => (s, false)
  | some e =>
    if e.issued then (s, false)
    else
      ({ s with
          entries := s.entries.insert id { e with issued := true }
          evictable := s.evictable.erase (EvictionKey.of e) }, true)

/-- A transfer comes back from block assembly; false if it is not there or was
not handed over (`MempoolStore::mark_pending`). -/
def reopen (s : TransferStore) (id : Digest) : TransferStore × Bool :=
  match s.get? id with
  | none => (s, false)
  | some e =>
    if e.issued then
      ({ s with
          entries := s.entries.insert id { e with issued := false }
          evictable := s.evictable.insert (EvictionKey.of e) }, true)
    else (s, false)

/-- Transfers come back one after the other; also says how many did. -/
def reopenAll (s : TransferStore) : List Digest → TransferStore × Nat
  | [] => (s, 0)
  | id :: rest =>
    let (s, back) := s.reopen id
    let (s, n) := s.reopenAll rest
    (s, if back then n + 1 else n)

/-- All transfers, oldest first. -/
def oldestFirst (s : TransferStore) : List PooledTransfer := s.byArrival.values.filterMap s.get?

/-- All transfers, newest first (`MempoolStore::newest_first`). -/
def newestFirst (s : TransferStore) : List PooledTransfer := s.oldestFirst.reverse

/-- Whether a transfer goes into a block before another one: for its higher
fee, or, of equal fees, for having arrived earlier. -/
def precedes (a b : PooledTransfer) : Bool :=
  b.tx.fee < a.tx.fee || (a.tx.fee == b.tx.fee && a.seq ≤ b.seq)

/-- The transfers that were not handed over, in the order in which they go into
a block (`MempoolStore::by_fee_desc`). -/
def byFee (s : TransferStore) : List PooledTransfer :=
  (s.entries.values.filter fun e => !e.issued).mergeSort precedes

/-! ## The filter and the verdicts -/

/-- Builds the filter anew over what is there, if it has taken in too much
(`MempoolStore::refresh_bloom`). -/
def refresh (s : TransferStore) : TransferStore :=
  { s with filter := s.filter.refresh (s.size * s.filter.settings.churn) s.entries.keys }

/-- Remembers a verdict (`MempoolStore::remember_rejection`). -/
def remember (s : TransferStore) (id : Digest) (reason : String) : TransferStore :=
  { s with verdicts := s.verdicts.put id reason }

/-- The verdict on a transfer; looking keeps it from being forgotten
(`MempoolStore::rejection`). -/
def verdict (s : TransferStore) (id : Digest) : TransferStore × Option String :=
  ({ s with verdicts := s.verdicts.touch id }, s.verdicts.peek? id)

end TransferStore

end TxRelay
