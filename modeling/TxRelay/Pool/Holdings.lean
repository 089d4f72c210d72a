/-
The transactions of one sub-pool and the four ways of finding them.

A transaction is found by its digest, by its sender and nonce, by its time of
arrival, and, unless it came in through this node's own interface, among those
that may be evicted, cheapest first and oldest first among equals. The four
are kept side by side; putting in and taking out touch all of them, and check
nothing: who puts in has looked for duplicates and for the nonce being taken.
-/
import Std.Data.ExtTreeMap
import Std.Data.ExtTreeSet
import TxRelay.Transaction

set_option autoImplicit false

namespace TxRelay

/-- A pooled transaction (`PooledTx`). -/
structure Pooled where
  tx : Transaction
  hash : Digest
  /-- Whether it came in through this node's own interface. -/
  isLocal : Bool
  /-- When it arrived: the larger, the later. -/
  seq : Nat
deriving DecidableEq, Inhabited

/-- A place in the order of eviction (`PricedTx`). -/
structure PriceKey where
  /-- What is paid for a unit of gas. -/
  price : Amount
  seq : Nat
  /-- The digest, to tell apart what came together. -/
  hash : Digest
deriving DecidableEq

namespace PriceKey

/-- Cheapest first, then oldest first, then by digest. -/
def order : PriceKey → PriceKey → Ordering :=
  compareLex (compareOn price) (compareLex (compareOn seq) (compareOn hash))

instance : Ord PriceKey := ⟨order⟩

instance : Std.TransOrd PriceKey :=
  inferInstanceAs
    (Std.TransCmp (compareLex (compareOn price) (compareLex (compareOn seq) (compareOn hash))))

instance : Std.LawfulEqOrd PriceKey where
  eq_of_compare {a b} h := by
    have h : (compare a.price b.price).then ((compare a.seq b.seq).then (compare a.hash b.hash)) = .eq := h
    rw [Ordering.then_eq_eq, Ordering.then_eq_eq] at h
    have h1 := Std.LawfulEqCmp.eq_of_compare h.1
    have h2 := Std.LawfulEqCmp.eq_of_compare h.2.1
    have h3 := Std.LawfulEqCmp.eq_of_compare h.2.2
    cases a; cases b; simp_all

/-- The place of a pooled transaction. -/
def of (p : Pooled) : PriceKey := ⟨p.tx.gasPrice, p.seq, p.hash⟩

end PriceKey

/-- The transactions of a sub-pool (`AccountPool`). -/
structure Holdings where
  byHash : Std.ExtTreeMap Digest Pooled
  /-- By sender, then by nonce. -/
  bySender : Std.ExtTreeMap Address (Std.ExtTreeMap UInt64 Digest)
  /-- Those that may be evicted. -/
  evictable : Std.ExtTreeSet PriceKey
  byArrival : Std.ExtTreeMap Nat Digest
  /-- The next time of arrival. -/
  nextSeq : Nat
deriving DecidableEq

namespace Holdings

/-- Nothing is held. -/
def empty : Holdings := ⟨∅, ∅, ∅, ∅, 0⟩

instance : Inhabited Holdings := ⟨empty⟩

/-- How many transactions are held. -/
def size (h : Holdings) : Nat := h.byHash.size

/-- Whether a transaction is held (`AccountPool::contains`). -/
def contains (h : Holdings) (hash : Digest) : Bool := h.byHash.contains hash

/-- A held transaction (`AccountPool::get`). -/
def get? (h : Holdings) (hash : Digest) : Option Pooled := h.byHash[hash]?

/-- The nonces of a sender (`AccountPool::account_txs`). -/
def nonces (h : Holdings) (sender : Address) : Std.ExtTreeMap UInt64 Digest :=
  h.bySender.getD sender ∅

/-- The transaction of a sender at a nonce (`AccountPool::by_nonce`). -/
def atNonce? (h : Holdings) (sender : Address) (nonce : UInt64) : Option Pooled :=
  (h.nonces sender)[nonce]?.bind h.get?

/-- How many transactions of a sender are held (`AccountPool::sender_count`). -/
def senderCount (h : Holdings) (sender : Address) : Nat := (h.nonces sender).size

/-- Whose transactions are held (`AccountPool::senders`). -/
def senders (h : Holdings) : List Address := h.bySender.keys

/-- The transactions of a sender by nonce (`AccountPool::account_txs`). -/
def ofSender (h : Holdings) (sender : Address) : List Pooled :=
  (h.nonces sender).values.filterMap h.get?

/-- The senders with a transaction that came in through this node's own
interface (`AccountPool::local_senders`). -/
def localSenders (h : Holdings) : List Address :=
  h.senders.filter fun sender => (h.ofSender sender).any Pooled.isLocal

/-- The first to be evicted (`AccountPool::cheapest_remote`). -/
def cheapest? (h : Holdings) : Option PriceKey := h.evictable.min?

/-- All transactions, newest first (`AccountPool::newest_first`). -/
def newestFirst (h : Holdings) : List Pooled := h.byArrival.values.reverse.filterMap h.get?

/-! ## Putting in and taking out -/

/-- The pooled form of a transaction that arrives next. -/
def arriving (h : Holdings) (tx : Transaction) (isLocal : Bool) : Pooled :=
  ⟨tx, tx.hash, isLocal, h.nextSeq⟩

/-- Puts in a transaction (`AccountPool::insert`). -/
def insert (h : Holdings) (tx : Transaction) (isLocal : Bool) : Holdings :=
  let p := h.arriving tx isLocal
  { byHash := h.byHash.insert p.hash p
    bySender := h.bySender.insert tx.sender ((h.nonces tx.sender).insert tx.nonce p.hash)
    evictable := if isLocal then h.evictable else h.evictable.insert (PriceKey.of p)
    byArrival := h.byArrival.insert p.seq p.hash
    nextSeq := h.nextSeq + 1 }

/-- Without a nonce of a sender; a sender without nonces is dropped. -/
def withoutNonce (h : Holdings) (sender : Address) (nonce : UInt64) :
    Std.ExtTreeMap Address (Std.ExtTreeMap UInt64 Digest) :=
  let rest := (h.nonces sender).erase nonce
  if rest.isEmpty then h.bySender.erase sender else h.bySender.insert sender rest

/-- Takes out a transaction that is held. -/
def without (h : Holdings) (p : Pooled) : Holdings :=
  { h with
    byHash := h.byHash.erase p.hash
    bySender := h.withoutNonce p.tx.sender p.tx.nonce
    evictable := if p.isLocal then h.evictable else h.evictable.erase (PriceKey.of p)
    byArrival := h.byArrival.erase p.seq }

/-- Takes out a transaction, if it is held (`AccountPool::remove`). -/
def remove (h : Holdings) (hash : Digest) : Holdings × Option Pooled :=
  match h.get? hash with
  | none => (h, none)
  | some p => (h.without p, some p)

/-- Takes out everything; times of arrival go on from where they were
(`AccountPool::clear`). -/
def clear (h : Holdings) : Holdings := { empty with nextSeq := h.nextSeq }

/-! ## Executable and waiting transactions -/

/-- The unbroken run of nonces from a given one, and the rest. -/
def run : UInt64 → List Pooled → List Pooled × List Pooled
  | _, [] => ([], [])
  | nonce, p :: rest =>
    if p.tx.nonce = nonce then
      let (pending, queued) := run (nonce + 1) rest
      (p :: pending, queued)
    else ([], p :: rest)

/-- The transactions of a sender that can be executed one after the other from
its next nonce on, and those that cannot (`AccountPool::split`). -/
def split (h : Holdings) (sender : Address) (next : UInt64) : List Pooled × List Pooled :=
  run next (h.ofSender sender)

/-- The nonce after the executable transactions of a sender
(`AccountPool::next_nonce`). -/
def nextNonce (h : Holdings) (sender : Address) (next : UInt64) : UInt64 :=
  next + UInt64.ofNat (h.split sender next).1.length

end Holdings

end TxRelay
