/-
The pool of cross-chain transfers.

A transfer is let in if it is new, was not refused a moment ago, is acceptable
and not behind its account, and if every pooled transfer that spends one of
its inputs can be outbid: not handed to block assembly, and paying a strictly
lower fee. Those are then thrown out, so that no two pooled transfers ever
spend the same input. If the pool has grown too large, the first in the order
of eviction has to go, which may be the newcomer itself.

Block assembly takes the transfers with the highest fees. They stay pooled,
protected from rivals and from eviction, until they are confirmed or given
back.

What the execution layer answers is an argument of the calls that ask it, and
the draws of salts are part of the filter.
-/
import TxRelay.Bus
import TxRelay.Ledger
import TxRelay.Mempool.Error
import TxRelay.Mempool.Store
import TxRelay.Visit

set_option autoImplicit false

namespace TxRelay

/-- The limits of the pool (`MempoolConfig`). -/
structure MempoolSettings where
  /-- How many transfers it holds, those handed to block assembly included. -/
  maxSize : Nat
  /-- How many verdicts it remembers. -/
  verdicts : Nat
  /-- How its filter is sized. -/
  filter : Bloom.Settings
deriving Inhabited

namespace MempoolSettings

/-- What a node uses (`MempoolConfig::default`). -/
def standard : MempoolSettings := ⟨4096, 50, .standard⟩

/-- Limits that are soon reached (`MempoolConfig::for_testing`). -/
def small : MempoolSettings := ⟨16, 8, .small⟩

/-- Refuses settings that make no pool; the first fault counts
(`MempoolConfig::validate`). -/
def validate (s : MempoolSettings) : Except Bloom.FilterError Unit :=
  if s.maxSize = 0 then .error (.invalidParameters "mempool max_size must be > 0")
  else s.filter.validate

end MempoolSettings

/-- The pool of transfers (`Mempool`). -/
structure Mempool where
  settings : MempoolSettings
  store : TransferStore
  /-- Where it announces what it lets in. -/
  bus : Bus

namespace Mempool

/-- An empty pool, if the settings make one (`Mempool::new`). -/
def new (settings : MempoolSettings) (salts : Nat → Salt) : Except MempoolError Mempool :=
  match settings.validate with
  | .error e => .error (.filter e)
  | .ok () =>
    .ok {
      settings
      store := TransferStore.new (Bloom.RollingFilter.start settings.filter salts) settings.verdicts
      bus := Bus.new Bus.standardCapacity }

/-! ## Letting in -/

/-- Whether a transfer outbids a pooled one that is not protected. -/
def outbids (s : TransferStore) (tx : Transfer) (rival : Digest) : Bool :=
  match s.get? rival with
  | some e => !e.issued && e.tx.fee < tx.fee
  | none => false

/-- What the chain and the pooled rivals say about a transfer
(`Mempool::check`). -/
def check (b : TransferBackend) (s : TransferStore) (tx : Transfer) : Except MempoolError Unit :=
  match b.validate tx with
  | .error reason => .error (.invalid reason)
  | .ok () =>
    if tx.nonce < b.nonce tx.account then .error (.nonceTooLow (b.nonce tx.account) tx.nonce)
    else if (s.rivals tx).all (outbids s tx) then .ok ()
    else .error (.conflict (s.rivals tx))

/-- Evicts up to `n` transfers; also says which. -/
def evictUpTo : Nat → TransferStore → TransferStore × List Digest
  | 0, s => (s, [])
  | n + 1, s =>
    match s.evict with
    | (s, none) => (s, [])
    | (s, some e) =>
      let (s, ids) := evictUpTo n s
      (s, e.id :: ids)

/-- Puts in a transfer that passed the check: its rivals go, then whoever is
too many, and the filter is refreshed. Also says who was evicted. -/
def place (maxSize : Nat) (s : TransferStore) (tx : Transfer) (isLocal : Bool) :
    TransferStore × List Digest :=
  let s := (s.removeAll (s.rivals tx)).1.insert tx isLocal
  let (s, evicted) := evictUpTo (s.size - maxSize) s
  (s.refresh, evicted)

/-- Whether a transfer is pooled already. The filter is asked first; it never
forgets, so what it does not report need not be looked up. -/
def isKnown (s : TransferStore) (id : Digest) : Bool := s.filter.has id.toList && s.contains id

/-- **A transfer is offered** (`Mempool::add`). -/
def add (p : Mempool) (b : TransferBackend) (tx : Transfer) (isLocal : Bool) :
    Mempool × Except MempoolError Unit :=
  let id := tx.id
  if isKnown p.store id then (p, .error (.duplicate id))
  else
    match p.store.verdict id with
    | (s, some reason) => ({ p with store := s }, .error (.previouslyRejected reason))
    | (s, none) =>
      match check b s tx with
      | .error e =>
        ({ p with store := if e.isMemorable then s.remember id e.message else s }, .error e)
      | .ok () =>
        let (s, evicted) := place p.settings.maxSize s tx isLocal
        if evicted.contains id then ({ p with store := s }, .error .full)
        else
          ({ p with store := s, bus := (p.bus.publish (.transfers [tx] isLocal)).1 }, .ok ())

/-- A transfer is offered through this node's own interface
(`Mempool::add_local`). -/
def addLocal (p : Mempool) (b : TransferBackend) (tx : Transfer) :
    Mempool × Except MempoolError Unit :=
  p.add b tx true

/-! ## Block assembly -/

/-- Hands up to `max` transfers to block assembly, the highest fee first
(`Mempool::propose`). -/
def propose (p : Mempool) (max : Nat) : Mempool × List Transfer :=
  let picked := p.store.byFee.take max
  ({ p with store := picked.foldl (fun s e => (s.issue e.id).1) p.store },
    picked.map PooledTransfer.tx)

/-- Takes out transfers that are in a block; also says how many were pooled
(`Mempool::confirm`). -/
def confirm (p : Mempool) (ids : List Digest) : Mempool × Nat :=
  let (s, n) := p.store.removeAll ids
  ({ p with store := s.refresh }, n)

/-- Transfers come back from block assembly; also says how many did
(`Mempool::rollback`). -/
def rollback (p : Mempool) (ids : List Digest) : Mempool × Nat :=
  let (s, n) := p.store.reopenAll ids
  ({ p with store := s }, n)

/-- Takes out a transfer that is not acceptable any more and remembers why; also
says whether it was pooled (`Mempool::discard`). -/
def discard (p : Mempool) (id : Digest) (reason : String) : Mempool × Bool :=
  let (s, e) := p.store.remove id
  ({ p with store := s.remember id reason }, e.isSome)

/-! ## Queries -/

/-- Whether a transfer is pooled (`Mempool::has`). -/
def has (p : Mempool) (id : Digest) : Bool := p.store.contains id

/-- A pooled transfer (`Mempool::get`). -/
def get? (p : Mempool) (id : Digest) : Option Transfer := (p.store.get? id).map PooledTransfer.tx

/-- Whether the filter reports an id (`Mempool::filter_contains`). -/
def filterHas (p : Mempool) (id : Digest) : Bool := p.store.filter.has id.toList

/-- How many transfers are pooled (`Mempool::len`). -/
def size (p : Mempool) : Nat := p.store.size

/-- How many transfers were not handed to block assembly
(`Mempool::pending_len`). -/
def pendingSize (p : Mempool) : Nat := p.store.pendingSize

/-- The pooled transfers, newest first (`Mempool::iterate`). -/
def newestFirst (p : Mempool) : List Transfer := p.store.newestFirst.map PooledTransfer.tx

/-- The filter that goes along, and its salt (`Mempool::filter`). -/
def filter (p : Mempool) : Bytes × Salt := p.store.filter.marshal

/-- A filter over what is pooled now, at another rate and under a new salt
(`Mempool::build_filter`). -/
def buildFilter (p : Mempool) (rate : Float) (salt : Salt) : Except MempoolError (Bytes × Salt) :=
  if !Bloom.Settings.isRate rate then .error (.filter (.invalidRate rate))
  else
    let empty := Bloom.BloomFilter.sized (max p.size p.settings.filter.minElements) rate
    let filter := p.store.newestFirst.foldl (fun f e => f.insert e.id.toList salt.toList) empty
    .ok (filter.toBytes, salt)

/-! ## Subscribers -/

/-- A new subscription to the transfers that are let in (`Mempool::subscribe`). -/
def subscribe (p : Mempool) : Mempool × Nat :=
  let (bus, id) := p.bus.subscribe [.transfers]
  ({ p with bus }, id)

/-- Ends every subscription (`Mempool::close`). -/
def close (p : Mempool) : Mempool := { p with bus := p.bus.close }

end Mempool

end TxRelay
