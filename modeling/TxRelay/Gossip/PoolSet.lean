/-
The ordinary transactions of a node as a collection to be gossiped.

Peers are offered what is executable. The filter is fed from the coordinator's
announcements, which are read whenever a filter is asked for; a rebuilt filter
starts with what is executable at that moment.
-/
import TxRelay.Bloom.Rolling
import TxRelay.Gossip.Item
import TxRelay.Pool.Coordinator
import TxRelay.Pool.NoncePool

set_option autoImplicit false

namespace TxRelay

/-- A coordinator and the filter over what it lets in (`PoolGossipSet`). -/
structure PoolSet where
  pool : Coordinator NoncePool
  filter : Bloom.RollingFilter
  /-- The subscription that feeds the filter. -/
  subscription : Nat

namespace PoolSet

/-- What the execution layer answers to each sub-pool. -/
abbrev Views := Nat → Backend

/-- Adds transactions to a filter. -/
def feed (f : Bloom.RollingFilter) (txs : List Transaction) : Bloom.RollingFilter :=
  txs.foldl (fun f tx => f.add tx.hash.toList) f

/-- The filter starts with what is executable (`PoolGossipSet::new`). -/
def new (pool : Coordinator NoncePool) (views : Views) (settings : Bloom.Settings)
    (salts : Nat → Salt) : Except GossipError PoolSet :=
  match Bloom.RollingFilter.new settings salts with
  | .error e => .error (.filter e)
  | .ok filter =>
    let (pool, subscription) := pool.subscribe [.transactions]
    .ok { pool, filter := feed filter (pool.executable views), subscription }

/-- The transactions that announcements name. -/
def announced (es : List Event) : List Transaction :=
  es.flatMap fun e => match e with
    | .transactions txs _ => txs
    | _ => []

/-- Reads the announcements of a subscription. -/
def drain (s : PoolSet) (subscription : Nat) : PoolSet × List Event × Reading :=
  let (bus, es, last) := s.pool.commons.bus.drain subscription
  ({ s with pool := { s.pool with commons := { s.pool.commons with bus } } }, es, last)

/-- Feeds the filter, and builds it anew if it has taken in too much
(`PoolGossipSet::sync_bloom`). The filter is closed together with the
coordinator. -/
def sync (s : PoolSet) (views : Views) : PoolSet × Except GossipError Unit :=
  let (s, es, last) := s.drain s.subscription
  let s := { s with filter := feed s.filter (announced es) }
  if last = .ended then (s, .error .closed)
  else
    let room := s.pool.pendingSize views * s.filter.settings.churn
    ({ s with filter := s.filter.refresh room ((s.pool.executable views).map Transaction.hash) },
      .ok ())

/-- Takes in a transaction from a peer (`PoolGossipSet::add`). -/
def add (s : PoolSet) (views : Views) (tx : Transaction) : PoolSet × Except GossipError Unit :=
  let (pool, outcomes) := s.pool.add views [tx] false false
  ({ s with pool },
    match outcomes.getLast? with
    | some (.ok ()) => .ok ()
    | some (.error e) => if e.isAlreadyKnown then .ok () else .error (.rejected e.message)
    | none => .error (.rejected "no result"))

instance : GossipSet PoolSet Transaction Views where
  add := add
  has s id := s.pool.has id
  items s views := s.pool.executable views
  filter s views :=
    match s.sync views with
    | (s, .ok ()) => (s, .ok s.filter.marshal)
    | (s, .error e) => (s, .error e)
  subscribe s :=
    let (pool, id) := s.pool.subscribe [.transactions]
    ({ s with pool }, id)
  drain s id :=
    let (s, es, _) := s.drain id
    (s, es)
  hasNews s id := s.pool.commons.bus.hasNews id

end PoolSet

end TxRelay
