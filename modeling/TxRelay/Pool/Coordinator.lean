/-
One pool out of several sub-pools.

A batch is split among the sub-pools, each transaction going to the first one
that claims it, and the outcomes are put back in the order of the batch.
Queries go to every sub-pool and are merged. New heads are followed by the
reset loop, which resets every sub-pool in order and then announces the head.

The coordinator keeps a journal of the calls that change a sub-pool. Nothing
depends on it; it says what was asked of whom, in which order.
-/
import TxRelay.Pool.ResetLoop
import TxRelay.Pool.SubPool
import TxRelay.Visit

set_option autoImplicit false

namespace TxRelay

/-- A call to a sub-pool, by its index. -/
inductive PoolCall where
  | attach (pool : Nat)
  /-- It was told to leave its seat. -/
  | detach (pool : Nat)
  /-- It was reset from one head to another. -/
  | reset (pool : Nat) (old new : Header)
  | add (pool count : Nat) (isLocal sync : Bool)
deriving DecidableEq

/-- A pool of sub-pools (`PoolCoordinator`). -/
structure Coordinator (σ : Type) where
  pools : List σ
  commons : Commons
  /-- The head of the last completed reset. -/
  head : Header
  /-- How many resets were completed. -/
  resets : Nat
  /-- The loop that follows the chain. -/
  loop : ResetLoop
  /-- Whether the coordinator is closed. -/
  closed : Bool
  /-- The calls to sub-pools, oldest first. -/
  journal : List PoolCall

namespace Coordinator

variable {σ : Type} [SubPool σ]

/-! ## Start and end -/

/-- What becomes of sub-pools that were told to leave their seats, last first. -/
def detachLast (c : Commons) : List σ → List σ × Commons
  | [] => ([], c)
  | p :: rest =>
    let (rest, c) := detachLast c rest
    let (p, c, _) := SubPool.detach p c
    (p :: rest, c)

/-- Gives seats to the sub-pools from index `seat` on. If one does not take it,
the error is its own, or names it. -/
def attachFrom (head : Header) : Nat → List σ → List σ × Except PoolError Unit
  | _, [] => ([], .ok ())
  | seat, p :: rest =>
    match SubPool.attach p seat head with
    | (p, .ok ()) =>
      let (rest, r) := attachFrom head (seat + 1) rest
      (p :: rest, r)
    | (p, .error (.attachFailed name reason)) => (p :: rest, .error (.attachFailed name reason))
    | (p, .error e) => (p :: rest, .error (.attachFailed (SubPool.name p) e.message))

/-- How many sub-pools take their seats before one does not. -/
def attachable (head : Header) : Nat → List σ → Nat
  | _, [] => 0
  | seat, p :: rest =>
    match (SubPool.attach p seat head).2 with
    | .ok () => attachable head (seat + 1) rest + 1
    | .error _ => 0

/-- What came of starting a coordinator. -/
inductive Started (σ : Type) where
  | running (c : Coordinator σ)
  /-- None: the error, the sub-pools afterwards and the calls to them. -/
  | failed (e : PoolError) (pools : List σ) (journal : List PoolCall)

/-- **Start** (`PoolCoordinator::new`). Every sub-pool takes its seat, in order.
If one does not, those before it leave theirs, last first. -/
def start (head : Header) (pools : List σ) : Started σ :=
  let commons : Commons := ⟨Reservations.new pools.length, Bus.new Bus.standardCapacity⟩
  let n := attachable head 0 pools
  match attachFrom head 0 pools with
  | (pools, .ok ()) =>
    .running
      { pools, commons, head, resets := 0, loop := ResetLoop.start head, closed := false
        journal := (List.range pools.length).map .attach }
  | (pools, .error e) =>
    let (seated, _) := detachLast commons (pools.take n)
    .failed e (seated ++ pools.drop n)
      ((List.range (n + 1)).map .attach ++ (List.range n).reverse.map .detach)

/-- Tells every sub-pool to leave its seat, in order. -/
def detachAll : Commons → List σ → List σ × Commons × List PoolError
  | c, [] => ([], c, [])
  | c, p :: rest =>
    let (p, c, r) := SubPool.detach p c
    let (rest, c, errors) := detachAll c rest
    (p :: rest, c, match r with
      | .ok () => errors
      | .error e => e :: errors)

/-! ## Batches -/

/-- The index of the sub-pool that a transaction goes to. -/
def route? (pools : List σ) (tx : Transaction) : Option Nat :=
  pools.findIdx? fun p => SubPool.claims p tx

/-- The transactions of a batch that go to a sub-pool. -/
def share (pools : List σ) (txs : List Transaction) (pool : Nat) : List Transaction :=
  txs.filter fun tx => route? pools tx == some pool

/-- Hands each sub-pool from index `pool` on its share, if it has any. The
outcomes are those of each sub-pool. -/
def addFrom (views : Nat → Backend) (shares : Nat → List Transaction) (isLocal sync : Bool) :
    Nat → Commons → List σ → List σ × Commons × List (List Outcome)
  | _, c, [] => ([], c, [])
  | pool, c, p :: rest =>
    if (shares pool).isEmpty then
      let (rest, c, outcomes) := addFrom views shares isLocal sync (pool + 1) c rest
      (p :: rest, c, [] :: outcomes)
    else
      let (p, c, own) := SubPool.add p (views pool) c (shares pool) isLocal sync
      let (rest, c, outcomes) := addFrom views shares isLocal sync (pool + 1) c rest
      (p :: rest, c, own :: outcomes)

/-- The outcomes of a batch, given for each transaction the index of its
sub-pool and for each sub-pool its outcomes in order. -/
def reassemble : List (Option Nat) → List (List Outcome) → List Outcome
  | [], _ => []
  | none :: rest, outcomes => .error .unsupportedType :: reassemble rest outcomes
  | some pool :: rest, outcomes =>
    match outcomes[pool]? with
    | some (r :: own) => r :: reassemble rest (outcomes.set pool own)
    | _ => .error (.internal "sub-pool returned no result") :: reassemble rest outcomes

/-- **A batch** (`PoolCoordinator::add`). -/
def add (c : Coordinator σ) (views : Nat → Backend) (txs : List Transaction) (isLocal sync : Bool) :
    Coordinator σ × List Outcome :=
  let shares := share c.pools txs
  let (pools, commons, outcomes) := addFrom views shares isLocal sync 0 c.commons c.pools
  let busy := (List.range c.pools.length).filter fun pool => !(shares pool).isEmpty
  ({ c with
      pools, commons
      journal := c.journal ++ busy.map fun pool => .add pool (shares pool).length isLocal sync },
    reassemble (txs.map (route? c.pools)) outcomes)

/-- One transaction from this node's own interface
(`PoolCoordinator::add_local`). -/
def addLocal (c : Coordinator σ) (views : Nat → Backend) (tx : Transaction) :
    Coordinator σ × Outcome :=
  let (c, outcomes) := c.add views [tx] true false
  (c, outcomes.getLastD (.error (.internal "empty result")))

/-! ## Following the chain -/

/-- Resets the sub-pools from index `pool` on, until one breaks off
(`ResetLoop::spawn_reset`). Also says whether none did, and which calls were
made. -/
def resetFrom (views : Nat → Backend) (old new : Header) :
    Nat → Commons → List σ → List σ × Commons × Bool × List PoolCall
  | _, c, [] => ([], c, true, [])
  | pool, c, p :: rest =>
    match SubPool.reset p (views pool) c old new with
    | none => (p :: rest, c, false, [.reset pool old new])
    | some (p, c) =>
      let (rest, c, whole, calls) := resetFrom views old new (pool + 1) c rest
      (p :: rest, c, whole, .reset pool old new :: calls)

/-- A new head arrives (`ResetLoop::run`). -/
def notify (c : Coordinator σ) (head : Header) : Coordinator σ :=
  { c with loop := c.loop.step (.head head) }

/-- Carries out the reset that is under way and tells the loop that it ended
(`ResetLoop::spawn_reset`). A reset that breaks off leaves head, count and bus
alone. -/
def finishReset (c : Coordinator σ) (views : Nat → Backend) : Coordinator σ :=
  match c.loop.running with
  | none => c
  | some (old, new) =>
    let (pools, commons, whole, calls) := resetFrom views old new 0 c.commons c.pools
    let c := { c with pools, commons, journal := c.journal ++ calls, loop := c.loop.step .done }
    if whole then
      { c with
        head := new, resets := c.resets + 1
        commons := { c.commons with bus := (c.commons.bus.publish (.reorg new)).1 } }
    else c

/-- Heads arrive in a burst, and the loop comes to rest: at most one reset goes
on from the one that the burst started (`ResetLoop::run`). -/
def follow (c : Coordinator σ) (views : Nat → Backend) (heads : List Header) : Coordinator σ :=
  ((heads.foldl notify c).finishReset views).finishReset views

/-- **Close** (`PoolCoordinator::close`). A reset under way is finished, every
subscription ends, every sub-pool leaves its seat, in order. Closing again
changes nothing. -/
def close (c : Coordinator σ) (views : Nat → Backend) : Coordinator σ × Outcome :=
  if c.closed then (c, .ok ())
  else
    let c := ({ c with loop := c.loop.step .stop } : Coordinator σ).finishReset views
    let commons := { c.commons with bus := c.commons.bus.close }
    let (pools, commons, errors) := detachAll commons c.pools
    ({ c with
        pools, commons, closed := true
        journal := c.journal ++ (List.range c.pools.length).map .detach },
      match errors with
      | [] => .ok ()
      | e :: rest => .error (.detachFailed (e :: rest)))

/-! ## Queries -/

/-- The sub-pools with what their execution layer answers. -/
def viewed (c : Coordinator σ) (views : Nat → Backend) : List (σ × Backend) :=
  c.pools.mapIdx fun i p => (p, views i)

/-- A transaction that some sub-pool holds (`PoolCoordinator::get`). -/
def get? (c : Coordinator σ) (hash : Digest) : Option Transaction :=
  c.pools.findSome? fun p => SubPool.get? p hash

/-- Whether some sub-pool holds a transaction (`PoolCoordinator::has`). -/
def has (c : Coordinator σ) (hash : Digest) : Bool :=
  c.pools.any fun p => (SubPool.get? p hash).isSome

/-- Whether some sub-pool holds a transaction from this node's own interface
(`PoolCoordinator::has_local`). -/
def hasLocal (c : Coordinator σ) (hash : Digest) : Bool :=
  c.pools.any fun p => SubPool.hasLocal p hash

/-- What the first sub-pool that knows a transaction says
(`PoolCoordinator::status`). -/
def status (c : Coordinator σ) (views : Nat → Backend) (hash : Digest) : TxStatus :=
  (((c.viewed views).map fun v => SubPool.status v.1 v.2 hash).find? (· != .unknown)).getD .unknown

/-- The executable transactions of given accounts, or of all
(`PoolCoordinator::pending`). -/
def pending (c : Coordinator σ) (views : Nat → Backend) (accounts : Option (List Address)) :
    AccountTxs :=
  (c.viewed views).foldl (fun m v => AccountTxs.extend m (SubPool.pending v.1 v.2 accounts)) ∅

/-- Everything held (`PoolCoordinator::content`). -/
def content (c : Coordinator σ) (views : Nat → Backend) : PoolContent :=
  (c.viewed views).foldl (fun m v => m.merge (SubPool.content v.1 v.2)) PoolContent.empty

/-- What is held of one account (`PoolCoordinator::content_from`). -/
def contentOf (c : Coordinator σ) (views : Nat → Backend) (account : Address) : AccountContent :=
  (c.viewed views).foldl (fun m v => m.merge (SubPool.contentOf v.1 v.2 account)) ⟨[], []⟩

/-- The executable transactions: sub-pool by sub-pool, newest first in each
(`PoolCoordinator::iterate_pending`). -/
def executable (c : Coordinator σ) (views : Nat → Backend) : List Transaction :=
  (c.viewed views).flatMap fun v => SubPool.executable v.1 v.2

/-- The highest nonce that a sub-pool reports for an account
(`PoolCoordinator::nonce`). -/
def nonce (c : Coordinator σ) (views : Nat → Backend) (account : Address) : UInt64 :=
  (c.viewed views).foldl (fun n v => max n (SubPool.nonce v.1 v.2 account)) 0

/-- How many transactions are held (`PoolCoordinator::stats`). -/
def stats (c : Coordinator σ) (views : Nat → Backend) : PoolStats :=
  (c.viewed views).foldl (fun s v => s.merge (SubPool.stats v.1 v.2)) ⟨0, 0⟩

/-- How many transactions are executable (`PoolCoordinator::pending_size`). -/
def pendingSize (c : Coordinator σ) (views : Nat → Backend) : Nat :=
  (c.viewed views).foldl (fun n v => n + (SubPool.stats v.1 v.2).pending) 0

/-- The accounts with transactions from this node's own interface, each once
(`PoolCoordinator::locals`). -/
def locals (c : Coordinator σ) : List Address :=
  (c.pools.flatMap SubPool.locals).eraseDups

/-- The names of the sub-pools (`PoolCoordinator::subpool_names`). -/
def names (c : Coordinator σ) : List String := c.pools.map SubPool.name

/-- A new subscription to the bus. -/
def subscribe (c : Coordinator σ) (topics : List Topic) : Coordinator σ × Nat :=
  let (bus, id) := c.commons.bus.subscribe topics
  ({ c with commons := { c.commons with bus } }, id)

end Coordinator

end TxRelay
