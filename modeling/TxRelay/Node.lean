/-
A node: a chain, the two pools above it, and the two gossip protocols that
keep the pools in step with those of other nodes.

Both pools look at the same ledger. What is submitted comes in through the
node's own interface, and submitting what is there already is fine. A block
holds every executable transaction, account by account, and every pooled
transfer; once it is carried out the pools follow.

The node itself sends nothing. What it has to say is handed to whoever runs
the hub, and what others say is handed to it.
-/
import TxRelay.Gossip.PoolSet
import TxRelay.Gossip.Service
import TxRelay.Gossip.TransferSet
import TxRelay.Node.Error
import TxRelay.Node.Settings

set_option autoImplicit false

namespace TxRelay

/-- A node (`Node`). -/
structure Node where
  network : Network
  /-- What its chain remembers. -/
  ledger : Ledger
  head : Header
  /-- The protocol of ordinary transactions, with their pool. -/
  ordinary : Service PoolSet Transaction
  /-- The protocol of transfers, with their pool. -/
  transfers : Service Mempool Transfer

/-- What a node says to one that sent it something. -/
inductive Answer where
  /-- The answer to a request. -/
  | response (id : UInt32) (payload : Bytes)
  /-- A request is not even looked at. -/
  | refusal (id : UInt32) (reason : String)

namespace Node

/-! ## The parts -/

/-- The sub-pools of a node. -/
def subPools (limits : NonceLimits) : List NoncePool :=
  [NoncePool.ofKinds "legacy" limits [.legacy, .dynamicFee], NoncePool.ofKinds "blob" limits [.blob]]

/-- The ledger's answers to every sub-pool. -/
def views (l : Ledger) : PoolSet.Views := fun _ => l.backend

/-- The coordinator of the ordinary transactions. -/
def pool (n : Node) : Coordinator NoncePool := n.ordinary.gossiper.set.pool

/-- The transfer pool. -/
def mempool (n : Node) : Mempool := n.transfers.gossiper.set

/-- The node with another coordinator. -/
def withPool (n : Node) (pool : Coordinator NoncePool) : Node :=
  { n with ordinary.gossiper.set.pool := pool }

/-- The node with another transfer pool. -/
def withMempool (n : Node) (mempool : Mempool) : Node :=
  { n with transfers.gossiper.set := mempool }

/-- How the sub-pools see the node's ledger. -/
def poolViews (n : Node) : PoolSet.Views := views n.ledger

/-- Whether the tasks of a protocol are running. -/
def runs (n : Node) : Wire.Protocol → Bool
  | .ordinary => n.ordinary.isRunning
  | .transfers => n.transfers.isRunning

/-- **A new node** on the first block (`Node::new`). The first part that is not
built says why. -/
def new (id : NodeId) (s : NodeSettings) (salts transferSalts : Nat → Salt) :
    Except NodeError Node :=
  let ledger := Ledger.new s.chainId (Amount.ofWord s.minGasPrice)
  match Coordinator.start .genesis (subPools s.noncePool) with
  | .failed e _ _ => .error (.pool e)
  | .running pool =>
    match Mempool.new s.mempool transferSalts with
    | .error e => .error (.mempool e)
    | .ok mempool =>
      match PoolSet.new pool (views ledger) s.poolFilter salts with
      | .error e => .error (.gossip e)
      | .ok set =>
        match (Network.new id).register .ordinary >>= fun n => n.register .transfers with
        | .error e => .error (.gossip e)
        | .ok network =>
          .ok {
            network, ledger, head := .genesis
            ordinary := Service.new s.gossip set
            transfers := Service.new s.gossip mempool }

/-! ## The node's own interface -/

/-- Gives an account something. -/
def fund (n : Node) (a : Address) (amount : Amount) : Node :=
  { n with ledger := n.ledger.fund a amount }

/-- **A transaction is submitted** (`Node::submit_transaction`). -/
def submit (n : Node) (tx : Transaction) : Node × Except NodeError Digest :=
  match n.pool.addLocal n.poolViews tx with
  | (pool, .ok ()) => (n.withPool pool, .ok tx.hash)
  | (pool, .error e) =>
    (n.withPool pool, if e.isAlreadyKnown then .ok tx.hash else .error (.pool e))

/-- **A transfer is submitted** (`Node::submit_atomic_transaction`). -/
def submitTransfer (n : Node) (tx : Transfer) : Node × Except NodeError Digest :=
  match n.mempool.addLocal n.ledger.transferBackend tx with
  | (mempool, .ok ()) => (n.withMempool mempool, .ok tx.id)
  | (mempool, .error e) =>
    (n.withMempool mempool, if e.isDuplicate then .ok tx.id else .error (.mempool e))

/-- A transaction comes in from outside. -/
def addRemote (n : Node) (tx : Transaction) : Node × List Outcome :=
  let (pool, outcomes) := n.pool.add n.poolViews [tx] false false
  (n.withPool pool, outcomes)

/-- A transfer comes in from outside. -/
def addRemoteTransfer (n : Node) (tx : Transfer) : Node × Except MempoolError Unit :=
  let (mempool, r) := n.mempool.add n.ledger.transferBackend tx false
  (n.withMempool mempool, r)

/-! ## Blocks -/

/-- The executable transactions, account by account. -/
def executable (n : Node) : List (List Transaction) := (n.pool.pending n.poolViews none).values

/-- Carries out a block: the given transactions and every pooled transfer that
was not handed over, which then leave the pool (`Node::advance_chain`). The
chain has a new head. -/
def execute (n : Node) (accounts : List (List Transaction)) (timestamp salt : UInt64) : Node :=
  let ledger := accounts.flatten.foldl Ledger.apply n.ledger
  let (mempool, picked) := n.mempool.propose n.mempool.size
  let ledger := picked.foldl Ledger.applyTransfer ledger
  let (mempool, _) := mempool.confirm (picked.map Transfer.id)
  { n.withMempool mempool with ledger, head := n.head.child timestamp salt }

/-- The pool follows the chain to its head. -/
def follow (n : Node) : Node := n.withPool (n.pool.follow n.poolViews [n.head])

/-- **A block** on top of the chain (`Node::advance_chain`). -/
def advance (n : Node) (timestamp salt : UInt64) : Node :=
  (n.execute n.executable timestamp salt).follow

/-! ## Gossip -/

/-- Starts both protocols (`Node::start`). -/
def start (n : Node) (now : Nat) : Node :=
  { n with ordinary := n.ordinary.start now, transfers := n.transfers.start now }

/-- Requests of the node end. -/
def note (n : Node) (ended : Network × List Ending) : Node :=
  { n with
    network := ended.1
    ordinary := n.ordinary.note ended.2
    transfers := n.transfers.note ended.2 }

/-- A peer is disconnected. -/
def disconnect (n : Node) (peer : NodeId) : Node := n.note (n.network.disconnect peer)

/-- A turn of a task of a protocol: what it makes the node say, and when the
task wants to get to work next, if that has changed. -/
def turn (n : Node) (w : Surroundings) (t : Task) :
    Wire.Protocol → Node × List Outgoing × Option Nat
  | .ordinary =>
    let (ordinary, network, out, due) := n.ordinary.turn n.poolViews w n.network t
    ({ n with ordinary, network }, out, due)
  | .transfers =>
    let (transfers, network, out, due) := n.transfers.turn n.ledger.transferBackend w n.network t
    ({ n with transfers, network }, out, due)

/-- The tasks of a protocol that have something to do because of what has
happened. -/
def roused (n : Node) : Wire.Protocol → List Task
  | .ordinary => n.ordinary.roused
  | .transfers => n.transfers.roused

/-- Begins a cycle of a protocol on request. -/
def pull (n : Node) (w : Surroundings) : Wire.Protocol → Node × List Outgoing
  | .ordinary =>
    let (ordinary, network, out) := n.ordinary.pull n.poolViews w n.network
    ({ n with ordinary, network }, out)
  | .transfers =>
    let (transfers, network, out) := n.transfers.pull n.ledger.transferBackend w n.network
    ({ n with transfers, network }, out)

/-- Looks at a cycle of a protocol on request. -/
def lookAtAsked (n : Node) (now : Nat) : Wire.Protocol → Node
  | .ordinary =>
    let (ordinary, network) := n.ordinary.lookAtAsked n.poolViews now n.network
    { n with ordinary, network }
  | .transfers =>
    let (transfers, network) := n.transfers.lookAtAsked n.ledger.transferBackend now n.network
    { n with transfers, network }

/-- Whether a cycle of a protocol on request still waits. -/
def isAsking (n : Node) : Wire.Protocol → Bool
  | .ordinary => n.ordinary.isAsking
  | .transfers => n.transfers.isAsking

/-- What a cycle of a protocol on request has brought. -/
def collect (n : Node) : Wire.Protocol → Node × Except GossipError Nat
  | .ordinary =>
    let (ordinary, result) := n.ordinary.collect
    ({ n with ordinary }, result)
  | .transfers =>
    let (transfers, result) := n.transfers.collect
    ({ n with transfers }, result)

/-- Announces what a protocol has queued, at once. -/
def push (n : Node) (w : Surroundings) :
    Wire.Protocol → Node × List Outgoing × Except GossipError Nat
  | .ordinary =>
    let (ordinary, out, result) := n.ordinary.push w
    ({ n with ordinary }, out, result)
  | .transfers =>
    let (transfers, out, result) := n.transfers.push w
    ({ n with transfers }, out, result)

/-- The protocol that a message is for, and the payload. -/
def dispatch (n : Node) (message : Bytes) : Except GossipError (Wire.Protocol × Bytes) :=
  match n.network.dispatch message with
  | .error e => .error e
  | .ok (byte, payload) =>
    match Wire.Protocol.ofByte? byte with
    | some protocol => .ok (protocol, payload)
    | none => .error (.unknownProtocol byte)

/-- **A request comes in.** A request that is dropped gets no answer. -/
def receiveRequest (n : Node) (w : Surroundings) (sender : NodeId) (id : UInt32) (deadline : Nat)
    (message : Bytes) : Node × Option Answer :=
  match n.dispatch message with
  | .error e => (n, some (.refusal id e.message))
  | .ok (.ordinary, payload) =>
    let (gossiper, answer) :=
      n.ordinary.gossiper.handleRequest n.poolViews w.lookup w.clock deadline sender payload
    ({ n with ordinary := { n.ordinary with gossiper } }, answer.map (.response id))
  | .ok (.transfers, payload) =>
    let (gossiper, answer) :=
      n.transfers.gossiper.handleRequest n.ledger.transferBackend w.lookup w.clock deadline sender
        payload
    ({ n with transfers := { n.transfers with gossiper } }, answer.map (.response id))

/-- **An announcement comes in**; nothing if no protocol handles it. -/
def receivePush (n : Node) (message : Bytes) : Node :=
  match n.dispatch message with
  | .error _ => n
  | .ok (.ordinary, payload) =>
    { n with ordinary.gossiper := n.ordinary.gossiper.handlePush n.poolViews payload }
  | .ok (.transfers, payload) =>
    { n with transfers.gossiper := n.transfers.gossiper.handlePush n.ledger.transferBackend payload }

/-- **An answer comes in.** -/
def receiveAnswer (n : Node) (sender : NodeId) : Answer → Node
  | .response id payload => n.note (n.network.answer sender id payload)
  | .refusal id reason => n.note (n.network.refuse sender id reason)

/-! ## End -/

/-- Stops a protocol for good (`Node::shutdown`). -/
def stop (n : Node) : Wire.Protocol → Node
  | .ordinary =>
    let (ordinary, network) := n.ordinary.shutdown n.network
    { n with ordinary, network }
  | .transfers =>
    let (transfers, network) := n.transfers.shutdown n.network
    { n with transfers, network }

/-- Closes the transfer pool. -/
def closeMempool (n : Node) : Node := n.withMempool n.mempool.close

/-- Closes the pool of ordinary transactions. -/
def closePool (n : Node) : Node × Except NodeError Unit :=
  let (pool, outcome) := n.pool.close n.poolViews
  (n.withPool pool, outcome.mapError .pool)

end Node

end TxRelay
