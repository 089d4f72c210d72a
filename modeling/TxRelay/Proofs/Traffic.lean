/-
What a node takes in between blocks, and what its pools have to put up with.

Users submit, peers ask, answer and announce, and the tasks of the two
protocols take their turns. None of it touches the ledger or the head of the
chain. To the pool of ordinary transactions it does one thing, adding
transactions under the answers of the ledger, and to the transfer pool as well.
So a property of the pools that adding keeps is kept by all traffic.
-/
import TxRelay.Node
import TxRelay.Proofs.Gossip

set_option autoImplicit false

namespace TxRelay

open GossipSet (Keeps)

/-- **A property of the two pools is kept** by adding to them under the answers
of a ledger, and does not look at the bus. -/
structure Kept (l : Ledger) (R : Coordinator NoncePool → Prop) (Q : TransferStore → Prop) :
    Prop where
  add : ∀ c tx isLocal, R c → R (c.add (Node.views l) [tx] isLocal false).1
  bus : ∀ (c : Coordinator NoncePool) (bus : Bus), R c →
    R { c with commons := { c.commons with bus } }
  offer : ∀ (m : Mempool) tx isLocal, Q m.store → Q (m.add l.transferBackend tx isLocal).1.store

namespace Kept

variable {l : Ledger} {R : Coordinator NoncePool → Prop} {Q : TransferStore → Prop}

/-- The collection of ordinary transactions. -/
theorem keeps_poolSet (h : Kept l R Q) : Keeps (fun s : PoolSet => R s.pool) (Node.views l) where
  add s tx hs := h.add s.pool tx false hs
  filter s hs := by
    have hsync : R (s.sync (Node.views l)).1.pool := by
      rw [PoolSet.sync]
      dsimp only
      split
      · exact h.bus s.pool _ hs
      · exact h.bus s.pool _ hs
    -- The outcome is for whoever asked; the pool is the same either way.
    simp only [GossipSet.filter]
    split
    · next s' heq =>
      rw [heq] at hsync
      exact hsync
    · next s' e heq =>
      rw [heq] at hsync
      exact hsync
  subscribe s hs := h.bus s.pool _ hs
  drain s id hs := h.bus s.pool _ hs

/-- The collection of transfers. -/
theorem keeps_mempool (h : Kept l R Q) : Keeps (fun m : Mempool => Q m.store) l.transferBackend where
  add m tx hm := by
    have hoffer := h.offer m tx false hm
    show Q (m.takeRemote l.transferBackend tx).1.store
    -- A transfer that is there already counts as taken in.
    rw [Mempool.takeRemote]
    generalize m.add l.transferBackend tx false = offered at hoffer ⊢
    obtain ⟨m', r⟩ := offered
    cases r with
    | ok _ => exact hoffer
    | error e => cases e <;> exact hoffer
  filter _ hm := hm
  subscribe _ hm := hm
  drain _ _ hm := hm

end Kept

namespace Node

/-- What comes from users and from other nodes, and what the tasks of the protocols make of it
(`Node`). -/
inductive Traffic where
  | submit (tx : Transaction)
  | submitTransfer (tx : Transfer)
  | addRemote (tx : Transaction)
  | addRemoteTransfer (tx : Transfer)
  | announcement (message : Bytes)
  | request (w : Surroundings) (sender : NodeId) (id : UInt32) (deadline : Nat) (message : Bytes)
  | answer (sender : NodeId) (answer : Answer)
  | connect (peer : NodeId)
  | disconnect (peer : NodeId)
  | start (now : Nat)
  | turn (w : Surroundings) (t : Task) (protocol : Wire.Protocol)
  | pull (w : Surroundings) (protocol : Wire.Protocol)
  | lookAtAsked (now : Nat) (protocol : Wire.Protocol)
  | collect (protocol : Wire.Protocol)
  | push (w : Surroundings) (protocol : Wire.Protocol)
  | stop (protocol : Wire.Protocol)

/-- The node after some traffic. -/
def take (n : Node) : Traffic → Node
  | .submit tx => (n.submit tx).1
  | .submitTransfer tx => (n.submitTransfer tx).1
  | .addRemote tx => (n.addRemote tx).1
  | .addRemoteTransfer tx => (n.addRemoteTransfer tx).1
  | .announcement message => n.receivePush message
  | .request w sender id deadline message => (n.receiveRequest w sender id deadline message).1
  | .answer sender answer => n.receiveAnswer sender answer
  | .connect peer => { n with network := n.network.connect peer }
  | .disconnect peer => n.disconnect peer
  | .start now => n.start now
  | .turn w t protocol => (n.turn w t protocol).1
  | .pull w protocol => (n.pull w protocol).1
  | .lookAtAsked now protocol => n.lookAtAsked now protocol
  | .collect protocol => (n.collect protocol).1
  | .push w protocol => (n.push w protocol).1
  | .stop protocol => n.stop protocol

/-- Submitting a transaction is a matter of its pool. -/
theorem fst_submit (n : Node) (tx : Transaction) :
    (n.submit tx).1 = n.withPool (n.pool.addLocal n.poolViews tx).1 := by
  rw [submit]
  generalize n.pool.addLocal n.poolViews tx = added
  obtain ⟨pool, r⟩ := added
  cases r with
  | ok _ => rfl
  | error e => rfl

/-- Submitting a transfer is a matter of its pool. -/
theorem fst_submitTransfer (n : Node) (tx : Transfer) :
    (n.submitTransfer tx).1
      = n.withMempool (n.mempool.add n.ledger.transferBackend tx true).1 := by
  rw [submitTransfer, Mempool.addLocal]
  generalize n.mempool.add n.ledger.transferBackend tx true = added
  obtain ⟨mempool, r⟩ := added
  cases r with
  | ok _ => rfl
  | error e => rfl

/-- What is true of the two pools of a node, and where its chain is. -/
structure Stands (R : Coordinator NoncePool → Prop) (Q : TransferStore → Prop) (l : Ledger)
    (head : Header) (n : Node) : Prop where
  pool : R n.ordinary.gossiper.set.pool
  mempool : Q n.transfers.gossiper.set.store
  ledger_eq : n.ledger = l
  head_eq : n.head = head

namespace Stands

variable {R : Coordinator NoncePool → Prop} {Q : TransferStore → Prop} {l : Ledger} {head : Header}
  {n : Node}

theorem submit (h : Stands R Q l head n) (hk : Kept l R Q) (tx : Transaction) :
    Stands R Q l head (n.submit tx).1 := by
  have hadd := hk.add n.pool tx true h.pool
  rw [← h.ledger_eq] at hadd
  rw [fst_submit]
  exact ⟨hadd, h.mempool, h.ledger_eq, h.head_eq⟩

theorem submitTransfer (h : Stands R Q l head n) (hk : Kept l R Q) (tx : Transfer) :
    Stands R Q l head (n.submitTransfer tx).1 := by
  have hoffer := hk.offer n.mempool tx true h.mempool
  rw [← h.ledger_eq] at hoffer
  rw [fst_submitTransfer]
  exact ⟨h.pool, hoffer, h.ledger_eq, h.head_eq⟩

theorem receivePush (h : Stands R Q l head n) (hk : Kept l R Q) (message : Bytes) :
    Stands R Q l head (n.receivePush message) := by
  have hpool := hk.keeps_poolSet
  have hmempool := hk.keeps_mempool
  rw [← h.ledger_eq] at hpool hmempool
  rw [Node.receivePush]
  split
  · exact h
  · next payload _ =>
    exact ⟨Gossiper.keeps_handlePush hpool h.pool payload, h.mempool, h.ledger_eq, h.head_eq⟩
  · next payload _ =>
    exact ⟨h.pool, Gossiper.keeps_handlePush hmempool h.mempool payload, h.ledger_eq, h.head_eq⟩

theorem receiveRequest (h : Stands R Q l head n) (w : Surroundings) (sender : NodeId) (id : UInt32)
    (deadline : Nat) (message : Bytes) :
    Stands R Q l head (n.receiveRequest w sender id deadline message).1 := by
  rw [Node.receiveRequest]
  split
  · exact h
  · next payload _ =>
    refine ⟨?_, h.mempool, h.ledger_eq, h.head_eq⟩
    show R (n.ordinary.gossiper.handleRequest _ w.lookup w.clock deadline sender payload).1.set.pool
    rw [Gossiper.set_handleRequest]
    exact h.pool
  · next payload _ =>
    refine ⟨h.pool, ?_, h.ledger_eq, h.head_eq⟩
    show Q (n.transfers.gossiper.handleRequest _ w.lookup w.clock deadline sender payload).1.set.store
    rw [Gossiper.set_handleRequest]
    exact h.mempool

theorem start (h : Stands R Q l head n) (hk : Kept l R Q) (now : Nat) :
    Stands R Q l head (n.start now) :=
  ⟨Service.keeps_start hk.keeps_poolSet h.pool now, Service.keeps_start hk.keeps_mempool h.mempool now,
    h.ledger_eq, h.head_eq⟩

theorem turn (h : Stands R Q l head n) (hk : Kept l R Q) (w : Surroundings) (t : Task)
    (protocol : Wire.Protocol) : Stands R Q l head (n.turn w t protocol).1 := by
  have hpool := hk.keeps_poolSet
  have hmempool := hk.keeps_mempool
  rw [← h.ledger_eq] at hpool hmempool
  cases protocol with
  | ordinary =>
    exact ⟨Service.keeps_turn hpool h.pool w n.network t, h.mempool, h.ledger_eq, h.head_eq⟩
  | transfers =>
    exact ⟨h.pool, Service.keeps_turn hmempool h.mempool w n.network t, h.ledger_eq, h.head_eq⟩

theorem pull (h : Stands R Q l head n) (hk : Kept l R Q) (w : Surroundings)
    (protocol : Wire.Protocol) : Stands R Q l head (n.pull w protocol).1 := by
  have hpool := hk.keeps_poolSet
  have hmempool := hk.keeps_mempool
  rw [← h.ledger_eq] at hpool hmempool
  cases protocol with
  | ordinary =>
    exact ⟨Service.keeps_pull hpool h.pool w n.network, h.mempool, h.ledger_eq, h.head_eq⟩
  | transfers =>
    exact ⟨h.pool, Service.keeps_pull hmempool h.mempool w n.network, h.ledger_eq, h.head_eq⟩

theorem lookAtAsked (h : Stands R Q l head n) (hk : Kept l R Q) (now : Nat)
    (protocol : Wire.Protocol) : Stands R Q l head (n.lookAtAsked now protocol) := by
  have hpool := hk.keeps_poolSet
  have hmempool := hk.keeps_mempool
  rw [← h.ledger_eq] at hpool hmempool
  cases protocol with
  | ordinary =>
    exact ⟨Service.keeps_lookAtAsked hpool h.pool now n.network, h.mempool, h.ledger_eq, h.head_eq⟩
  | transfers =>
    exact ⟨h.pool, Service.keeps_lookAtAsked hmempool h.mempool now n.network, h.ledger_eq,
      h.head_eq⟩

/-- **Traffic** keeps what adding to the pools keeps. -/
theorem take (h : Stands R Q l head n) (hk : Kept l R Q) (t : Traffic) :
    Stands R Q l head (n.take t) := by
  have hviews : n.poolViews = Node.views l := by rw [poolViews, h.ledger_eq]
  cases t with
  | submit tx => exact h.submit hk tx
  | submitTransfer tx => exact h.submitTransfer hk tx
  | addRemote tx =>
    have hadd := hk.add n.pool tx false h.pool
    rw [← hviews] at hadd
    exact ⟨hadd, h.mempool, h.ledger_eq, h.head_eq⟩
  | addRemoteTransfer tx =>
    have hoffer := hk.offer n.mempool tx false h.mempool
    rw [← h.ledger_eq] at hoffer
    exact ⟨h.pool, hoffer, h.ledger_eq, h.head_eq⟩
  | announcement message => exact h.receivePush hk message
  | request w sender id deadline message => exact h.receiveRequest w sender id deadline message
  | answer sender answer =>
    -- An answer is noted, and nobody has looked at it yet.
    cases answer with
    | response id payload => exact ⟨h.pool, h.mempool, h.ledger_eq, h.head_eq⟩
    | refusal id reason => exact ⟨h.pool, h.mempool, h.ledger_eq, h.head_eq⟩
  | connect peer => exact ⟨h.pool, h.mempool, h.ledger_eq, h.head_eq⟩
  | disconnect peer => exact ⟨h.pool, h.mempool, h.ledger_eq, h.head_eq⟩
  | start now => exact h.start hk now
  | turn w t protocol => exact h.turn hk w t protocol
  | pull w protocol => exact h.pull hk w protocol
  | lookAtAsked now protocol => exact h.lookAtAsked hk now protocol
  | collect protocol => cases protocol <;> exact ⟨h.pool, h.mempool, h.ledger_eq, h.head_eq⟩
  | push w protocol => cases protocol <;> exact ⟨h.pool, h.mempool, h.ledger_eq, h.head_eq⟩
  | stop protocol => cases protocol <;> exact ⟨h.pool, h.mempool, h.ledger_eq, h.head_eq⟩

end Stands

/-- Traffic leaves the chain alone. -/
theorem chain_take (n : Node) (t : Traffic) :
    (n.take t).ledger = n.ledger ∧ (n.take t).head = n.head := by
  have hk : Kept n.ledger (fun _ => True) (fun _ => True) :=
    ⟨fun _ _ _ _ => trivial, fun _ _ _ => trivial, fun _ _ _ _ => trivial⟩
  have hstands : n.Stands (fun _ => True) (fun _ => True) n.ledger n.head :=
    ⟨trivial, trivial, rfl, rfl⟩
  exact ⟨(hstands.take hk t).ledger_eq, (hstands.take hk t).head_eq⟩

end Node

end TxRelay
