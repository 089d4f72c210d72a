/-
A node's end of the network: who is connected, who handles which protocol, and
which requests are waiting for an answer.

A request takes the next number and waits under it for the node that it was
sent to. It stops waiting when that node answers or refuses, when the node is
disconnected, when its time is over, or when the caller gives up; each of
these finds the request at most once. An answer under another number, or from
another node, finds nothing and changes nothing.
-/
import Std.Data.ExtTreeMap
import Std.Data.ExtTreeSet
import TxRelay.Gossip.Error
import TxRelay.Wire.Message

set_option autoImplicit false

namespace TxRelay

/-- A request that waits for an answer. -/
structure Waiting where
  /-- Whom it was sent to. -/
  node : NodeId
  /-- When its time is over, in milliseconds. -/
  deadline : Nat
deriving DecidableEq

/-- A node's end of the network (`Network`). -/
structure Network where
  self : NodeId
  /-- The protocols that are handled, by their bytes. -/
  protocols : Std.ExtTreeSet UInt8
  /-- The requests that wait, by number. -/
  waiting : Std.ExtTreeMap UInt32 Waiting
  /-- The number of the next request. -/
  nextId : UInt32
  peers : Std.ExtTreeSet NodeId

/-- A request by number, and what it ended with. -/
abbrev Ending := UInt32 × Except GossipError Bytes

namespace Network

/-- A node that nobody is connected to. -/
def new (self : NodeId) : Network := ⟨self, ∅, ∅, 0, ∅⟩

/-! ## Protocols -/

/-- A protocol gets its handler (`Network::add_handler`). -/
def register (n : Network) (p : Wire.Protocol) : Except GossipError Network :=
  if n.protocols.contains p.byte then .error (.handlerExists p.byte)
  else .ok { n with protocols := n.protocols.insert p.byte }

/-- The protocol that a message is for, by its byte, and the payload
(`Network::handler`). -/
def dispatch (n : Network) (message : Bytes) : Except GossipError (UInt8 × Bytes) :=
  match Wire.untag? message with
  | none => .error (.malformed "empty message")
  | some (byte, payload) =>
    if n.protocols.contains byte then .ok (byte, payload) else .error (.unknownProtocol byte)

/-! ## Peers -/

/-- A node is connected; a node is no peer of its own (`Network::connected`). -/
def connect (n : Network) (node : NodeId) : Network :=
  if node = n.self then n else { n with peers := n.peers.insert node }

/-- The requests that wait for a node. -/
def waitingFor (n : Network) (node : NodeId) : List UInt32 :=
  (n.waiting.toList.filter fun w => w.2.node == node).map Prod.fst

/-- The requests that do not wait any more. -/
def without (n : Network) (ids : List UInt32) : Network :=
  { n with waiting := n.waiting.eraseMany ids }

/-- A node is disconnected: it is no peer any more, and the requests to it end
(`Network::disconnected`). -/
def disconnect (n : Network) (node : NodeId) : Network × List Ending :=
  let ids := n.waitingFor node
  ({ n.without ids with peers := n.peers.erase node },
    ids.map fun id => (id, .error (.requestFailed node "peer disconnected")))

/-! ## Requests -/

/-- A request to a node takes a number and waits (`Network::request`). -/
def request (n : Network) (node : NodeId) (deadline : Nat) : Network × UInt32 :=
  ({ n with waiting := n.waiting.insert n.nextId ⟨node, deadline⟩, nextId := n.nextId + 1 },
    n.nextId)

/-- A request stops waiting, for whatever reason (`PendingGuard`). -/
def giveUp (n : Network) (id : UInt32) : Network := n.without [id]

/-- What a node says ends the request under a number if it was sent to that node
and still waits (`Network::take_waiter`). -/
def conclude (n : Network) (node : NodeId) (id : UInt32) (result : Except GossipError Bytes) :
    Network × List Ending :=
  match n.waiting[id]? with
  | some w => if w.node = node then (n.giveUp id, [(id, result)]) else (n, [])
  | none => (n, [])

/-- A node answers (`Network::app_response`). -/
def answer (n : Network) (node : NodeId) (id : UInt32) (payload : Bytes) : Network × List Ending :=
  n.conclude node id (.ok payload)

/-- A node refuses, or the transport says that it did
(`Network::app_request_failed`). -/
def refuse (n : Network) (node : NodeId) (id : UInt32) (reason : String) : Network × List Ending :=
  n.conclude node id (.error (.requestFailed node reason))

/-- The requests whose time is over at a given time. -/
def overdue (n : Network) (now : Nat) : List (UInt32 × Waiting) :=
  n.waiting.toList.filter fun w => w.2.deadline ≤ now

/-- The time has come for the requests whose time is over. -/
def expire (n : Network) (now : Nat) : Network × List Ending :=
  let late := n.overdue now
  (n.without (late.map Prod.fst), late.map fun w => (w.1, .error (.timeout w.2.node)))

/-- How many requests wait (`Network::pending_requests`). -/
def waitingCount (n : Network) : Nat := n.waiting.size

end Network

end TxRelay
