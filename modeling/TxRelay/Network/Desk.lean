/-
A node's end of the network, worked by hand.

Requests have names, and what each has come to can be looked up. The transport
delivers nothing: it keeps what it is given, or refuses all of it while it is
down. Messages that come in are answered backwards, byte by byte, unless there
is nothing to answer.
-/
import TxRelay.Network

set_option autoImplicit false

namespace TxRelay

/-- What has become of a request. -/
inductive Progress where
  /-- It waits under a number. -/
  | waiting (id : UInt32)
  /-- It has ended. -/
  | ended (result : Except GossipError Bytes)
  /-- Nobody is interested any more. -/
  | dropped

/-- What the transport kept, oldest first. -/
structure Tray where
  /-- Requests, with their numbers. -/
  requests : List (NodeId × UInt32 × Bytes)
  /-- Answers, with the numbers of the requests. -/
  responses : List (NodeId × UInt32 × Bytes)
  announcements : List Bytes
  /-- Announcements that came in, without the byte of the protocol. -/
  received : List (NodeId × Bytes)

/-- Nothing was kept yet. -/
def Tray.empty : Tray := ⟨[], [], [], []⟩

/-- A network with named requests. -/
structure Desk where
  network : Network
  now : Nat
  /-- Whether the transport is down. -/
  down : Bool
  /-- The requests by name, the last one first. -/
  named : List (String × Progress)
  /-- What the transport kept. -/
  tray : Tray

namespace Desk

/-- A network that nothing was done with. -/
def new (self : NodeId) : Desk := ⟨Network.new self, 0, false, [], .empty⟩

/-- What the transport says of anything. -/
def link (d : Desk) : Except GossipError Unit :=
  if d.down then .error (.transport "link down") else .ok ()

/-- Sets what has become of a request. -/
def record (d : Desk) (name : String) (p : Progress) : Desk :=
  { d with named := (name, p) :: d.named.filter fun e => e.1 != name }

/-- What has become of a request. -/
def progress? (d : Desk) (name : String) : Option Progress := d.named.lookup name

/-- What becomes of a request when some end. -/
def settled (endings : List Ending) : Progress → Progress
  | .waiting id =>
    match endings.lookup id with
    | some result => .ended result
    | none => .waiting id
  | p => p

/-- Requests end. -/
def conclude (d : Desk) (ended : Network × List Ending) : Desk :=
  { d with
    network := ended.1
    named := d.named.map fun e => (e.1, settled ended.2 e.2) }

/-- The requests end whose time is over. -/
def expire (d : Desk) : Desk := d.conclude (d.network.expire d.now)

/-- Lets some time pass. -/
def sleep (d : Desk) (duration : Nat) : Desk := ({ d with now := d.now + duration } : Desk).expire

/-- **A request** under a name. One that was given up before it starts takes no
number. -/
def request (d : Desk) (name : String) (node : NodeId) (message : Bytes) (timeout : Nat)
    (givenUp : Bool) : Desk :=
  if givenUp then d.record name (.ended (.error .cancelled))
  else
    let (network, id) := d.network.request node (d.now + timeout)
    match d.link with
    | .error e => ({ d with network := network.giveUp id } : Desk).record name (.ended (.error e))
    | .ok () =>
      ({ d with
          network
          tray.requests := d.tray.requests ++ [(node, id, message)] } : Desk).record name
        (.waiting id) |>.expire

/-- A waiting request stops for good. -/
def stop (d : Desk) (name : String) (p : Progress) : Desk :=
  match d.progress? name with
  | some (.waiting id) => ({ d with network := d.network.giveUp id } : Desk).record name p
  | _ => d

/-- **A request comes in.** -/
def receiveRequest (d : Desk) (node : NodeId) (id : UInt32) (message : Bytes) :
    Except GossipError Desk := do
  let (_, payload) ← d.network.dispatch message
  if payload.isEmpty then pure d
  else
    d.link
    pure { d with tray.responses := d.tray.responses ++ [(node, id, payload.reverse)] }

/-- **An announcement comes in.** -/
def receivePush (d : Desk) (node : NodeId) (message : Bytes) : Except GossipError Desk := do
  let (_, payload) ← d.network.dispatch message
  pure { d with tray.received := d.tray.received ++ [(node, payload)] }

/-- Announces something. -/
def announce (d : Desk) (message : Bytes) : Except GossipError Desk := do
  d.link
  pure { d with tray.announcements := d.tray.announcements ++ [message] }

end Desk

end TxRelay
