/-
Nodes on one hub.

The hub delivers what nodes say to each other. Under each id it knows who joined
last, be it one of the nodes or a guest, who has an end of the network but
handles nothing. Every delivery takes its turn among the tasks of the nodes, in
the order in which things were said, and goes to whoever was reached when it was
said. Announcements go to everybody under another id, and a request to an id
that nobody is known under is not taken. Whom a request comes from is told the
answer, or that the request was not looked at; a request that is dropped is
simply not answered.

Whoever operates the nodes acts at once and stands beside the line: the tasks
take turns only while it waits for something. All nodes see one register of
validators.

Limits and deadlines go by a clock that stands still.
-/
import TxRelay.Agenda
import TxRelay.Node

set_option autoImplicit false

namespace TxRelay

/-- Who is reached under an id. -/
inductive Member where
  | node (index : Nat)
  /-- One that handles nothing. -/
  | guest
deriving DecidableEq

/-- What is delivered. -/
inductive Delivery where
  /-- A request to somebody with its number and deadline. -/
  | request (sender receiver : NodeId) (target : Member) (id : UInt32) (deadline : Nat)
    (message : Bytes)
  /-- An announcement to somebody. -/
  | announcement (target : Member) (message : Bytes)
deriving DecidableEq

/-- Who takes turns. -/
inductive Worker where
  /-- A task of a protocol of a node. -/
  | task (node : Nat) (p : Wire.Protocol) (t : Task)
  | delivery (d : Delivery)
  /-- The task that resets the pool of a node. -/
  | keeper (node : Nat)
deriving DecidableEq

/-- Nodes on a hub (`LocalHub`). -/
structure Cluster where
  nodes : List Node
  /-- Who is reached under which id. -/
  members : Std.ExtTreeMap NodeId Member
  register : ValidatorRegister
  /-- The subnet whose validators may ask. -/
  subnet : SubnetId
  /-- Who is to work, and when. -/
  agenda : Agenda Worker
  /-- The guest's end of the network, and what it was told. -/
  guest : Option (Network × List Ending)

namespace Cluster

/-- The time. -/
def now (c : Cluster) : Nat := c.agenda.now

/-! ## Nodes and members -/

/-- A hub without nodes. -/
def new (register : ValidatorRegister) (subnet : SubnetId) : Cluster :=
  ⟨[], ∅, register, subnet, .empty, none⟩

/-- A node joins the hub for the first time. -/
def add (c : Cluster) (n : Node) : Cluster :=
  { c with
    nodes := c.nodes ++ [n]
    members := c.members.insert n.network.self (.node c.nodes.length) }

/-- Builds a node for each id, each with salts of its own; the nodes join. -/
def build (c : Cluster) (s : NodeSettings) (salts : Nat → Nat → Salt) :
    Nat → List NodeId → Except NodeError Cluster
  | _, [] => .ok c
  | i, id :: rest =>
    match Node.new id s (salts (2 * i)) (salts (2 * i + 1)) with
    | .error e => .error e
    | .ok n => (c.add n).build s salts (i + 1) rest

/-- A node joins the hub (`LocalHub::join`). -/
def join (c : Cluster) (i : Nat) : Cluster :=
  match c.nodes[i]? with
  | none => c
  | some n => { c with members := c.members.insert n.network.self (.node i) }

/-- Nobody is reached under an id any more (`LocalHub::leave`). -/
def leave (c : Cluster) (id : NodeId) : Cluster := { c with members := c.members.erase id }

/-! ## Tasks -/

/-- Wakes a task of a node. -/
def wake (c : Cluster) (i : Nat) (p : Wire.Protocol) (t : Task) : Cluster :=
  { c with agenda := c.agenda.wake (.task i p t) }

/-- Wakes the tasks of a node that have something to do. -/
def rouse (c : Cluster) (i : Nat) : Cluster :=
  match c.nodes[i]? with
  | none => c
  | some n =>
    Wire.Protocol.all.foldl (fun c p => (n.roused p).foldl (fun c t => c.wake i p t) c) c

/-- Changes a node, and takes what comes of it. -/
def ask {α : Type} (c : Cluster) (i : Nat) (f : Node → Node × α) : Option (Cluster × α) :=
  (c.nodes[i]?).map fun n =>
    let (n, a) := f n
    (({ c with nodes := c.nodes.set i n } : Cluster).rouse i, a)

/-- Changes a node. -/
def modify (c : Cluster) (i : Nat) (f : Node → Node) : Cluster :=
  ({ c with nodes := c.nodes.modify i f } : Cluster).rouse i

/-- Starts the protocols of a node that are not running. -/
def start (c : Cluster) (i : Nat) : Cluster :=
  match c.nodes[i]? with
  | none => c
  | some n =>
    let after := n.start c.now
    let started := Wire.Protocol.all.filter fun p => after.runs p && !n.runs p
    let c := { c with nodes := c.nodes.set i after }
    started.foldl (fun c p => Task.all.foldl (fun c t => c.wake i p t) c) c

/-! ## What nodes say -/

/-- Who is reached under an id. -/
def find (c : Cluster) (id : NodeId) : Except GossipError Member :=
  match c.members[id]? with
  | some m => .ok m
  | none => .error (.transport (NodeId.display id ++ " is not reachable"))

/-- What a node finds around it. -/
def around (c : Cluster) : Surroundings where
  now := c.now
  clock := 0
  lookup := c.register.validators c.subnet
  draw := id
  reach id := (c.find id).map fun _ => ()
  link := .ok ()

/-- The deliveries of what somebody says. -/
def deliveries (c : Cluster) (sender : NodeId) : Outgoing → List Delivery
  | .request node id deadline message =>
    match c.find node with
    | .ok target => [.request sender node target id deadline message]
    | .error _ => []
  | .announcement message =>
    (c.members.toList.filter fun m => m.1 != sender).map fun m => .announcement m.2 message

/-- Takes what somebody says. -/
def post (c : Cluster) (sender : NodeId) (out : List Outgoing) : Cluster :=
  { c with
    agenda := (out.flatMap (c.deliveries sender)).foldl (fun a d => a.join (.delivery d)) c.agenda }

/-- Changes a node, and takes what it says. -/
def work {α : Type} (c : Cluster) (i : Nat) (f : Surroundings → Node → Node × List Outgoing × α) :
    Option (Cluster × α) :=
  match c.nodes[i]? with
  | none => none
  | some n =>
    let (n, out, a) := f c.around n
    some ((({ c with nodes := c.nodes.set i n } : Cluster).post n.network.self out).rouse i, a)

/-! ## What nodes hear -/

/-- What a request to a guest comes to. -/
def decline (guest : NodeId) (id : UInt32) (message : Bytes) : Option Answer :=
  match (Network.new guest).dispatch message with
  | .error e => some (.refusal id e.message)
  | .ok _ => none

/-- A request comes in to somebody. -/
def receive (c : Cluster) (sender receiver : NodeId) (target : Member) (id : UInt32)
    (deadline : Nat) (message : Bytes) : Cluster × Option Answer :=
  match target with
  | .guest => (c, decline receiver id message)
  | .node i =>
    match c.ask i fun n => n.receiveRequest c.around sender id deadline message with
    | some (c, a) => (c, a)
    | none => (c, none)

/-- The guest is told something. -/
def tellGuest (c : Cluster) (sender : NodeId) (a : Answer) : Cluster :=
  { c with guest := c.guest.map fun (n, heard) =>
      let (n, endings) := match a with
        | .response id payload => n.answer sender id payload
        | .refusal id reason => n.refuse sender id reason
      (n, heard ++ endings) }

/-- Whoever is reached under an id is told something. -/
def tell (c : Cluster) (sender receiver : NodeId) (a : Answer) : Cluster :=
  match c.members[receiver]? with
  | some (.node i) => c.modify i fun n => n.receiveAnswer sender a
  | some .guest => c.tellGuest sender a
  | none => c

/-- Delivers something, and the answer at once. -/
def deliver (c : Cluster) : Delivery → Cluster
  | .request sender receiver target id deadline message =>
    match c.receive sender receiver target id deadline message with
    | (c, some a) => c.tell receiver sender a
    | (c, none) => c
  | .announcement (.node i) message => c.modify i fun n => n.receivePush message
  | .announcement .guest _ => c

/-! ## Turns and time -/

/-- Sets a task's alarm. -/
def setAlarm (c : Cluster) (t : Worker) : Option Nat → Cluster
  | some due => { c with agenda := c.agenda.setAlarm t due }
  | none => c

/-- A worker's turn. The keeper's work is done by those who wait for it. -/
def turn (w : Worker) (c : Cluster) : Cluster :=
  match w with
  | .task i p t =>
    match c.work i fun w n => n.turn w t p with
    | some (c, due) => c.setAlarm w due
    | none => c
  | .delivery d => c.deliver d
  | .keeper _ => c

/-- The nodes at work. -/
def place : Workplace Cluster Worker where
  agenda c := c.agenda
  withAgenda c agenda := { c with agenda }
  turn := turn

/-- Waits for some time to pass. Who is due then has not yet worked. -/
def wait (c : Cluster) (duration : Nat) : Cluster := place.wait duration c

/-- Lets some time pass, and everything happen that is due by then. -/
def sleep (c : Cluster) (duration : Nat) : Cluster := place.sleep duration c

/-- Waits until some workers have had their turn. -/
def awaitTurns (c : Cluster) (ws : List Worker) : Cluster :=
  place.await ⟨id, fun c => ws.all fun w => !c.agenda.ready.contains w⟩ c.now c

/-! ## What is asked of a node -/

/-- **A cycle of a protocol on request**, to its end. -/
def pullOne (c : Cluster) (i : Nat) (p : Wire.Protocol) : Cluster × Except GossipError Nat :=
  match c.work i fun w n => let (n, out) := n.pull w p; (n, out, n) with
  | none => (c, .ok 0)
  | some (c, n) =>
    let limit := c.now + n.ordinary.gossiper.settings.requestTimeout
    let c := place.await
      ⟨fun c => c.modify i fun n => n.lookAtAsked c.now p,
        fun c => !(c.nodes[i]?).any fun n => n.isAsking p⟩ limit c
    match c.ask i fun n => n.collect p with
    | some (c, r) => (c, r)
    | none => (c, .ok 0)

/-- A cycle of each protocol, one after the other. -/
def pull (c : Cluster) (i : Nat) : Cluster × Except GossipError Nat × Except GossipError Nat :=
  let (c, ordinary) := c.pullOne i .ordinary
  let (c, transfers) := c.pullOne i .transfers
  (c, ordinary, transfers)

/-- A node announces what a protocol has queued. -/
def pushOne (c : Cluster) (i : Nat) (p : Wire.Protocol) : Cluster × Except GossipError Nat :=
  match c.work i fun w n => n.push w p with
  | some (c, r) => (c, r)
  | none => (c, .ok 0)

/-- A node announces what both protocols have queued. -/
def push (c : Cluster) (i : Nat) : Cluster × Except GossipError Nat × Except GossipError Nat :=
  let (c, ordinary) := c.pushOne i .ordinary
  let (c, transfers) := c.pushOne i .transfers
  (c, ordinary, transfers)

/-- **A node makes a block.** Its height is reached on the subnet, and everybody
who is ready works, before the node's pool follows. -/
def advance (c : Cluster) (i : Nat) (timestamp salt : UInt64) : Cluster :=
  let c := c.modify i fun n => n.execute n.executable timestamp salt
  match c.nodes[i]? with
  | none => c
  | some n =>
    let c := { c with register := c.register.reach n.head.number }
    let c := if n.pool.closed then c else place.finish c
    c.modify i Node.follow

/-- Stops a protocol of a node for good, and waits for its tasks to end. -/
def stop (c : Cluster) (i : Nat) (p : Wire.Protocol) : Cluster :=
  let running := (c.nodes[i]?).any fun n => n.runs p
  let c := c.modify i fun n => n.stop p
  if running then
    let ws := Task.all.map (Worker.task i p)
    ({ c with agenda := ws.foldl (fun a w => (a.dropAlarm w).wake w) c.agenda } : Cluster).awaitTurns ws
  else c

/-- **A node shuts down.** Its protocols stop, one after the other, it leaves
the hub, and its pools close; the pool of ordinary transactions waits for its
keeper first, unless it is closed already. -/
def shutdown (c : Cluster) (i : Nat) : Cluster × Except NodeError Unit :=
  let c := (c.stop i .ordinary).stop i .transfers
  match c.nodes[i]? with
  | none => (c, .ok ())
  | some n =>
    let c := (c.leave n.network.self).modify i Node.closeMempool
    let keeper := Worker.keeper i
    let c := if n.pool.closed then c else
      ({ c with agenda := c.agenda.wake keeper } : Cluster).awaitTurns [keeper]
    match c.ask i Node.closePool with
    | some (c, r) => (c, r)
    | none => (c, .ok ())

/-- How long a guest waits for an answer. -/
def guestPatience : Nat := 300

/-- **A guest** joins under an id, sends a request, waits for the answer and
leaves. -/
def visit (c : Cluster) (self peer : NodeId) (message : Bytes) :
    Cluster × Except GossipError Bytes :=
  let limit := c.now + guestPatience
  let (network, id) := (Network.new self).request peer limit
  let c := { c with members := c.members.insert self .guest, guest := some (network, []) }
  match c.find peer with
  | .error e => (c.leave self, .error e)
  | .ok _ =>
    let c := c.post self [.request peer id guestPatience message]
    let c := place.await ⟨fun c => c, fun c => c.guest.any fun g => !g.2.isEmpty⟩ limit c
    let heard := (c.guest.map Prod.snd).getD []
    (c.leave self, (heard.lookup id).getD (.error (.timeout peer)))

end Cluster

end TxRelay
