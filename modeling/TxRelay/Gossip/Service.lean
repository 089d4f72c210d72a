/-
A gossip protocol at work: its tasks, and the cycles under way.

A protocol that was started has three tasks. One announces at an interval, one
asks at another; the first time for both is at once. A task that comes too late
goes on from the time at which it came. The third one feeds: it queues what the
collection announces as this node's own. Tasks take turns, so what is let in
and announced in one go is not yet queued.

While the protocol's own cycle is under way the next one waits for it. Besides,
one cycle may be under way on somebody's request.

A cycle is under way as long as a request of it waits. A request that has ended
is noted, and whoever runs the cycle looks at it when they get to work; it is
only then that a request whose time is over is found to be so. Requests of one
cycle are made at once and have one deadline.

What the transport says at once, and what time it is, comes from outside.
-/
import TxRelay.Gossip.Gossiper
import TxRelay.Network

set_option autoImplicit false

namespace TxRelay

/-- A task of a protocol. -/
inductive Task where
  /-- It queues what is to be announced. -/
  | feeder
  /-- It announces. -/
  | announcer
  /-- It asks. -/
  | asker
deriving DecidableEq

/-- The tasks, in the order in which they are started. -/
def Task.all : List Task := [.feeder, .announcer, .asker]

/-- What a protocol finds around it at a moment. Times are in milliseconds. -/
structure Surroundings where
  /-- The time that tickers and waiting requests go by. -/
  now : Nat
  /-- The time that limits and deadlines of requests go by. -/
  clock : Nat
  /-- What the validator lookup answers. -/
  lookup : ValidatorLookup
  /-- The order in which peers are drawn. -/
  draw : List NodeId → List NodeId
  /-- Whether the transport takes a request to a node. -/
  reach : NodeId → Except GossipError Unit
  /-- Whether the transport takes an announcement. -/
  link : Except GossipError Unit

/-- Whether the transport gives up a request to a node. -/
def Surroundings.givesUp (w : Surroundings) (node : NodeId) : Bool :=
  match w.reach node with
  | .error .cancelled => true
  | _ => false

/-- What a protocol gives to the transport. -/
inductive Outgoing where
  /-- A request to a node, with its number and deadline. -/
  | request (node : NodeId) (id : UInt32) (deadline : Nat) (message : Bytes)
  /-- An announcement to whom it may concern. -/
  | announcement (message : Bytes)

/-- A cycle. -/
structure Cycle where
  /-- The requests that have not been looked at, in the order in which they were
  made. -/
  waiting : List UInt32
  /-- When their time is over. -/
  deadline : Nat
  /-- How many new items it has brought so far, or why it failed. -/
  result : Except GossipError Nat

namespace Cycle

/-- Whether nothing waits any more. -/
def isOver (c : Cycle) : Bool := c.waiting.isEmpty

/-- A request of the cycle has come to an end. -/
def conclude (c : Cycle) (id : UInt32) (result : Except GossipError Nat) : Cycle :=
  { c with
    waiting := c.waiting.erase id
    result := do pure ((← c.result) + (← result)) }

end Cycle

/-- A protocol with its tasks (`GossipCoordinator`). -/
structure Service (σ ι : Type) where
  gossiper : Gossiper σ ι
  /-- The subscription of the feeder, once the protocol was started. -/
  feed : Option Nat
  pushAt : Nat
  pullAt : Nat
  /-- Its own cycle. -/
  own : Option Cycle
  /-- A cycle on request. -/
  asked : Option Cycle
  /-- The requests that have ended and were not looked at, oldest first. -/
  unseen : List Ending

namespace Service

variable {σ ι ε : Type} [GossipItem ι] [GossipSet σ ι ε]

/-- A protocol that was not started (`GossipCoordinator::new`). -/
def new (settings : GossipSettings) (set : σ) : Service σ ι :=
  ⟨Gossiper.new settings set, none, 0, 0, none, none, []⟩

/-- Whether its tasks are running. -/
def isRunning (s : Service σ ι) : Bool := s.feed.isSome

/-- **Start** (`GossipCoordinator::start`). Nothing if it is running, or was
stopped. -/
def start (s : Service σ ι) (now : Nat) : Service σ ι :=
  if s.isRunning || s.gossiper.cancelled then s
  else
    let (set, subscription) := GossipSet.subscribe s.gossiper.set
    { s with
      gossiper := { s.gossiper with set }
      feed := some subscription, pushAt := now, pullAt := now }

/-- Queues what was announced since the last time. -/
def gather (s : Service σ ι) : Service σ ι :=
  match s.feed with
  | none => s
  | some subscription =>
    let (set, es) := GossipSet.drain s.gossiper.set subscription
    { s with gossiper := ({ s.gossiper with set } : Gossiper σ ι).queue es }

/-! ## Announcing -/

/-- How much later than it should a task may come without noticing. -/
def tickerSlack : Nat := 5

/-- When a task comes next that was due and comes now. An interval is at least a
millisecond. -/
def nextTick (due now every : Nat) : Nat :=
  if due + tickerSlack < now then now + max 1 every else due + max 1 every

/-- Announces what is queued: what the transport took, and how many items that
were, or why it ended early (`GossipCoordinator::push_now`). -/
def push (s : Service σ ι) (w : Surroundings) :
    Service σ ι × List Outgoing × Except GossipError Nat :=
  let (gossiper, messages, result) := s.gossiper.push fun _ => w.link
  ({ s with gossiper }, messages.map .announcement, result)

/-- Announces, if it is time. -/
def pushIfDue (s : Service σ ι) (w : Surroundings) : Service σ ι × List Outgoing :=
  if s.pushAt ≤ w.now then
    let (s, out, _) := s.push w
    ({ s with pushAt := nextTick s.pushAt w.now s.gossiper.settings.pushEvery }, out)
  else (s, [])

/-! ## Asking -/

/-- Sends a request to each peer (`PullGossiper::pull_from`). Those that the
transport takes wait, those that it refuses have come to nothing; what it gives
up is not counted. -/
def ask (w : Surroundings) (message : Bytes) :
    Gossiper σ ι → Network → List NodeId → Gossiper σ ι × Network × List UInt32 × List Outgoing
  | g, n, [] => (g, n, [], [])
  | g, n, peer :: rest =>
    let timeout := g.settings.requestTimeout
    let (n, id) := n.request peer (w.now + timeout)
    let request := Outgoing.request peer id (w.clock + timeout) message
    match w.reach peer with
    | .ok () =>
      let (g, n, ids, out) := ask w message g n rest
      (g, n, id :: ids, request :: out)
    | .error e =>
      let (g, n, ids, out) := ask w message (g.countRefusal e) (n.giveUp id) rest
      (g, n, ids, request :: out)

/-- A cycle begins (`PullGossiper::gossip`). It has failed already if a request
of it is given up. -/
def beginCycle (s : Service σ ι) (env : ε) (w : Surroundings) (n : Network) :
    Service σ ι × Network × Cycle × List Outgoing :=
  let deadline := w.now + s.gossiper.settings.requestTimeout
  match s.gossiper.beginPull env w.lookup n.self w.clock w.draw n.peers.toList with
  | (gossiper, .error e) => ({ s with gossiper }, n, ⟨[], deadline, .error e⟩, [])
  | (gossiper, .ok inquiry) =>
    let message := (GossipItem.protocol ι).tag inquiry.payload
    let (gossiper, n, waiting, out) := ask w message gossiper n inquiry.peers
    let result := if inquiry.peers.any w.givesUp then .error .cancelled else .ok 0
    ({ s with gossiper }, n, ⟨waiting, deadline, result⟩, out)

/-- Whether a request belongs to a cycle. -/
def awaits (cycle : Option Cycle) (id : UInt32) : Bool := cycle.any fun c => c.waiting.contains id

/-- Requests end. Those that belong to no cycle are none of the protocol's. -/
def note (s : Service σ ι) (endings : List Ending) : Service σ ι :=
  { s with
    unseen := s.unseen ++ endings.filter fun e => awaits s.own e.1 || awaits s.asked e.1 }

/-- How a request of a cycle has ended, if it has: it is noted, or its time is
over. -/
def ending? (s : Service σ ι) (n : Network) (now : Nat) (id : UInt32) : Option Ending :=
  match s.unseen.lookup id, n.waiting[id]? with
  | some result, _ => some (id, result)
  | none, some w => if w.deadline ≤ now then some (id, .error (.timeout w.node)) else none
  | none, none => none

/-- Looks at a request of a cycle that has ended. -/
def conclude (env : ε) : Gossiper σ ι × Cycle → Ending → Gossiper σ ι × Cycle
  | (g, c), (id, result) =>
    let (g, result) := g.handleEnding env result
    (g, c.conclude id result)

/-- Looks at the requests of a cycle that have ended, in the order in which they
were made. -/
def look (s : Service σ ι) (env : ε) (now : Nat) (n : Network) (c : Cycle) :
    Service σ ι × Network × Cycle :=
  let ended := c.waiting.filterMap (s.ending? n now)
  let (gossiper, after) := ended.foldl (conclude env) (s.gossiper, c)
  ({ s with gossiper, unseen := s.unseen.filter fun e => !c.waiting.contains e.1 },
    n.without (ended.map Prod.fst), after)

/-! ## Cycles on request -/

/-- A cycle on request begins (`GossipCoordinator::pull_now`). -/
def pull (s : Service σ ι) (env : ε) (w : Surroundings) (n : Network) :
    Service σ ι × Network × List Outgoing :=
  let (s, n, cycle, out) := s.beginCycle env w n
  ({ s with asked := some cycle }, n, out)

/-- Whoever made the request looks at the cycle. -/
def lookAtAsked (s : Service σ ι) (env : ε) (now : Nat) (n : Network) : Service σ ι × Network :=
  match s.asked with
  | none => (s, n)
  | some c =>
    let (s, n, c) := s.look env now n c
    ({ s with asked := some c }, n)

/-- Whether the cycle on request still waits. -/
def isAsking (s : Service σ ι) : Bool := s.asked.any fun c => !c.isOver

/-- The cycle on request is over: what it brought. -/
def collect (s : Service σ ι) : Service σ ι × Except GossipError Nat :=
  ({ s with asked := none }, match s.asked with
    | some c => c.result
    | none => .ok 0)

/-! ## The protocol's own cycles -/

/-- The protocol looks at its own cycle. -/
def lookAtOwn (s : Service σ ι) (env : ε) (now : Nat) (n : Network) : Service σ ι × Network :=
  match s.own with
  | none => (s, n)
  | some c =>
    let (s, n, c) := s.look env now n c
    ({ s with own := if c.isOver then none else some c }, n)

/-- One cycle after the other, as long as the last one is over and it is time
for the next. -/
def askWhileDue (s : Service σ ι) (env : ε) (w : Surroundings) (n : Network) :
    Service σ ι × Network × List Outgoing :=
  go s.pullAt s n []
where
  go (due : Nat) (s : Service σ ι) (n : Network) (out : List Outgoing) :
      Service σ ι × Network × List Outgoing :=
    if s.own.isSome || w.now < due then ({ s with pullAt := due }, n, out)
    else
      let next := nextTick due w.now s.gossiper.settings.pullEvery
      let (s, n, cycle, more) := s.beginCycle env w n
      let (s, n) := ({ s with own := some cycle } : Service σ ι).lookAtOwn env w.now n
      go next s n (out ++ more)
  termination_by w.now + 1 - due
  decreasing_by
    simp only [Bool.or_eq_true, decide_eq_true_eq, not_or] at *
    unfold nextTick
    split <;> omega

/-! ## Tasks -/

/-- A task's turn: what the protocol says, and when the task wants to get to
work next, if that has changed. -/
def turn (s : Service σ ι) (env : ε) (w : Surroundings) (n : Network) (t : Task) :
    Service σ ι × Network × List Outgoing × Option Nat :=
  if s.isRunning then
    match t with
    | .feeder => (s.gather, n, [], none)
    | .announcer =>
      let (s, out) := s.pushIfDue w
      (s, n, out, some s.pushAt)
    | .asker =>
      let (s, n) := s.lookAtOwn env w.now n
      if s.own.isSome then (s, n, [], none)
      else
        let (s, n, out) := s.askWhileDue env w n
        (s, n, out, some (match s.own with
          | some c => c.deadline
          | none => s.pullAt))
  else (s, n, [], none)

/-- The tasks that have something to do because of what has happened. -/
def roused (s : Service σ ι) : List Task :=
  (if s.feed.any (GossipSet.hasNews s.gossiper.set) then [.feeder] else []) ++
    (if s.unseen.any fun e => awaits s.own e.1 then [.asker] else [])

/-- **Stop, for good** (`GossipCoordinator::shutdown`). The protocol's requests
are given up and its tasks end; requests that come in are still answered. -/
def shutdown (s : Service σ ι) (n : Network) : Service σ ι × Network :=
  let given := match s.own with
    | some c => c.waiting
    | none => []
  ({ s with gossiper := { s.gossiper with cancelled := true }, feed := none, own := none },
    n.without given)

end Service

end TxRelay
