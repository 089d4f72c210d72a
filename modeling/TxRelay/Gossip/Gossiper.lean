/-
One gossip protocol of one node: answering, asking and announcing.

*Answering.* A request is looked at in a fixed order: the peer may not ask too
often, it must be a validator, the deadline must not have passed, and the
request must be readable, with a salt of the right size and a filter that is
safe to query. The answer holds the items that the filter misses, in the order
of the collection, and is closed once it has the target size.

*Asking.* A cycle asks some validators among the peers, with a filter over
what is held. What they answer is taken in; an answer that fails or is no
message is counted and otherwise ignored.

*Announcing.* Items let in through this node's own interface are queued and
sent from time to time.

Everything that lies outside is an argument: the answers of the execution
layer, the validator lookup, the time, the draw of peers, the transport.
-/
import TxRelay.Bloom.Filter
import TxRelay.Gossip.Counters
import TxRelay.Gossip.Outbox
import TxRelay.Gossip.Settings
import TxRelay.Throttle

set_option autoImplicit false

namespace TxRelay

/-- One protocol of one node (`GossipHandler`, `PullGossiper`, `PushGossiper`). -/
structure Gossiper (σ ι : Type) where
  settings : GossipSettings
  set : σ
  /-- The requests of each peer. -/
  throttle : Throttle NodeId
  counters : GossipCounters
  /-- What is to be announced. -/
  outbox : Outbox ι
  /-- When the last cycle began. -/
  lastPull : Option Nat
  /-- Whether the protocol was stopped for good. -/
  cancelled : Bool

namespace Gossiper

variable {σ ι ε : Type} [GossipItem ι] [GossipSet σ ι ε]

/-- A protocol that has done nothing yet. -/
def new (settings : GossipSettings) (set : σ) : Gossiper σ ι where
  settings := settings
  set := set
  throttle := Throttle.new settings.throttlePeriod settings.throttleLimit
  counters := .zero
  outbox := Outbox.new settings.pushedMemory
  lastPull := none
  cancelled := false

/-! ## Answering -/

/-- The number of bytes of a salt (`SALT_LEN`). -/
def saltBytes : Nat := 32

/-- The bytes of the items that a filter misses, in order, up to and with the
one that reaches the target; `size` bytes are there already
(`GossipHandler::respond`). -/
def missing (target : Nat) (filter : Bloom.BloomFilter) (salt : Bytes) :
    Nat → List ι → Except Wire.Fault (List Bytes)
  | _, [] => .ok []
  | size, x :: rest =>
    if filter.contains (GossipItem.gossipId x).toList salt then missing target filter salt size rest
    else
      match Wire.encode x with
      | .error fault => .error fault
      | .ok b =>
        if size + b.length < target then
          (b :: ·) <$> missing target filter salt (size + b.length) rest
        else .ok [b]

/-- The answer to a request that was admitted. -/
def answerTo (g : Gossiper σ ι) (env : ε) (payload : Bytes) : Except GossipError Bytes :=
  match (Wire.decode payload : Except Wire.Fault Wire.PullRequest) with
  | .error fault => .error (.ofFault fault)
  | .ok request =>
    if request.salt.length ≠ saltBytes then .error (.invalidSalt saltBytes request.salt.length)
    else
      match Bloom.BloomFilter.parse request.filter g.settings.maxFilterBytes with
      | .error e => .error (.filter e)
      | .ok filter =>
        match missing g.settings.targetBytes filter request.salt 0 (GossipSet.items g.set env) with
        | .error fault => .error (.ofFault fault)
        | .ok items =>
          match Wire.encode (⟨items⟩ : Wire.PullResponse) with
          | .error fault => .error (.ofFault fault)
          | .ok b => .ok b

/-- What a peer's request comes to (`GossipHandler::respond`). The throttle
counts it in any case. -/
def respond (g : Gossiper σ ι) (env : ε) (lookup : ValidatorLookup) (now deadline : Nat)
    (node : NodeId) (payload : Bytes) : Gossiper σ ι × Except GossipError Bytes :=
  let (throttle, allowed) := g.throttle.handle node now
  let g := { g with throttle }
  if !allowed then (g, .error (.rejected "throttled"))
  else if !lookup.admits node then (g, .error (.rejected "requester is not a validator"))
  else if deadline ≤ now then (g, .error (.rejected "deadline passed"))
  else (g, g.answerTo env payload)

/-- **A request comes in**; it is answered or dropped
(`GossipHandler::app_request`). -/
def handleRequest (g : Gossiper σ ι) (env : ε) (lookup : ValidatorLookup) (now deadline : Nat)
    (node : NodeId) (payload : Bytes) : Gossiper σ ι × Option Bytes :=
  let g := { g with counters.requestsReceived := g.counters.requestsReceived + 1 }
  match g.respond env lookup now deadline node payload with
  | (g, .ok b) => ({ g with counters.responsesSent := g.counters.responsesSent + 1 }, some b)
  | (g, .error _) => ({ g with counters.requestsDropped := g.counters.requestsDropped + 1 }, none)

/-! ## Taking in -/

/-- **An announcement comes in** (`GossipHandler::app_gossip`). -/
def handlePush (g : Gossiper σ ι) (env : ε) (payload : Bytes) : Gossiper σ ι :=
  match (Wire.decode payload : Except Wire.Fault Wire.PushMessage) with
  | .error _ => g
  | .ok m =>
    let (set, n) := takeIn env g.set m.items
    { g with set, counters.receivedPush := g.counters.receivedPush + n }

/-- A request of this node came to nothing (`GossipMetrics::pull_failed`). -/
def countFailure (g : Gossiper σ ι) : Gossiper σ ι :=
  { g with counters.pullFailures := g.counters.pullFailures + 1 }

/-- A request of this node was not taken by the transport. It came to nothing,
unless it was given up. -/
def countRefusal (g : Gossiper σ ι) : GossipError → Gossiper σ ι
  | .cancelled => g
  | _ => g.countFailure

/-- **A request of this node ends**: how many new items it brought
(`PullGossiper::pull_from`). Only being given up is an error. -/
def handleEnding (g : Gossiper σ ι) (env : ε) (result : Except GossipError Bytes) :
    Gossiper σ ι × Except GossipError Nat :=
  match result with
  | .error .cancelled => (g, .error .cancelled)
  | .error _ => (g.countFailure, .ok 0)
  | .ok b =>
    match (Wire.decode b : Except Wire.Fault Wire.PullResponse) with
    | .error _ => (g.countFailure, .ok 0)
    | .ok m =>
      let (set, n) := takeIn env g.set m.items
      ({ g with set, counters.receivedPull := g.counters.receivedPull + n }, .ok n)

/-! ## Asking -/

/-- Whom a cycle asks, and what. -/
structure Inquiry where
  peers : List NodeId
  /-- The request, the same for all. -/
  payload : Bytes

/-- A cycle that asks nobody. -/
def Inquiry.nobody : Inquiry := ⟨[], []⟩

/-- Whether a cycle would follow the last one too soon
(`PullGossiper::claim_slot`). -/
def isTooSoon (g : Gossiper σ ι) (now : Nat) : Bool :=
  match g.lastPull with
  | some t => now - t < g.settings.minPullGap
  | none => false

/-- The request of a cycle to given peers. -/
def inquire (g : Gossiper σ ι) (env : ε) (peers : List NodeId) :
    Gossiper σ ι × Except GossipError Inquiry :=
  match GossipSet.filter g.set env with
  | (set, .error e) => ({ g with set }, .error e)
  | (set, .ok (filter, salt)) =>
    let g := { g with set }
    match Wire.encode (⟨filter, salt.toList⟩ : Wire.PullRequest) with
    | .error fault => (g, .error (.ofFault fault))
    | .ok payload =>
      ({ g with counters.pullRequestsSent := g.counters.pullRequestsSent + peers.length },
        .ok ⟨peers, payload⟩)

/-- **A cycle begins** (`PullGossiper::gossip`). -/
def beginPull (g : Gossiper σ ι) (env : ε) (lookup : ValidatorLookup) (self : NodeId) (now : Nat)
    (draw : List NodeId → List NodeId) (peers : List NodeId) :
    Gossiper σ ι × Except GossipError Inquiry :=
  if g.cancelled then (g, .error .cancelled)
  else if g.isTooSoon now then (g, .ok .nobody)
  else
    let g := { g with lastPull := some now }
    if g.settings.onlyAsValidator && !lookup.admits self then (g, .ok .nobody)
    else
      let asked := lookup.sample self draw peers g.settings.pollSize
      if asked.isEmpty then (g, .ok .nobody) else g.inquire env asked

/-- Takes in the endings of a cycle's requests, one after the other. -/
def handleEndings (g : Gossiper σ ι) (env : ε) :
    List (Except GossipError Bytes) → Gossiper σ ι × Except GossipError Nat
  | [] => (g, .ok 0)
  | r :: rest =>
    match g.handleEnding env r with
    | (g, .error e) => ((g.handleEndings env rest).1, .error e)
    | (g, .ok n) =>
      let (g, total) := g.handleEndings env rest
      (g, total.map (n + ·))

/-- **A whole cycle**, given how the request to each peer ends
(`PullGossiper::gossip`). -/
def pull (g : Gossiper σ ι) (env : ε) (lookup : ValidatorLookup) (self : NodeId) (now : Nat)
    (draw : List NodeId → List NodeId) (peers : List NodeId)
    (ending : NodeId → Except GossipError Bytes) : Gossiper σ ι × Except GossipError Nat :=
  match g.beginPull env lookup self now draw peers with
  | (g, .error e) => (g, .error e)
  | (g, .ok inquiry) => g.handleEndings env (inquiry.peers.map ending)

/-! ## Announcing -/

/-- Queues what announcements report as this node's own (`PushGossiper::add`). -/
def queue (g : Gossiper σ ι) (es : List Event) : Gossiper σ ι :=
  { g with outbox := g.outbox.add (es.flatMap GossipItem.acceptedLocally) }

/-- **A flush**: the messages that the transport took, and how many items they
hold, or why the flush ended early (`PushGossiper::gossip`). -/
def push (g : Gossiper σ ι) (answers : Nat → Except GossipError Unit) :
    Gossiper σ ι × List Bytes × Except GossipError Nat :=
  let (outbox, f) := g.outbox.flush g.settings.targetBytes answers
  let sent := match f.result with
    | .ok n => n
    | .error _ => 0
  ({ g with outbox, counters.pushed := g.counters.pushed + sent }, f.messages, f.result)

end Gossiper

end TxRelay
