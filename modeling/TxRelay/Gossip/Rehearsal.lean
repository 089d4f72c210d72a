/-
A gossip protocol among peers that play a part.

The transport delivers nothing: it keeps what it is given, or refuses all of
it while it is down. What each peer does with the requests of a cycle on
request is written down beforehand, and it does so as soon as the transport has
taken the request. The protocol's own cycles meet with silence.

Limits and deadlines go by a clock that stands still.
-/
import TxRelay.Agenda
import TxRelay.Gossip.PoolSet
import TxRelay.Gossip.Service

set_option autoImplicit false

namespace TxRelay

/-- What a peer does with a request. -/
inductive Reply where
  | answer (payload : Bytes)
  | refusal (reason : String)
  | silence
  /-- The request does not even reach it. -/
  | unreachable
  | leave
  /-- Another node answers in its place. -/
  | substitute (node : NodeId) (payload : Bytes)

/-- A protocol, its network and what the transport kept. -/
structure Rehearsal (σ ι : Type) where
  network : Network
  service : Service σ ι
  /-- Which tasks are to work, and when. -/
  agenda : Agenda Task
  /-- Whether the transport is down. -/
  down : Bool
  /-- The requests that the transport was given, oldest first. -/
  requests : List (NodeId × Bytes)
  /-- The announcements that the transport was given, oldest first. -/
  announcements : List Bytes

namespace Rehearsal

variable {σ ι ε : Type} [GossipItem ι] [GossipSet σ ι ε]

/-- The protocol is registered and was not started. -/
def new (self : NodeId) (settings : GossipSettings) (set : σ) : Except GossipError (Rehearsal σ ι) :=
  ((Network.new self).register (GossipItem.protocol ι)).map fun network =>
    { network, service := Service.new settings set, agenda := .empty, down := false
      requests := [], announcements := [] }

/-- What the transport says of anything. -/
def link (r : Rehearsal σ ι) : Except GossipError Unit :=
  if r.down then .error (.transport "link down") else .ok ()

/-- Whether a request reaches a peer that plays a part. -/
def reach (r : Rehearsal σ ι) (reply : Reply) : Except GossipError Unit :=
  match r.link, reply with
  | .ok (), .unreachable => .error (.transport "unreachable")
  | link, _ => link

/-- What the protocol finds around it, given the parts of the peers. -/
def around (r : Rehearsal σ ι) (lookup : ValidatorLookup) (script : NodeId → Reply) :
    Surroundings where
  now := r.agenda.now
  clock := 0
  lookup := lookup
  draw := id
  reach node := r.reach (script node)
  link := r.link

/-- Keeps what the transport was given. -/
def keep (r : Rehearsal σ ι) (out : List Outgoing) : Rehearsal σ ι :=
  out.foldl (fun r o => match o with
    | .request node _ _ message =>
      if r.down then r else { r with requests := r.requests ++ [(node, message)] }
    | .announcement message => { r with announcements := r.announcements ++ [message] }) r

/-- Wakes the tasks that have something to do. -/
def rouse (r : Rehearsal σ ι) : Rehearsal σ ι :=
  { r with agenda := r.service.roused.foldl Agenda.wake r.agenda }

/-- Requests end. -/
def note (r : Rehearsal σ ι) (ended : Network × List Ending) : Rehearsal σ ι :=
  { r with network := ended.1, service := r.service.note ended.2 }

/-- A peer is disconnected. -/
def disconnect (r : Rehearsal σ ι) (node : NodeId) : Rehearsal σ ι :=
  (r.note (r.network.disconnect node)).rouse

/-! ## Turns and time -/

/-- A task's turn. -/
def turn (env : ε) (lookup : ValidatorLookup) (t : Task) (r : Rehearsal σ ι) : Rehearsal σ ι :=
  let (service, network, out, due) :=
    r.service.turn env (r.around lookup fun _ => .silence) r.network t
  let r := (({ r with service, network } : Rehearsal σ ι).keep out).rouse
  match due with
  | some due => { r with agenda := r.agenda.setAlarm t due }
  | none => r

/-- The protocol at work. -/
def place (env : ε) (lookup : ValidatorLookup) : Workplace (Rehearsal σ ι) Task where
  agenda r := r.agenda
  withAgenda r agenda := { r with agenda }
  turn := turn env lookup

/-- Lets some time pass. -/
def sleep (r : Rehearsal σ ι) (env : ε) (lookup : ValidatorLookup) (duration : Nat) :
    Rehearsal σ ι :=
  (place env lookup).sleep duration r.rouse

/-- Starts the protocol, unless it is running. -/
def start (r : Rehearsal σ ι) : Rehearsal σ ι :=
  let service := r.service.start r.agenda.now
  { r with
    service
    agenda := if service.isRunning && !r.service.isRunning
      then Task.all.foldl Agenda.wake r.agenda else r.agenda }

/-! ## Cycles on request -/

/-- A peer plays its part on a request. -/
def play (r : Rehearsal σ ι) (node : NodeId) (id : UInt32) : Reply → Network × List Ending
  | .answer payload => r.network.answer node id payload
  | .refusal reason => r.network.refuse node id reason
  | .silence => (r.network, [])
  | .unreachable => (r.network, [])
  | .leave => r.network.disconnect node
  | .substitute other payload => r.network.answer other id payload

/-- The peers play their parts on requests that the transport has taken, one
after the other. -/
def playAll (r : Rehearsal σ ι) (script : NodeId → Reply) (out : List Outgoing) :
    Rehearsal σ ι :=
  if r.down then r
  else out.foldl (fun r o => match o with
    | .request node id _ _ => r.note (r.play node id (script node))
    | .announcement _ => r) r

/-- Whoever asked for a cycle looks at it. -/
def lookAtAsked (env : ε) (r : Rehearsal σ ι) : Rehearsal σ ι :=
  let (service, network) := r.service.lookAtAsked env r.agenda.now r.network
  ({ r with service, network } : Rehearsal σ ι).rouse

/-- **A cycle on request**, to its end. -/
def pull (r : Rehearsal σ ι) (env : ε) (lookup : ValidatorLookup) (script : NodeId → Reply) :
    Rehearsal σ ι × Except GossipError Nat :=
  let (service, network, out) := r.service.pull env (r.around lookup script) r.network
  let r := (({ r with service, network } : Rehearsal σ ι).keep out).playAll script out
  let limit := r.agenda.now + r.service.gossiper.settings.requestTimeout
  let r := (place env lookup).await ⟨lookAtAsked env, fun r => !r.service.isAsking⟩ limit r
  let (service, result) := r.service.collect
  ({ r with service }, result)

/-- Announces what is queued, at once. -/
def push (r : Rehearsal σ ι) (lookup : ValidatorLookup) : Rehearsal σ ι × Except GossipError Nat :=
  let (service, out, result) := r.service.push (r.around lookup fun _ => .silence)
  (({ r with service } : Rehearsal σ ι).keep out, result)

/-- A message comes in: the payload, if the protocol handles it. -/
def dispatch (r : Rehearsal σ ι) (message : Bytes) : Except GossipError Bytes :=
  (r.network.dispatch message).map Prod.snd

/-- **A request comes in.** The answer, if there is one and the transport takes
it. -/
def receiveRequest (r : Rehearsal σ ι) (env : ε) (lookup : ValidatorLookup) (deadline : Nat)
    (node : NodeId) (message : Bytes) : Rehearsal σ ι × Except GossipError (Option Bytes) :=
  match r.dispatch message with
  | .error e => (r, .error e)
  | .ok payload =>
    let (gossiper, answer) := r.service.gossiper.handleRequest env lookup 0 deadline node payload
    let r := { r with service := { r.service with gossiper } }
    match answer, r.link with
    | none, _ => (r, .ok none)
    | some _, .error e => (r, .error e)
    | some b, .ok () => (r, .ok (some b))

/-- **An announcement comes in.** -/
def receivePush (r : Rehearsal σ ι) (env : ε) (message : Bytes) :
    Rehearsal σ ι × Except GossipError Unit :=
  match r.dispatch message with
  | .error e => (r, .error e)
  | .ok payload =>
    ({ r with service := { r.service with gossiper := r.service.gossiper.handlePush env payload } },
      .ok ())

/-- Closes the pool that is gossiped about. Everybody who is ready works before,
unless the pool is closed already. -/
def closePool (r : Rehearsal PoolSet Transaction) (views : PoolSet.Views) (lookup : ValidatorLookup) :
    Rehearsal PoolSet Transaction × Outcome :=
  let r := if r.service.gossiper.set.pool.closed then r
    else (place views lookup).finish r.rouse
  let (pool, outcome) := r.service.gossiper.set.pool.close views
  ({ r with service.gossiper.set.pool := pool }, outcome)

/-- Stops the protocol for good; none of its tasks works any more. -/
def shutdown (r : Rehearsal σ ι) : Rehearsal σ ι :=
  let (service, network) := r.service.shutdown r.network
  { r with service, network, agenda := { r.agenda with ready := [], alarms := [] } }

end Rehearsal

end TxRelay
