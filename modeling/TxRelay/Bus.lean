/-
A bus: announcements go to every subscriber, and the slow ones lose the oldest.

The bus keeps the last announcements, as many as its capacity rounded up to a
power of two. A subscriber has a position in the sequence of all
announcements; reading takes it to the next one that it wants. A subscriber
whose position has been overwritten continues at the oldest one kept. Once the
bus is closed nothing is delivered any more, but what is still kept can be
read; after that the subscription has ended.
-/
import Std.Data.ExtTreeMap
import TxRelay.Event

set_option autoImplicit false

namespace TxRelay

/-- A subscriber (`Subscription`). -/
structure Subscriber where
  topics : List Topic
  /-- The number of the announcement that it reads next. -/
  position : Nat

/-- A bus (`InMemoryEventBus`). -/
structure Bus where
  /-- How many announcements it is asked to keep. -/
  capacity : Nat
  /-- How many times something was published, delivered or not. -/
  published : Nat
  /-- How many announcements were delivered. -/
  sent : Nat
  /-- The last announcements, newest first. -/
  recent : List Event
  /-- Whether it is closed. -/
  closed : Bool
  /-- Who listens. -/
  subscribers : Std.ExtTreeMap Nat Subscriber
  /-- The number of the next subscriber. -/
  nextId : Nat

/-- What reading from a subscription gives (`Subscription::try_recv`). -/
inductive Reading where
  | event (e : Event)
  | waiting
  | ended
deriving DecidableEq

namespace Bus

/-- The capacity where none is asked for. -/
def standardCapacity : Nat := 1024

/-- A bus without subscribers (`InMemoryEventBus::with_capacity`). -/
def new (capacity : Nat) : Bus where
  capacity := capacity
  published := 0
  sent := 0
  recent := []
  closed := false
  subscribers := ∅
  nextId := 0

/-- How many announcements are kept. -/
def slots (b : Bus) : Nat := (max 1 b.capacity).nextPowerOfTwo

/-- How many listen; nobody does once the bus is closed
(`InMemoryEventBus::subscriber_count`). -/
def subscriberCount (b : Bus) : Nat := if b.closed then 0 else b.subscribers.size

/-- A new subscriber, at the end of what was sent
(`InMemoryEventBus::subscribe`). -/
def subscribe (b : Bus) (topics : List Topic) : Bus × Nat :=
  ({ b with subscribers := b.subscribers.insert b.nextId ⟨topics, b.sent⟩, nextId := b.nextId + 1 },
   b.nextId)

/-- The bus without a subscriber. -/
def drop (b : Bus) (id : Nat) : Bus :=
  { b with subscribers := b.subscribers.erase id }

/-- Announces an event; also says how many it was delivered to
(`InMemoryEventBus::publish`). -/
def publish (b : Bus) (e : Event) : Bus × Nat :=
  let b := { b with published := b.published + 1 }
  if b.closed then (b, 0)
  else ({ b with sent := b.sent + 1, recent := (e :: b.recent).take b.slots }, b.subscribers.size)

/-- The bus, closed (`InMemoryEventBus::close`). -/
def close (b : Bus) : Bus := { b with closed := true }

/-- The first wanted announcement of a list, oldest first, that starts at a
position, with the position after it. -/
def firstWanted (topics : List Topic) : Nat → List Event → Option (Event × Nat)
  | _, [] => none
  | position, e :: rest =>
    if e.matches topics then some (e, position + 1) else firstWanted topics (position + 1) rest

/-- What is kept from a position on, oldest first. -/
def since (b : Bus) (position : Nat) : List Event :=
  (b.recent.take (b.sent - position)).reverse

/-- Reads the next announcement that a subscriber wants
(`Subscription::try_recv`). -/
def read (b : Bus) (id : Nat) : Bus × Reading :=
  match b.subscribers[id]? with
  | none => (b, .ended)
  | some s =>
    let position := max s.position (b.sent - b.recent.length)
    let moved := fun position => { b with subscribers := b.subscribers.insert id { s with position } }
    match firstWanted s.topics position (b.since position) with
    | some (e, position) => (moved position, .event e)
    | none => (moved b.sent, if b.closed then .ended else .waiting)

/-- Whether something was sent since a subscriber last looked. -/
def hasNews (b : Bus) (id : Nat) : Bool :=
  match b.subscribers[id]? with
  | none => false
  | some s => s.position < b.sent

/-- Reads until nothing is left for now, at most `fuel` times. -/
def drainFor : Nat → Bus → Nat → Bus × List Event × Reading
  | 0, b, _ => (b, [], .waiting)
  | fuel + 1, b, id =>
    match b.read id with
    | (b, .event e) =>
      let (b, es, last) := drainFor fuel b id
      (b, e :: es, last)
    | (b, last) => (b, [], last)

/-- Reads all that a subscriber can read now, and how the reading ended. -/
def drain (b : Bus) (id : Nat) : Bus × List Event × Reading :=
  drainFor (b.recent.length + 1) b id

end Bus

end TxRelay
