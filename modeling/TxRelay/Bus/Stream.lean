/-
Reading a bus piece by piece.

A stream is handed what a subscriber has before it one piece at a time, wanted
or not, and is told when announcements were lost to it. What it passes on is
what the subscriber wants; the rest it leaves aside.
-/
import TxRelay.Bus

set_option autoImplicit false

namespace TxRelay

/-- What a subscriber has before it. -/
inductive Piece where
  /-- An announcement, wanted or not. -/
  | event (e : Event)
  /-- So many announcements were overwritten before they were read. -/
  | lost (count : Nat)
  | waiting
  | ended
deriving DecidableEq

namespace Bus

/-- A subscriber goes on at another position. -/
def moveTo (b : Bus) (id position : Nat) : Bus :=
  { b with subscribers := b.subscribers.modify id fun s => { s with position } }

/-- The number of the oldest announcement that is kept. -/
def oldest (b : Bus) : Nat := b.sent - b.recent.length

/-- Takes the next piece (`EventStream::poll_next`). -/
def poll (b : Bus) (id : Nat) : Bus × Piece :=
  match b.subscribers[id]? with
  | none => (b, .ended)
  | some s =>
    if s.position < b.oldest then (b.moveTo id b.oldest, .lost (b.oldest - s.position))
    else
      match b.since s.position with
      | e :: _ => (b.moveTo id (s.position + 1), .event e)
      | [] => (b, if b.closed then .ended else .waiting)

/-- Whether a subscriber wants an announcement. -/
def wants (b : Bus) (id : Nat) (e : Event) : Bool :=
  match b.subscribers[id]? with
  | none => false
  | some s => e.matches s.topics

/-- Takes pieces until one is passed on, at most `fuel` of them. -/
def nextFor : Nat → Bus → Nat → Bus × Reading
  | 0, b, _ => (b, .waiting)
  | fuel + 1, b, id =>
    match b.poll id with
    | (b, .event e) => if b.wants id e then (b, .event e) else nextFor fuel b id
    | (b, .lost _) => nextFor fuel b id
    | (b, .waiting) => (b, .waiting)
    | (b, .ended) => (b, .ended)

/-- **The next announcement of a stream.** What is kept, and what was lost, are
so many pieces that the last one says that nothing is there. -/
def next (b : Bus) (id : Nat) : Bus × Reading := nextFor (b.recent.length + 2) b id

end Bus

end TxRelay
