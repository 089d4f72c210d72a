/-
Own items on their way out.

Queued items are sent in messages. A message is closed as soon as its items
have the target size, so no message is empty and one item more than fits below
the target is never in it. An item that was sent a moment ago, or that stands
in the queue before, is left out; one that does not fit into a message at all
is skipped. A message that the transport refuses ends the flush: what was not
sent is lost, and only what was sent is remembered as sent.
-/
import TxRelay.Gossip.Item
import TxRelay.Lru

set_option autoImplicit false

namespace TxRelay

/-- An item on its way out. -/
structure Parcel where
  id : Digest
  bytes : Bytes
deriving DecidableEq

/-- The queue of a protocol (`PushGossiper`). -/
structure Outbox (ι : Type) where
  /-- What waits, oldest first. -/
  queued : List ι
  sent : Lru Digest Unit

/-- What came of a flush. -/
structure Flush where
  /-- What is remembered as sent. -/
  sent : Lru Digest Unit
  /-- The messages that the transport took, in order. -/
  messages : List Bytes
  /-- How many items they hold, or why the flush ended early. -/
  result : Except GossipError Nat

namespace Outbox

variable {ι : Type} [GossipItem ι]

/-- Nothing waits, nothing was sent. -/
def new (memory : Nat) : Outbox ι := ⟨[], Lru.new memory⟩

/-- Queues items (`PushGossiper::add`). -/
def add (o : Outbox ι) (items : List ι) : Outbox ι := { o with queued := o.queued ++ items }

/-- The items to send: those not sent lately, each once, if they have bytes. -/
def parcels (sent : Lru Digest Unit) : List Digest → List ι → List Parcel
  | _, [] => []
  | seen, x :: rest =>
    let id := GossipItem.gossipId x
    if (sent.peek? id).isSome || seen.contains id then parcels sent seen rest
    else
      match marshal? x with
      | some bytes => ⟨id, bytes⟩ :: parcels sent (id :: seen) rest
      | none => parcels sent (id :: seen) rest

/-- Puts parcels into messages, on top of a message that was begun and its size
(`PushGossiper::batch`). -/
def pack (target : Nat) : List Parcel → Nat → List Parcel → List (List Parcel)
  | begun, _, [] => if begun.isEmpty then [] else [begun]
  | begun, size, p :: rest =>
    let begun := begun ++ [p]
    let size := size + p.bytes.length
    if target ≤ size then begun :: pack target [] 0 rest else pack target begun size rest

/-- The messages that a queue makes (`PushGossiper::batch`). -/
def batches (o : Outbox ι) (target : Nat) : List (List Parcel) :=
  pack target [] 0 (parcels o.sent [] o.queued)

/-- The bytes of a message. -/
def messageOf (protocol : Wire.Protocol) (ps : List Parcel) : Except GossipError Bytes :=
  match Wire.encode (⟨ps.map Parcel.bytes⟩ : Wire.PushMessage) with
  | .ok payload => .ok (protocol.tag payload)
  | .error fault => .error (.ofFault fault)

/-- Sends messages one after the other. The transport's answer to each is given
by its number. -/
def sendAll (protocol : Wire.Protocol) (answers : Nat → Except GossipError Unit) :
    Nat → Lru Digest Unit → List (List Parcel) → Flush
  | _, sent, [] => ⟨sent, [], .ok 0⟩
  | i, sent, ps :: rest =>
    match messageOf protocol ps with
    | .error e => ⟨sent, [], .error e⟩
    | .ok message =>
      match answers i with
      | .error e => ⟨sent, [], .error e⟩
      | .ok () =>
        let sent := ps.foldl (fun m p => m.put p.id ()) sent
        let f := sendAll protocol answers (i + 1) sent rest
        { f with messages := message :: f.messages, result := f.result.map (· + ps.length) }

/-- **A flush** empties the queue (`PushGossiper::gossip`). -/
def flush (o : Outbox ι) (target : Nat) (answers : Nat → Except GossipError Unit) :
    Outbox ι × Flush :=
  let f := sendAll (GossipItem.protocol ι) answers 0 o.sent (o.batches target)
  ({ queued := [], sent := f.sent }, f)

end Outbox

end TxRelay
