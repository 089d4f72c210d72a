/-
What a gossip protocol needs to know of the items that it spreads and of the
collection that it keeps in step with those of other nodes.

An item has an id and a layout in bytes, and knows which announcements report
it as let in through this node's own interface. A collection takes items in,
lists them in a fixed order, sums them up in a filter and can be listened to.
What the execution layer answers is an argument of the calls that ask it.
-/
import TxRelay.Bus
import TxRelay.Gossip.Error
import TxRelay.Wire.Message

set_option autoImplicit false

namespace TxRelay

/-- A kind of item that is spread (`Gossipable`). -/
class GossipItem (ι : Type) extends Wire.Layout ι where
  /-- The protocol that spreads it. -/
  protocol : Wire.Protocol
  gossipId : ι → Digest
  /-- The items that an announcement reports as this node's own. -/
  acceptedLocally : Event → List ι

instance : GossipItem Transaction where
  protocol := .ordinary
  gossipId := Transaction.hash
  acceptedLocally := Event.localTransactions

instance : GossipItem Transfer where
  protocol := .transfers
  gossipId := Transfer.id
  acceptedLocally := Event.localTransfers

/-- A collection of items that is kept in step with those of other nodes
(`GossipSet`). The execution layer's answers come as a value of `ε`. -/
class GossipSet (σ : Type) (ι ε : outParam Type) where
  /-- Takes in an item; one that is held already is taken in too. -/
  add : σ → ε → ι → σ × Except GossipError Unit
  /-- Whether an item is held. -/
  has : σ → Digest → Bool
  /-- The items that are offered to peers, newest first. -/
  items : σ → ε → List ι
  /-- A filter over the items, and its salt. -/
  filter : σ → ε → σ × Except GossipError (Bytes × Salt)
  /-- A new subscription to what is let in. -/
  subscribe : σ → σ × Nat
  /-- The announcements that a subscription has not read yet. -/
  drain : σ → Nat → σ × List Event
  /-- Whether anything was announced since a subscription was last read. -/
  hasNews : σ → Nat → Bool

/-! ## Messages out of items -/

section
variable {ι : Type} [GossipItem ι]

/-- The bytes of an item, if they fit into a message (`marshal`). -/
def marshal? (x : ι) : Option Bytes := (Wire.encode x).toOption

/-- Takes in what a list of byte strings spells, one after the other. What
spells no item is skipped, and so is what the collection refuses. Also says how
many items were taken in that were not held before. -/
def takeIn {σ ε : Type} [GossipSet σ ι ε] (env : ε) : σ → List Bytes → σ × Nat
  | s, [] => (s, 0)
  | s, b :: rest =>
    match (Wire.decode b : Except Wire.Fault ι) with
    | .error _ => takeIn env s rest
    | .ok x =>
      let known := GossipSet.has s (GossipItem.gossipId x)
      match GossipSet.add s env x with
      | (s, .error _) => takeIn env s rest
      | (s, .ok ()) =>
        let (s, n) := takeIn env s rest
        (s, if known then n else n + 1)

end

end TxRelay
