/-
The transfer pool of a node as a collection to be gossiped.

Peers are offered every pooled transfer, and the filter is the one that the
pool keeps up to date itself.
-/
import TxRelay.Gossip.Item
import TxRelay.Mempool

set_option autoImplicit false

namespace TxRelay.Mempool

/-- Takes in a transfer from a peer (`AtomicGossipSet::add`). -/
def takeRemote (p : Mempool) (b : TransferBackend) (tx : Transfer) :
    Mempool × Except GossipError Unit :=
  match p.add b tx false with
  | (p, .ok ()) => (p, .ok ())
  | (p, .error (.filter e)) => (p, .error (.filter e))
  | (p, .error e) => (p, if e.isDuplicate then .ok () else .error (.rejected e.message))

/-- However it answers, the pool is as after an offer. -/
theorem fst_takeRemote (p : Mempool) (b : TransferBackend) (tx : Transfer) :
    (p.takeRemote b tx).1 = (p.add b tx false).1 := by
  unfold takeRemote
  split
  · next heq => rw [heq]
  · next heq => rw [heq]
  · next heq => rw [heq]

instance : GossipSet Mempool Transfer TransferBackend where
  add := takeRemote
  has := has
  items p _ := p.newestFirst
  filter p _ := (p, .ok p.filter)
  subscribe := subscribe
  drain p id :=
    let (bus, es, _) := p.bus.drain id
    ({ p with bus }, es)
  hasNews p id := p.bus.hasNews id

end TxRelay.Mempool
