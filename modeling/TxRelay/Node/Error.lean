/-
What can go wrong with a node: what can go wrong with one of its parts.
-/
import TxRelay.Gossip.Error
import TxRelay.Mempool.Error
import TxRelay.Pool.Error

set_option autoImplicit false

namespace TxRelay

/-- Why a node is not built or not stopped, or does not take something in
(`NodeError`). -/
inductive NodeError where
  /-- The pool of ordinary transactions. -/
  | pool (e : PoolError)
  | mempool (e : MempoolError)
  | gossip (e : GossipError)

namespace NodeError

/-- The path of words to the cause. -/
def label : NodeError → String
  | pool e => "Pool/" ++ e.label
  | mempool e => "Mempool/" ++ e.label
  | gossip e => "Gossip/" ++ e.label

/-- The error in words. -/
def message : NodeError → String
  | pool e => e.message
  | mempool e => e.message
  | gossip e => e.message

end NodeError

end TxRelay
