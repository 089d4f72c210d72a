/-
What pools announce.

A sub-pool announces the transactions that a call let in, the transfer pool
each transfer, and the coordinator each new head that its sub-pools have been
reset to. An announcement of items says whether they came in through this
node's own interface.
-/
import TxRelay.Header
import TxRelay.Transaction
import TxRelay.Transfer

set_option autoImplicit false

namespace TxRelay

/-- An announcement (`PoolEvent`). -/
inductive Event where
  /-- Transactions were let in. -/
  | transactions (txs : List Transaction) (isLocal : Bool)
  | transfers (txs : List Transfer) (isLocal : Bool)
  /-- The sub-pools were reset to a head. -/
  | reorg (head : Header)
deriving DecidableEq

/-- What a subscriber may ask for (`EventTopic`). -/
inductive Topic where
  | all
  | transactions
  | transfers
  | reorg
deriving DecidableEq

/-- The topic of an announcement (`PoolEvent::topic`). -/
def Event.topic : Event → Topic
  | .transactions _ _ => .transactions
  | .transfers _ _ => .transfers
  | .reorg _ => .reorg

/-- Whether a subscriber to the given topics wants an announcement
(`EventFilter::matches`). No topic at all means every topic. -/
def Event.matches (e : Event) (topics : List Topic) : Bool :=
  topics.isEmpty || topics.any fun t => t == .all || t == e.topic

/-- The transactions that an announcement reports as let in through this node's
own interface (`accepted_locally`). -/
def Event.localTransactions : Event → List Transaction
  | .transactions txs true => txs
  | _ => []

/-- The transfers that an announcement reports as let in through this node's own
interface (`accepted_locally`). -/
def Event.localTransfers : Event → List Transfer
  | .transfers txs true => txs
  | _ => []

end TxRelay
