/-
What a coordinator asks of a sub-pool.

A sub-pool holds the transactions of one kind. The coordinator never looks at
the kind; it asks each sub-pool whether a transaction is its own, hands it
batches, and merges the answers to queries. Sub-pools of one coordinator share
the table of claimed accounts and the bus.

Whether a transaction is acceptable and which nonce an account is at is known
to an execution layer outside the pools. It may answer differently each time,
so its answers are an argument of every call that needs them.
-/
import TxRelay.Bus
import TxRelay.Pool.Reservations

set_option autoImplicit false

namespace TxRelay

/-- What an execution layer answers (`ExecutionBackend`). -/
structure Backend where
  /-- Why a transaction is not acceptable, if it is not. -/
  validate : Transaction → Except String Unit
  /-- The next nonce of an account. -/
  nonce : Address → UInt64

/-- What the sub-pools of one coordinator share (`SubPoolContext`). -/
structure Commons where
  /-- The table of claimed accounts. -/
  reservations : Reservations
  /-- Where they announce what they let in. -/
  bus : Bus

/-- Where a transaction is (`TxStatus`). -/
inductive TxStatus where
  | unknown
  /-- Waiting for a nonce before it. -/
  | queued
  | pending
deriving DecidableEq

/-- How many transactions are executable and how many wait (`PoolStats`). -/
structure PoolStats where
  pending : Nat
  queued : Nat
deriving DecidableEq, Inhabited

/-- Both counts together (`PoolStats::total`). -/
def PoolStats.total (s : PoolStats) : Nat := s.pending + s.queued

/-- The counts of two pools (`PoolStats::merge`). -/
def PoolStats.merge (a b : PoolStats) : PoolStats := ⟨a.pending + b.pending, a.queued + b.queued⟩

/-- Transactions by account, each account's by nonce. -/
abbrev AccountTxs := Std.ExtTreeMap Address (List Transaction)

/-- Everything in a pool (`PoolContent`). -/
structure PoolContent where
  pending : AccountTxs
  /-- What waits. -/
  queued : AccountTxs
deriving DecidableEq

/-- Nothing. -/
def PoolContent.empty : PoolContent := ⟨∅, ∅⟩

/-- The accounts of two maps; of an account in both, what the second one says. -/
def AccountTxs.extend (a b : AccountTxs) : AccountTxs := a.insertMany b.toList

/-- The contents of two pools (`PoolContent::merge`). -/
def PoolContent.merge (a b : PoolContent) : PoolContent :=
  ⟨AccountTxs.extend a.pending b.pending, AccountTxs.extend a.queued b.queued⟩

/-- The transactions of one account (`AccountContent`). -/
structure AccountContent where
  pending : List Transaction
  queued : List Transaction
deriving DecidableEq, Inhabited

/-- The transactions of one account in two pools (`AccountContent::merge`). -/
def AccountContent.merge (a b : AccountContent) : AccountContent :=
  ⟨a.pending ++ b.pending, a.queued ++ b.queued⟩

/-- The result of each transaction of a batch. -/
abbrev Outcome := Except PoolError Unit

/-- A kind of sub-pool (`SubPool`). -/
class SubPool (σ : Type) where
  name : σ → String
  /-- Whether a transaction is its own. -/
  claims : σ → Transaction → Bool
  /-- Takes its seat at the table of claimed accounts, on a head. -/
  attach : σ → Nat → Header → σ × Outcome
  /-- Leaves its seat and lets go of everything. -/
  detach : σ → Commons → σ × Commons × Outcome
  /-- Catches up from one head to another; nothing if it breaks off. -/
  reset : σ → Backend → Commons → Header → Header → Option (σ × Commons)
  /-- Takes in a batch; one outcome for each transaction, in order. -/
  add : σ → Backend → Commons → List Transaction → Bool → Bool → σ × Commons × List Outcome
  /-- A transaction that is held. -/
  get? : σ → Digest → Option Transaction
  /-- Whether a transaction is held and came in through this node's own
  interface. -/
  hasLocal : σ → Digest → Bool
  status : σ → Backend → Digest → TxStatus
  /-- The executable transactions of given accounts, or of all. -/
  pending : σ → Backend → Option (List Address) → AccountTxs
  content : σ → Backend → PoolContent
  /-- What is held of one account. -/
  contentOf : σ → Backend → Address → AccountContent
  /-- The executable transactions, newest first. -/
  executable : σ → Backend → List Transaction
  /-- The next nonce that an account can use here. -/
  nonce : σ → Backend → Address → UInt64
  /-- How many transactions are held. -/
  stats : σ → Backend → PoolStats
  /-- The accounts with transactions from this node's own interface. -/
  locals : σ → List Address

end TxRelay
