/-
What a gossip protocol counts.
-/
set_option autoImplicit false

namespace TxRelay

/-- The counters of one protocol (`GossipMetrics`). -/
structure GossipCounters where
  requestsReceived : Nat
  /-- Requests that were not answered. -/
  requestsDropped : Nat
  /-- Requests that were answered. -/
  responsesSent : Nat
  pullRequestsSent : Nat
  /-- Requests that were answered badly or not at all. -/
  pullFailures : Nat
  /-- New items out of pushed messages. -/
  receivedPush : Nat
  /-- New items out of answers. -/
  receivedPull : Nat
  /-- Items in pushed messages. -/
  pushed : Nat
deriving DecidableEq, Inhabited

/-- Nothing was counted yet. -/
def GossipCounters.zero : GossipCounters := ⟨0, 0, 0, 0, 0, 0, 0, 0⟩

end TxRelay
