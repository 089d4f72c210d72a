/-
What pools, filters and protocols report of their state.
-/
import TxRelay.Bloom.Rolling
import TxRelay.Datum.Items
import TxRelay.Gossip.Counters
import TxRelay.Pool.SubPool
import TxRelay.Validators

set_option autoImplicit false

namespace TxRelay

/-- A map is reported with its keys in hexadecimal, in their order. -/
instance {n : Nat} {α : Type} [Reported α] : Reported (Std.ExtTreeMap (Vector UInt8 n) α) :=
  ⟨fun m => .fields (m.toList.map fun e => (Bytes.toHex e.1.toList, report e.2))⟩

/-- The ids of transactions. -/
def idsOf (txs : List Transaction) : List Digest := txs.map Transaction.hash

/-- The ids of each account's transactions. -/
def AccountTxs.ids (m : AccountTxs) : Std.ExtTreeMap Address (List Digest) := m.map fun _ => idsOf

instance : Reported Bloom.BloomFilter := ⟨fun f => .row "m k n" [f.m, f.k, f.n]⟩

instance : Reported Bloom.RollingFilter := ⟨fun f => .row "filter max_count resets fpr"
  [f.filter, f.maxCount, f.resets, f.filter.rate]⟩

instance : Reported TxStatus := ⟨fun s => match s with
  | .unknown => .text "unknown"
  | .queued => .text "queued"
  | .pending => .text "pending"⟩

/-- Whatever is neither queued nor pending is unknown. -/
instance : Given TxStatus := ⟨fun d => match d with
  | .text "queued" => some .queued
  | .text "pending" => some .pending
  | _ => some .unknown⟩

instance : Reported PoolStats := ⟨fun s => .row "pending queued total" [s.pending, s.queued, s.total]⟩

instance : Reported PoolContent := ⟨fun c => .row "pending queued" [c.pending.ids, c.queued.ids]⟩

instance : Reported AccountContent := ⟨fun c => .row "pending queued empty"
  [idsOf c.pending, idsOf c.queued, c.pending.isEmpty && c.queued.isEmpty]⟩

instance : Reported GossipCounters := ⟨fun c => (Datum.row
  "requests_received requests_dropped responses_sent pull_requests_sent"
  [c.requestsReceived, c.requestsDropped, c.responsesSent, c.pullRequestsSent]).join
    (.row "pull_failures received_push received_pull pushed"
      [c.pullFailures, c.receivedPush, c.receivedPull, c.pushed])⟩

end TxRelay
