/-
Settings with named fields. Settings that are given override those that a
field does not name.
-/
import TxRelay.Datum
import TxRelay.Node.Settings

set_option autoImplicit false

namespace TxRelay

/-- The fields of gossip settings. -/
def GossipSettings.fields : List (Field GossipSettings) := [
  .of "pull_frequency_ms" (·.pullEvery) ({ · with pullEvery := · }),
  .of "min_pull_interval_ms" (·.minPullGap) ({ · with minPullGap := · }),
  .of "push_frequency_ms" (·.pushEvery) ({ · with pushEvery := · }),
  .of "poll_size" (·.pollSize) ({ · with pollSize := · }),
  .of "request_timeout_ms" (·.requestTimeout) ({ · with requestTimeout := · }),
  .of "target_message_size" (·.targetBytes) ({ · with targetBytes := · }),
  .of "throttling_period_ms" (·.throttlePeriod) ({ · with throttlePeriod := · }),
  .of "throttling_limit" (·.throttleLimit) ({ · with throttleLimit := · }),
  .of "max_filter_bytes" (·.maxFilterBytes) ({ · with maxFilterBytes := · }),
  .of "recently_pushed_cache" (·.pushedMemory) ({ · with pushedMemory := · }),
  .of "pull_only_as_validator" (·.onlyAsValidator) ({ · with onlyAsValidator := · })]

/-- The fields of the limits of a sub-pool. -/
def NonceLimits.fields : List (Field NonceLimits) := [
  .of "max_transactions" (·.maxTransactions) ({ · with maxTransactions := · }),
  .of "max_per_account" (·.maxPerAccount) ({ · with maxPerAccount := · }),
  .of "price_bump_percent" (·.priceBump) ({ · with priceBump := · })]

/-- The fields of the policy of a filter. -/
def Bloom.Settings.fields : List (Field Bloom.Settings) := [
  .of "min_target_elements" (·.minElements) ({ · with minElements := · }),
  .of "target_fpr" (·.targetRate) ({ · with targetRate := · }),
  .of "reset_fpr" (·.resetRate) ({ · with resetRate := · }),
  .of "churn_multiplier" (·.churn) ({ · with churn := · })]

/-- The fields of the limits of the transfer pool, but for those of its
filter. -/
def MempoolSettings.fields : List (Field MempoolSettings) := [
  .of "max_size" (·.maxSize) ({ · with maxSize := · }),
  .of "discarded_cache_size" (·.verdicts) ({ · with verdicts := · })]

/-- Settings with some fields overridden, or what a node uses. -/
def settingsOf? {α : Type} (fs : List (Field α)) (standard other : α) (d : Datum) : Option α :=
  match d with
  | .text "default" => some standard
  | d => Field.overrideAll? fs other d

instance : Reported GossipSettings := ⟨Field.reportAll GossipSettings.fields⟩
instance : Reported NonceLimits := ⟨Field.reportAll NonceLimits.fields⟩
instance : Given NonceLimits := ⟨settingsOf? NonceLimits.fields .standard .small⟩
instance : Reported Bloom.Settings := ⟨Field.reportAll Bloom.Settings.fields⟩
instance : Given Bloom.Settings := ⟨settingsOf? Bloom.Settings.fields .standard .small⟩
instance : Reported MempoolSettings :=
  ⟨fun s => (Field.reportAll MempoolSettings.fields s).join (report s.filter)⟩

/-- The limits of a transfer pool. They stand among other fields, the policy of
the filter under a name of its own. -/
instance : Given MempoolSettings := ⟨fun d => do
  if d.get? "config" matches some (.text "default") then some .standard
  else
    let s ← Field.overrideAll? MempoolSettings.fields .small d
    some { s with filter := d.fieldOr "bloom" s.filter }⟩

/-- Gossip that is stepped by hand: it asks on request only, whoever is there,
and no limit is ever lifted. -/
def GossipSettings.manual : GossipSettings :=
  { brisk with pullEvery := 3600000, minPullGap := 0, pollSize := 10, throttlePeriod := 3600000 }

instance : Given GossipSettings := ⟨Field.overrideAll? GossipSettings.fields .manual⟩

/-- The settings of a node that is stepped by hand. -/
instance : Given NodeSettings := ⟨fun d => do
  let s := NodeSettings.small
  some { s with
    chainId := d.fieldOr "chain_id" s.chainId
    minGasPrice := d.fieldOr "min_gas_price" s.minGasPrice
    subnet := d.fieldOr "gate_subnet" s.subnet
    noncePool := d.fieldOr "pool_config" s.noncePool
    mempool := (← read? d)
    poolFilter := d.fieldOr "bloom" s.poolFilter
    gossip := d.fieldOr "config" .manual }⟩

instance : Reported NodeSettings := ⟨fun s => (Datum.row
  "devnet_nodes log_level json_logs chain_id subnet min_gas_price head_channel_capacity"
  [s.devnetNodes, s.logLevel, s.jsonLogs, s.chainId, s.subnet, s.minGasPrice, s.headCapacity]).join
    (.row "nonce_pool mempool pool_bloom_min gossip"
      [s.noncePool, s.mempool, s.poolFilter.minElements, s.gossip])⟩

/-- Settings by name: what a node uses, and what goes with small pools and short
times. -/
def settingsNamed? (name : String) : Option Datum :=
  match name with
  | "nonce_pool" => some NonceLimits.standard
  | "nonce_pool_testing" => some NonceLimits.small
  | "gossip" => some GossipSettings.standard
  | "gossip_testing" => some GossipSettings.brisk
  | "node" => some NodeSettings.standard
  | "node_testing" => some NodeSettings.small
  | "mempool" => some MempoolSettings.standard
  | "mempool_testing" => some MempoolSettings.small
  | "bloom" => some Bloom.Settings.standard
  | "bloom_testing" => some Bloom.Settings.small
  | "coordinator" => some (.row "head_channel_capacity" [NodeSettings.standard.headCapacity])
  | "coordinator_testing" => some (.row "head_channel_capacity" [NodeSettings.small.headCapacity])
  | "bus_capacity" => some Bus.standardCapacity
  | _ => none

end TxRelay
