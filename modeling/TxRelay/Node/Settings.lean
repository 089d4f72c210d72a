/-
The settings of a node, and how the environment overrides them.

Each setting that can be overridden has a variable. A variable that is set to
something unusable is an error that names the variable, quotes its value and
says what is wrong with it. The limits of the transfer pool are looked at as a
whole in the end.
-/
import TxRelay.Gossip.Settings
import TxRelay.Mempool
import TxRelay.Pool.NoncePool
import TxRelay.Text.Numeral
import TxRelay.Text.Quoted

set_option autoImplicit false

namespace TxRelay

/-- The settings of a node (`NodeConfig`). -/
structure NodeSettings where
  /-- How many nodes a development network has. -/
  devnetNodes : Nat
  /-- What is logged. -/
  logLevel : String
  /-- Whether logs are written as JSON. -/
  jsonLogs : Bool
  /-- The chain that transactions have to be bound to. -/
  chainId : UInt64
  /-- The subnet whose validators may ask. -/
  subnet : SubnetId
  /-- The least price of a unit of gas. -/
  minGasPrice : UInt64
  /-- How many heads may wait for the reset loop. -/
  headCapacity : Nat
  /-- The limits of each sub-pool. -/
  noncePool : NonceLimits
  /-- The limits of the transfer pool. -/
  mempool : MempoolSettings
  /-- How the filter over the ordinary transactions is sized. -/
  poolFilter : Bloom.Settings
  gossip : GossipSettings

/-- Why a variable cannot be used (`ConfigError`). -/
structure SettingsError where
  variableName : String
  value : String
  reason : String
deriving DecidableEq

/-- The error in words. -/
def SettingsError.message (e : SettingsError) : String :=
  "invalid " ++ e.variableName ++ "=" ++ Text.quoted e.value ++ ": " ++ e.reason

namespace NodeSettings

/-- What a node uses (`NodeConfig::default`). -/
def standard : NodeSettings where
  devnetNodes := 4
  logLevel := "info"
  jsonLogs := false
  chainId := 43114
  subnet := Vector.replicate 32 0
  minGasPrice := 1
  headCapacity := 10
  noncePool := .standard
  mempool := .standard
  poolFilter := .standard
  gossip := .standard

/-- Small pools and short times (`NodeConfig::for_testing`). -/
def small : NodeSettings :=
  { standard with
    devnetNodes := 2, headCapacity := 16, noncePool := .small, mempool := .small
    poolFilter := .small, gossip := .brisk }

/-- The value of a variable that holds a count. -/
def countOf (variableName value : String) : Except SettingsError Nat :=
  match Text.readCount value with
  | .ok n => .ok n
  | .error e => .error ⟨variableName, value, e.message⟩

/-- Whether a text switches something on. -/
def isYes (value : String) : Bool :=
  ["1", "true", "yes"].contains (String.ofList (value.toList.map Char.toLower))

/-- Overrides the number of nodes. -/
def withDevnetNodes (s : NodeSettings) (value : String) : Except SettingsError NodeSettings := do
  let n ← countOf "QC_DEVNET_NODES" value
  if n = 0 then .error ⟨"QC_DEVNET_NODES", value, "at least one node is required"⟩
  else .ok { s with devnetNodes := n }

/-- Overrides the time between pull cycles. -/
def withPullFrequency (s : NodeSettings) (value : String) : Except SettingsError NodeSettings := do
  let n ← countOf "QC_PULL_FREQUENCY_MS" value
  .ok { s with gossip := { s.gossip with pullEvery := max 1 n } }

/-- Overrides the size of the transfer pool. -/
def withMempoolSize (s : NodeSettings) (value : String) : Except SettingsError NodeSettings := do
  let n ← countOf "QC_MEMPOOL_SIZE" value
  .ok { s with mempool := { s.mempool with maxSize := n } }

/-- Refuses settings that make no transfer pool. -/
def checked (s : NodeSettings) : Except SettingsError NodeSettings :=
  match s.mempool.validate with
  | .ok () => .ok s
  | .error e => .error ⟨"QC_MEMPOOL_SIZE", toString s.mempool.maxSize, e.message⟩

/-- Applies a variable, if it is set. -/
def override (lookup : String → Option String) (variableName : String)
    (f : NodeSettings → String → Except SettingsError NodeSettings) (s : NodeSettings) :
    Except SettingsError NodeSettings :=
  match lookup variableName with
  | some value => f s value
  | none => .ok s

/-- **The settings under an environment** (`NodeConfig::from_lookup`). -/
def fromEnvironment (lookup : String → Option String) : Except SettingsError NodeSettings := do
  let s ← override lookup "QC_DEVNET_NODES" withDevnetNodes standard
  let s ← override lookup "QC_LOG_LEVEL" (fun s value => .ok { s with logLevel := value }) s
  let s ← override lookup "QC_JSON_LOGS" (fun s value => .ok { s with jsonLogs := isYes value }) s
  let s ← override lookup "QC_PULL_FREQUENCY_MS" withPullFrequency s
  let s ← override lookup "QC_MEMPOOL_SIZE" withMempoolSize s
  s.checked

end NodeSettings

end TxRelay
