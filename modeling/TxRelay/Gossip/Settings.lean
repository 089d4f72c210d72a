/-
How a gossip protocol is run. Times are in milliseconds.
-/
set_option autoImplicit false

namespace TxRelay

/-- The settings of one protocol (`GossipConfig`). -/
structure GossipSettings where
  /-- Time between two pull cycles. -/
  pullEvery : Nat
  /-- Pull cycles closer to the one before are skipped. -/
  minPullGap : Nat
  /-- Time between two pushes. -/
  pushEvery : Nat
  /-- How many peers a cycle asks. -/
  pollSize : Nat
  /-- How long an answer may take. -/
  requestTimeout : Nat
  /-- A message is closed once its items have this many bytes. -/
  targetBytes : Nat
  /-- Length of the window in which a peer's requests are counted. -/
  throttlePeriod : Nat
  /-- How many requests of a peer fit into the window. -/
  throttleLimit : Nat
  /-- The largest filter that is accepted from a peer. -/
  maxFilterBytes : Nat
  /-- How many pushed ids are remembered. -/
  pushedMemory : Nat
  /-- Whether a node that is no validator asks nobody. -/
  onlyAsValidator : Bool
deriving DecidableEq, Inhabited

namespace GossipSettings

/-- What a node uses (`GossipConfig::default`). -/
def standard : GossipSettings where
  pullEvery := 1000
  minPullGap := 500
  pushEvery := 100
  pollSize := 1
  requestTimeout := 5000
  targetBytes := 20 * 1024
  throttlePeriod := 10000
  throttleLimit := 2
  maxFilterBytes := 256 * 1024
  pushedMemory := 4096
  onlyAsValidator := true

/-- Short times and a generous throttle (`GossipConfig::for_testing`). -/
def brisk : GossipSettings :=
  { standard with
    pullEvery := 50, minPullGap := 10, pushEvery := 10, requestTimeout := 200
    throttleLimit := 100 }

end GossipSettings

end TxRelay
