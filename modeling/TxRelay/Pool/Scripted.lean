/-
A sub-pool that answers from a script.

It takes what it is given, looks at nothing and announces nothing. What it
refuses, and what it answers to most queries, is written down beforehand. With
such sub-pools one can see what a coordinator does when a sub-pool does not
start, does not stop, breaks off a reset or keeps silent on a batch.
-/
import TxRelay.Pool.SubPool

set_option autoImplicit false

namespace TxRelay

/-- A sub-pool with its script. -/
structure ScriptedPool where
  name : String
  /-- Which kinds of transaction are its own. -/
  kinds : List TxKind
  /-- Why it does not take a seat, if it does not. -/
  attachError : Option PoolError
  /-- Why it reports a failure when it leaves its seat, if it does. -/
  detachError : Option PoolError
  /-- Whether it breaks off every reset. -/
  breaksOff : Bool
  /-- Whether it drops every batch and gives no outcome. -/
  silent : Bool
  /-- What it answers about the nonce of an account. -/
  nonce : UInt64
  /-- What it answers about the place of a transaction. -/
  status : TxStatus
  /-- Whose transactions it says came in through this node's own interface. -/
  locals : List Address
  /-- What it was given, oldest first. -/
  held : List Transaction

namespace ScriptedPool

/-- An outcome from a script. -/
def outcome : Option PoolError → Outcome
  | none => .ok ()
  | some e => .error e

/-- Takes in a batch. -/
def add (p : ScriptedPool) (txs : List Transaction) : ScriptedPool × List Outcome :=
  if p.silent then (p, []) else ({ p with held := p.held ++ txs }, txs.map fun _ => .ok ())

instance : SubPool ScriptedPool where
  name := name
  claims p tx := p.kinds.contains tx.kind
  attach p _ _ := (p, outcome p.attachError)
  detach p c := (p, c, outcome p.detachError)
  reset p _ c _ _ := if p.breaksOff then none else some (p, c)
  add p _ c txs _ _ :=
    let (p, outcomes) := p.add txs
    (p, c, outcomes)
  get? p hash := p.held.find? fun tx => tx.hash == hash
  hasLocal _ _ := false
  status p _ _ := p.status
  pending _ _ _ := ∅
  content _ _ := .empty
  contentOf p _ _ := ⟨[], p.held⟩
  executable p _ := p.held.reverse
  nonce p _ _ := p.nonce
  stats p _ := ⟨p.held.length, 1⟩
  locals := locals

end ScriptedPool

end TxRelay
