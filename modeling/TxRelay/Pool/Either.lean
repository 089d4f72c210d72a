/-
Sub-pools of two kinds as sub-pools of one kind, so that one coordinator can
have both. Each call is answered by the sub-pool that is there.
-/
import TxRelay.Pool.SubPool

set_option autoImplicit false

namespace TxRelay

section
variable {σ τ : Type} [SubPool σ] [SubPool τ]

instance : SubPool (σ ⊕ τ) where
  name
    | .inl p => SubPool.name p
    | .inr p => SubPool.name p
  claims
    | .inl p => SubPool.claims p
    | .inr p => SubPool.claims p
  attach s seat head := match s with
    | .inl p => (SubPool.attach p seat head).map .inl id
    | .inr p => (SubPool.attach p seat head).map .inr id
  detach s c := match s with
    | .inl p => (SubPool.detach p c).map .inl id
    | .inr p => (SubPool.detach p c).map .inr id
  reset s b c old new := match s with
    | .inl p => (SubPool.reset p b c old new).map (Prod.map .inl id)
    | .inr p => (SubPool.reset p b c old new).map (Prod.map .inr id)
  add s b c txs isLocal sync := match s with
    | .inl p => (SubPool.add p b c txs isLocal sync).map .inl id
    | .inr p => (SubPool.add p b c txs isLocal sync).map .inr id
  get?
    | .inl p => SubPool.get? p
    | .inr p => SubPool.get? p
  hasLocal
    | .inl p => SubPool.hasLocal p
    | .inr p => SubPool.hasLocal p
  status
    | .inl p => SubPool.status p
    | .inr p => SubPool.status p
  pending
    | .inl p => SubPool.pending p
    | .inr p => SubPool.pending p
  content
    | .inl p => SubPool.content p
    | .inr p => SubPool.content p
  contentOf
    | .inl p => SubPool.contentOf p
    | .inr p => SubPool.contentOf p
  executable
    | .inl p => SubPool.executable p
    | .inr p => SubPool.executable p
  nonce
    | .inl p => SubPool.nonce p
    | .inr p => SubPool.nonce p
  stats
    | .inl p => SubPool.stats p
    | .inr p => SubPool.stats p
  locals
    | .inl p => SubPool.locals p
    | .inr p => SubPool.locals p

end

end TxRelay
