/-
Sub-pools and validators as they are given: by name and kinds, or with a
script.
-/
import TxRelay.Datum.Settings
import TxRelay.Datum.Status
import TxRelay.Pool.Either
import TxRelay.Pool.Scripted

set_option autoImplicit false

namespace TxRelay

/-- The failure that a script tells a sub-pool to report when it is given its
seat. -/
def scriptedAttachError (reason : String) : PoolError :=
  if reason == "init_failed" then .attachFailed "inner" "own" else .internal reason

/-- A script: what it does not say is harmless. -/
instance : Given ScriptedPool := ⟨fun d => do
  let name : String ← d.fieldOrBlank? "name"
  let fails := d.fieldOr "fail_close" false
  some {
    name
    kinds := d.fieldOr "types" []
    attachError := (d.fieldOr "fail_init" none).map scriptedAttachError
    detachError := if fails then some (.internal (name ++ " stuck")) else none
    breaksOff := d.fieldOr "panic_reset" false
    silent := d.fieldOr "short" false
    nonce := d.fieldOr "nonce" 0
    status := d.fieldOr "status" .unknown
    locals := d.fieldOr "locals" []
    held := [] }⟩

/-- A sub-pool, with a script or without. Limits that are not given are the
ones at hand. -/
def subPoolOf? (limits : NonceLimits) (d : Datum) : Option (NoncePool ⊕ ScriptedPool) := do
  if d.fieldOr "mock" false then .inr <$> read? d
  else
    let pool := NoncePool.ofKinds (← d.fieldOrBlank? "name") (d.fieldOr "config" limits)
    some (.inl (pool (← d.fieldOrBlank? "types")))

/-- A register of validators on a subnet. -/
instance : Given ValidatorRegister := ⟨fun d =>
  let weights : List (NodeId × UInt64) := d.fieldOr "validators" []
  let register := ValidatorRegister.new (d.fieldOr "subnet" (Vector.replicate 32 0))
  some (weights.foldl (fun r w => r.setWeight w.1 w.2) register)⟩

end TxRelay
