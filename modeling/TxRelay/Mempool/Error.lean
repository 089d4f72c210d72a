/-
Why a transfer is not let into the pool.

Three of the causes lie in the transfer itself, measured against the chain and
the pool: a verdict that would be the same again in a moment. These are
remembered, in words, so that a transfer which keeps being offered is refused
without another look.
-/
import TxRelay.Bloom.Error
import TxRelay.Identity

set_option autoImplicit false

namespace TxRelay

/-- Why a transfer is refused, or a pool is not built (`MempoolError`). -/
inductive MempoolError where
  | duplicate (id : Digest)
  /-- It was refused not long ago. -/
  | previouslyRejected (reason : String)
  /-- The execution layer refuses it. -/
  | invalid (reason : String)
  /-- The account is past its nonce. -/
  | nonceTooLow (next nonce : UInt64)
  /-- It spends what pooled transfers spend, and does not outbid them all. -/
  | conflict (rivals : List Digest)
  /-- The pool is full and the transfer is the first to go. -/
  | full
  /-- The filter is not built. -/
  | filter (e : Bloom.FilterError)

namespace MempoolError

/-- One word for the cause; what is wrong with a filter is a path of two. -/
def label : MempoolError → String
  | duplicate _ => "Duplicate"
  | previouslyRejected _ => "PreviouslyRejected"
  | invalid _ => "Validation"
  | nonceTooLow _ _ => "NonceTooLow"
  | conflict _ => "ConflictingInputs"
  | full => "PoolFull"
  | filter e => "Filter/" ++ e.label

/-- The error in words. -/
def message : MempoolError → String
  | duplicate id => "duplicate atomic transaction " ++ shortId id
  | previouslyRejected reason => "previously rejected: " ++ reason
  | invalid reason => "invalid atomic transaction: " ++ reason
  | nonceTooLow next nonce =>
    "nonce too low: next nonce " ++ toString next.toNat ++ ", tx nonce " ++ toString nonce.toNat
  | conflict rivals =>
    "conflicting inputs with " ++ toString rivals.length ++ " pooled transaction(s)"
  | full => "atomic mempool is full"
  | filter e => e.message

/-- Whether the error only says that the transfer is pooled already
(`MempoolError::is_duplicate`). -/
def isDuplicate : MempoolError → Bool
  | duplicate _ => true
  | _ => false

/-- Whether the verdict is worth remembering (`MempoolError::is_cacheable`). -/
def isMemorable : MempoolError → Bool
  | invalid _ => true
  | nonceTooLow _ _ => true
  | conflict _ => true
  | _ => false

end MempoolError

end TxRelay
