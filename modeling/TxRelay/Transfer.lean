/-
Cross-chain transfers: funds that arrive from or leave for another chain.

A transfer consumes inputs, which are ids of outputs in the memory that two
chains share; an input can be consumed once. Its id is the SHA-256 of its
fields one after the other; the list of inputs is written without its length,
between fields of fixed size.
-/
import TxRelay.Identity

set_option autoImplicit false

namespace TxRelay

/-- The direction of a transfer, seen from this chain (`AtomicTxKind`). -/
inductive Direction where
  | inbound
  | outbound
deriving DecidableEq, Inhabited

/-- The byte that stands for the direction in a preimage. -/
def Direction.byte : Direction → UInt8
  | .inbound => 0
  | .outbound => 1

/-- A signed cross-chain transfer (`AtomicTransaction`). -/
structure Transfer where
  /-- Whether funds arrive or leave. -/
  direction : Direction
  /-- The chain that the funds come from. -/
  source : Digest
  /-- The chain that the funds go to. -/
  destination : Digest
  /-- The account on this chain. -/
  account : Address
  /-- The account's nonce; an outbound transfer moves it. -/
  nonce : UInt64
  amount : UInt64
  fee : UInt64
  /-- What is consumed in shared memory. -/
  inputs : List Digest
  signature : Signature
deriving DecidableEq, Inhabited

namespace Transfer

/-- The bytes that the id covers (`AtomicTransaction::id`). -/
def preimage (t : Transfer) : Bytes :=
  t.direction.byte :: (t.source.toList ++ t.destination.toList ++ t.account.toList ++
    Bytes.ofWord t.nonce ++ Bytes.ofWord t.amount ++ Bytes.ofWord t.fee ++
    t.inputs.flatMap Vector.toList ++ t.signature.toList)

/-- What the transfer is known by (`AtomicTransaction::id`). -/
def id (t : Transfer) : Digest :=
  Digest.of t.preimage

end Transfer

end TxRelay
