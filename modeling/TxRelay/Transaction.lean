/-
Ordinary transactions: value transfers and contract calls of one account.

A transaction is known by its digest, the SHA-256 of its preimage: the fields
one after the other, integers least significant byte first, amounts in 32
bytes most significant first, the recipient only if there is one. What it may
cost its sender is the value plus price times gas, stopping at the largest
amount.
-/
import TxRelay.Amount
import TxRelay.Identity

set_option autoImplicit false

namespace TxRelay

/-- The envelope of a transaction (`TxType`). Sub-pools claim transactions by
it. -/
inductive TxKind where
  | legacy
  | dynamicFee
  | blob
deriving DecidableEq, Inhabited

/-- The byte that stands for the envelope in a preimage. -/
def TxKind.byte : TxKind → UInt8
  | .legacy => 0
  | .dynamicFee => 2
  | .blob => 3

/-- A signed ordinary transaction (`EthTransaction`). -/
structure Transaction where
  kind : TxKind
  /-- The chain that it is bound to. -/
  chainId : UInt64
  sender : Address
  /-- The account that is paid or called; none creates a contract. -/
  recipient : Option Address
  value : Amount
  /-- Its place among the sender's transactions. -/
  nonce : UInt64
  /-- What is paid for a unit of gas. -/
  gasPrice : Amount
  /-- How much gas may be used. -/
  gasLimit : UInt64
  data : Bytes
  signature : Signature
deriving DecidableEq, Inhabited

namespace Transaction

/-- The bytes that the digest covers (`EthTransaction::hash`). -/
def preimage (t : Transaction) : Bytes :=
  t.kind.byte :: (Bytes.ofWord t.chainId ++ t.sender.toList ++
    (t.recipient.map Vector.toList).getD [] ++ Bytes.ofNatBE 32 t.value.toNat ++
    Bytes.ofWord t.nonce ++ Bytes.ofNatBE 32 t.gasPrice.toNat ++ Bytes.ofWord t.gasLimit ++
    t.data ++ t.signature.toList)

/-- What the transaction is known by (`EthTransaction::hash`). -/
def hash (t : Transaction) : Digest :=
  Digest.of t.preimage

/-- The most that the sender can be charged (`EthTransaction::total_cost`). -/
def cost (t : Transaction) : Amount :=
  t.value.add (t.gasPrice.mul (Amount.ofWord t.gasLimit))

end Transaction

end TxRelay
