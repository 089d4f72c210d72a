/-
Names of things: accounts, digests, nodes, signatures.

All of them are byte blocks of a fixed size. A node shows itself as `node-`
and the start of its id; accounts and digests show only the start of their
bytes. The orders are those of the byte strings, which is how peers, inputs
and owners are listed wherever an order shows.
-/
import TxRelay.Bytes
import TxRelay.Digest.Sha256

set_option autoImplicit false

namespace TxRelay

/-- An account. -/
abbrev Address := Vector UInt8 20

/-- A SHA-256 digest, or an opaque id of the same size. -/
abbrev Digest := Vector UInt8 32

/-- A node of the network. -/
abbrev NodeId := Vector UInt8 32

/-- A subnet, whose validators may ask for transactions. -/
abbrev SubnetId := Vector UInt8 32

/-- A signature; carried and hashed, never checked here. -/
abbrev Signature := Vector UInt8 64

/-- The salt that a filter was built under. -/
abbrev Salt := Vector UInt8 32

/-- Accounts are in the order of their bytes. -/
instance Address.transOrd : Std.TransOrd Address := Vector.instTransOrd

/-- Accounts that compare equal are equal. -/
instance Address.lawfulEqOrd : Std.LawfulEqOrd Address := inferInstanceAs (Std.LawfulEqOrd (Vector UInt8 20))

/-- Digests, and all ids of their size, are in the order of their bytes. -/
instance Digest.transOrd : Std.TransOrd Digest := Vector.instTransOrd

/-- Digests that compare equal are equal. -/
instance Digest.lawfulEqOrd : Std.LawfulEqOrd Digest := inferInstanceAs (Std.LawfulEqOrd (Vector UInt8 32))

/-- The start of a block, in hexadecimal (`short_hex`). -/
def shortId {n : Nat} (v : Vector UInt8 n) : String :=
  Bytes.shortHex v.toList

/-- How a node is named in messages to a human. -/
def NodeId.display (id : NodeId) : String :=
  "node-" ++ shortId id

/-- The digest of a byte string. -/
def Digest.of (preimage : Bytes) : Digest :=
  Sha256.hash preimage

end TxRelay
