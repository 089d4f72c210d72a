/-
Block headers, as far as a pool needs them to follow the chain.

A header names its parent by digest, and its own digest covers the parent, the
height, the time and a salt, so two blocks at one height are told apart.
-/
import TxRelay.Identity

set_option autoImplicit false

namespace TxRelay

/-- The head of a chain (`ChainHeader`). -/
structure Header where
  number : UInt64
  hash : Digest
  /-- Digest of the block before it. -/
  parent : Digest
  /-- Seconds since the epoch. -/
  timestamp : UInt64
deriving DecidableEq, Inhabited

namespace Header

/-- The block at height zero (`ChainHeader::genesis`). -/
def genesis : Header where
  number := 0
  hash := Digest.of "genesis".toUTF8.toList
  parent := Vector.replicate 32 0
  timestamp := 0

/-- The block after `h` with a given time; the salt separates siblings
(`ChainHeader::child`). -/
def child (h : Header) (timestamp salt : UInt64) : Header where
  number := h.number + 1
  hash := Digest.of
    (h.hash.toList ++ Bytes.ofWord (h.number + 1) ++ Bytes.ofWord timestamp ++ Bytes.ofWord salt)
  parent := h.hash
  timestamp := timestamp

end Header

end TxRelay
