/-
Arrays of bits, packed eight to a byte, lowest bit first.

An array has a length in bits and just enough bytes to hold it. The bits of
the last byte that lie beyond the length are no part of the array: no
operation reads or changes them. They are kept all the same, because an array
that was received is passed on byte for byte.
-/
import TxRelay.Bytes

set_option autoImplicit false

namespace TxRelay.Bloom

/-- How many bytes hold `n` bits. -/
def byteCount (n : Nat) : Nat := (n + 7) / 8

/-- An array of bits. -/
structure Bits where
  /-- How many bits there are. -/
  length : Nat
  /-- The bytes that hold them. -/
  bytes : Array UInt8
  /-- There are just enough bytes. -/
  size_eq : bytes.size = byteCount length
deriving DecidableEq

namespace Bits

/-- Bit `i` of a byte. -/
def bitOf (b : UInt8) (i : Nat) : Bool := b.toNat.testBit i

/-- The byte with bit `i` set. -/
def withBit (b : UInt8) (i : Nat) : UInt8 := UInt8.ofNat (b.toNat ||| 1 <<< i)

/-- `n` bits, all zero. -/
def zeros (n : Nat) : Bits where
  length := n
  bytes := Array.replicate (byteCount n) 0
  size_eq := by simp

/-- Bit `i`; there is none beyond the length. -/
def get (b : Bits) (i : Nat) : Bool :=
  decide (i < b.length) && bitOf (b.bytes.getD (i / 8) 0) (i % 8)

/-- The array with bit `i` set. -/
def set (b : Bits) (i : Nat) : Bits where
  length := b.length
  bytes := if i < b.length then b.bytes.modify (i / 8) (withBit · (i % 8)) else b.bytes
  size_eq := by split <;> simp [b.size_eq]

/-- How many bits are set. -/
def count (b : Bits) : Nat := (List.range b.length).countP b.get

/-- The byte without its lowest `n` bits. -/
def dropLow (b : UInt8) (n : Nat) : UInt8 := UInt8.ofNat (b.toNat >>> n <<< n)

/-- All bits zero; what lies beyond the length stays. -/
def clear (b : Bits) : Bits where
  length := b.length
  bytes := b.bytes.mapIdx fun i x => dropLow x (min 8 (b.length - 8 * i))
  size_eq := by simp [b.size_eq]

/-- The first `n` bits held by the given bytes, or all of them if there are
fewer. -/
def ofBytes (n : Nat) (bytes : Bytes) : Bits where
  length := min n (8 * bytes.length)
  bytes := (bytes.take (byteCount (min n (8 * bytes.length)))).toArray
  size_eq := by simp [byteCount]; omega

end Bits

end TxRelay.Bloom
