/-
MurmurHash3, the 128-bit variant on 64-bit words, reduced to its first half.

Filters need a fast hash with a seed, not a cryptographic one: two seeds give
two independent 64-bit values, and double hashing turns them into as many bit
positions as a filter asks for. The input is consumed in blocks of sixteen
bytes; the last, short block is mixed in without the usual stirring, and the
length goes in at the end.
-/
import TxRelay.Bytes

set_option autoImplicit false

namespace TxRelay.Murmur

/-- The two running words. -/
structure State where
  h1 : UInt64
  h2 : UInt64

/-- First multiplier. -/
def c1 : UInt64 := 0x87c37b91114253d5

/-- Second multiplier. -/
def c2 : UInt64 := 0x4cf5ad432745937f

/-- Rotation to the left, for `0 < n < 64`. -/
@[inline] def rotl (x n : UInt64) : UInt64 :=
  (x <<< n) ||| (x >>> (64 - n))

/-- A word of at most eight bytes, least significant first. -/
def word (b : Bytes) : UInt64 :=
  UInt64.ofNat (Bytes.toNatLE b)

/-- The first half of a block, ready to be mixed into the first word. -/
@[inline] def scrambleFirst (k : UInt64) : UInt64 :=
  rotl (k * c1) 31 * c2

/-- The second half of a block, ready to be mixed into the second word. -/
@[inline] def scrambleSecond (k : UInt64) : UInt64 :=
  rotl (k * c2) 33 * c1

/-- Mixes in a block of sixteen bytes. -/
def block (s : State) (b : Bytes) : State :=
  let h1 := (rotl (s.h1 ^^^ scrambleFirst (word (b.take 8))) 27 + s.h2) * 5 + 0x52dce729
  let h2 := (rotl (s.h2 ^^^ scrambleSecond (word (b.drop 8))) 31 + h1) * 5 + 0x38495ab5
  ⟨h1, h2⟩

/-- Mixes in the last bytes, fewer than sixteen. -/
def tail (s : State) (b : Bytes) : State :=
  ⟨s.h1 ^^^ scrambleFirst (word (b.take 8)), s.h2 ^^^ scrambleSecond (word (b.drop 8))⟩

/-- Mixes in the first `n` whole blocks, then what is left. -/
def absorb : Nat → State → Bytes → State
  | 0, s, b => tail s b
  | n + 1, s, b => absorb n (block s (b.take 16)) (b.drop 16)

/-- Spreads every bit of a word over all of it. -/
def finish (k : UInt64) : UInt64 :=
  let k := (k ^^^ (k >>> 33)) * 0xff51afd7ed558ccd
  let k := (k ^^^ (k >>> 33)) * 0xc4ceb9fe1a85ec53
  k ^^^ (k >>> 33)

/-- The first half of the seeded hash of a byte string (`murmur_hash`). -/
def hash (seed : UInt32) (b : Bytes) : UInt64 :=
  let n := b.length
  let s := absorb (n / 16) ⟨seed.toUInt64, seed.toUInt64⟩ b
  let h1 := s.h1 ^^^ UInt64.ofNat n
  let h2 := s.h2 ^^^ UInt64.ofNat n
  let h1 := h1 + h2
  let h2 := h2 + h1
  finish h1 + finish h2

end TxRelay.Murmur
