/-
Bloom filters: sets of byte strings that may answer "perhaps" but never forget.

An element under a salt has a fixed number of positions in an array of bits.
Inserting it sets them; an element is reported present when all its positions
are set. The salt is not part of the filter: whoever sends a filter sends the
salt along, and a filter that was received is only meaningful under that salt.

A filter is written as its bytes, its length in bits, the number of positions,
the declared size and the number of insertions. Reading one from a stranger
accepts only what is safe to query: a bounded number of bytes, between one and
32 positions, and a declared size that is the number of bits carried.
-/
import TxRelay.Bloom.Bits
import TxRelay.Bloom.Error
import TxRelay.Bloom.Sizing
import TxRelay.Digest.Murmur
import TxRelay.Wire.Layout

set_option autoImplicit false

namespace TxRelay.Bloom

/-! ## Positions -/

/-- The hash of an element under a salt (`murmur_hash`). -/
def saltedHash (element salt : Bytes) (seed : UInt32) : UInt64 :=
  Murmur.hash seed (element ++ salt)

/-- The positions of an element under a salt, `k` of them among `m`: the first
hash plus multiples of the second (`compute_hash_positions`). -/
def positions (element salt : Bytes) (k m : Nat) : List Nat :=
  if m = 0 then []
  else
    let h1 := saltedHash element salt 0
    let h2 := saltedHash element salt 1
    (List.range k).map fun i => (h1 + UInt64.ofNat i * h2).toNat % m

/-! ## Filters -/

/-- A bloom filter (`BloomFilter`). -/
structure BloomFilter where
  bits : Bits
  /-- How many positions an element has. -/
  k : Nat
  /-- The declared number of bits. -/
  m : Nat
  /-- How many insertions there were. -/
  n : Nat
deriving DecidableEq

namespace BloomFilter

/-- An empty filter of `m` bits and `k` positions; at least one bit, and between
one and 32 positions (`BloomFilter::new`). -/
def new (m k : Nat) : BloomFilter where
  bits := Bits.zeros (max 1 m)
  k := min maxHashCount (max 1 k)
  m := max 1 m
  n := 0

/-- An empty filter for a number of elements at a rate of false positives
(`BloomFilter::new_with_fpr`). -/
def sized (elements : Nat) (rate : Float) : BloomFilter :=
  let s := Sizing.optimal elements rate
  new s.bits s.hashes

/-- The filter with an element inserted (`BloomFilter::insert`). -/
def insert (f : BloomFilter) (element salt : Bytes) : BloomFilter :=
  { f with bits := (positions element salt f.k f.m).foldl Bits.set f.bits, n := f.n + 1 }

/-- Whether an element may have been inserted (`BloomFilter::contains`). -/
def contains (f : BloomFilter) (element salt : Bytes) : Bool :=
  (positions element salt f.k f.m).all f.bits.get

/-- The filter without its elements (`BloomFilter::clear`). -/
def clear (f : BloomFilter) : BloomFilter :=
  { f with bits := f.bits.clear, n := 0 }

/-- The current rate of false positives (`BloomFilter::false_positive_rate`). -/
def rate (f : BloomFilter) : Float := Sizing.rateAfter f.m f.n f.k

/-! ## Bytes -/

/-- The bytes of a filter (`BloomFilter::to_bytes`). -/
def toBytes (f : BloomFilter) : Bytes :=
  Wire.writeBytes f.bits.bytes.toList ++ Wire.writeLength f.bits.length ++ Wire.writeLength f.k ++
    Wire.writeLength f.m ++ Wire.writeLength f.n

/-- Takes a filter off the front of the bytes, without looking at its shape. -/
def read : Wire.Reader BloomFilter := do
  let bytes ← Wire.Reader.bytes
  let length ← Wire.Reader.length
  let k ← Wire.Reader.length
  let m ← Wire.Reader.length
  let n ← Wire.Reader.length
  pure { bits := Bits.ofBytes length bytes, k, m, n }

/-- **A filter from a stranger** (`BloomFilter::parse`). At most `max` bytes are
looked at; what follows the filter is ignored. -/
def parse (b : Bytes) (max : Nat) : Except FilterError BloomFilter :=
  if max < b.length then .error (.tooLarge b.length max)
  else
    match read b with
    | .error fault => .error (.unreadable fault.message)
    | .ok (f, _) =>
      if f.k = 0 ∨ maxHashCount < f.k then
        .error (.invalidParameters
          ("hash count " ++ toString f.k ++ " outside 1..=" ++ toString maxHashCount))
      else if f.m = 0 ∨ f.bits.length ≠ f.m then
        .error (.invalidParameters
          ("declared " ++ toString f.m ++ " bits, carried " ++ toString f.bits.length))
      else .ok f

end BloomFilter

end TxRelay.Bloom
