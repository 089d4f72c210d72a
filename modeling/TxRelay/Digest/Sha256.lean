/-
SHA-256 on byte strings.

Ids of transactions, transfers and block headers are SHA-256 digests of a byte
string that the owner of the id lays out (its preimage). The function is kept
as the standard describes it: pad to whole blocks of 64 bytes, expand each
block to 64 words, and mix the words into eight running words. Nothing else in
the library looks inside it; statements about ids are statements about
preimages.
-/
import TxRelay.Bytes

set_option autoImplicit false

namespace TxRelay.Sha256

/-! ## Words and constants -/

/-- The eight running words. -/
structure State where
  a : UInt32
  b : UInt32
  c : UInt32
  d : UInt32
  e : UInt32
  f : UInt32
  g : UInt32
  h : UInt32

/-- The running words before the first block. -/
def State.start : State :=
  ⟨0x6a09e667, 0xbb67ae85, 0x3c6ef372, 0xa54ff53a, 0x510e527f, 0x9b05688c, 0x1f83d9ab, 0x5be0cd19⟩

/-- The constant added in each of the 64 rounds. -/
def roundConstants : List UInt32 :=
  [0x428a2f98, 0x71374491, 0xb5c0fbcf, 0xe9b5dba5, 0x3956c25b, 0x59f111f1, 0x923f82a4, 0xab1c5ed5,
   0xd807aa98, 0x12835b01, 0x243185be, 0x550c7dc3, 0x72be5d74, 0x80deb1fe, 0x9bdc06a7, 0xc19bf174,
   0xe49b69c1, 0xefbe4786, 0x0fc19dc6, 0x240ca1cc, 0x2de92c6f, 0x4a7484aa, 0x5cb0a9dc, 0x76f988da,
   0x983e5152, 0xa831c66d, 0xb00327c8, 0xbf597fc7, 0xc6e00bf3, 0xd5a79147, 0x06ca6351, 0x14292967,
   0x27b70a85, 0x2e1b2138, 0x4d2c6dfc, 0x53380d13, 0x650a7354, 0x766a0abb, 0x81c2c92e, 0x92722c85,
   0xa2bfe8a1, 0xa81a664b, 0xc24b8b70, 0xc76c51a3, 0xd192e819, 0xd6990624, 0xf40e3585, 0x106aa070,
   0x19a4c116, 0x1e376c08, 0x2748774c, 0x34b0bcb5, 0x391c0cb3, 0x4ed8aa4a, 0x5b9cca4f, 0x682e6ff3,
   0x748f82ee, 0x78a5636f, 0x84c87814, 0x8cc70208, 0x90befffa, 0xa4506ceb, 0xbef9a3f7, 0xc67178f2]

/-- Rotation to the right, for `0 < n < 32`. -/
@[inline] def rotr (x n : UInt32) : UInt32 :=
  (x >>> n) ||| (x <<< (32 - n))

/-! ## One block -/

/-- The bytes as words of four bytes, most significant first; a remainder of
fewer than four bytes is left out. -/
def words : Bytes → List UInt32
  | a :: b :: c :: d :: rest =>
    ((a.toUInt32 <<< 24) ||| (b.toUInt32 <<< 16) ||| (c.toUInt32 <<< 8) ||| d.toUInt32) :: words rest
  | _ => []

/-- The next word of the schedule, from the words before it. -/
def nextWord (w : Array UInt32) : UInt32 :=
  let n := w.size
  let x := w.getD (n - 15) 0
  let y := w.getD (n - 2) 0
  let s0 := rotr x 7 ^^^ rotr x 18 ^^^ (x >>> 3)
  let s1 := rotr y 17 ^^^ rotr y 19 ^^^ (y >>> 10)
  w.getD (n - 16) 0 + s0 + w.getD (n - 7) 0 + s1

/-- The 64 words that a block of 16 words is expanded to. -/
def schedule (block : List UInt32) : List UInt32 :=
  ((List.range 48).foldl (fun w _ => w.push (nextWord w)) block.toArray).toList

/-- One round: the running words after mixing in a schedule word and the
round's constant. -/
def round (s : State) (wk : UInt32 × UInt32) : State :=
  let s1 := rotr s.e 6 ^^^ rotr s.e 11 ^^^ rotr s.e 25
  let choice := (s.e &&& s.f) ^^^ (~~~s.e &&& s.g)
  let t1 := s.h + s1 + choice + wk.2 + wk.1
  let s0 := rotr s.a 2 ^^^ rotr s.a 13 ^^^ rotr s.a 22
  let majority := (s.a &&& s.b) ^^^ (s.a &&& s.c) ^^^ (s.b &&& s.c)
  ⟨t1 + s0 + majority, s.a, s.b, s.c, s.d + t1, s.e, s.f, s.g⟩

/-- The running words after a block of 64 bytes. -/
def compress (s : State) (block : Bytes) : State :=
  let t := ((schedule (words block)).zip roundConstants).foldl round s
  ⟨s.a + t.a, s.b + t.b, s.c + t.c, s.d + t.d, s.e + t.e, s.f + t.f, s.g + t.g, s.h + t.h⟩

/-! ## The whole message -/

/-- The message followed by a one bit, zero bits up to eight bytes short of a
whole block, and its length in bits. -/
def pad (message : Bytes) : Bytes :=
  let n := message.length
  message ++ 0x80 :: (List.replicate ((119 - n % 64) % 64) 0 ++ Bytes.ofNatBE 8 (8 * n))

/-- Mixes in the first `n` blocks of the given bytes. -/
def absorb : Nat → State → Bytes → State
  | 0, s, _ => s
  | n + 1, s, b => absorb n (compress s (b.take 64)) (b.drop 64)

/-- The digest of a message. -/
def hash (message : Bytes) : Vector UInt8 32 :=
  let padded := pad message
  let s := absorb (padded.length / 64) State.start padded
  #v[s.a, s.b, s.c, s.d, s.e, s.f, s.g, s.h].flatMap fun w =>
    #v[(w >>> 24).toUInt8, (w >>> 16).toUInt8, (w >>> 8).toUInt8, w.toUInt8]

end TxRelay.Sha256
