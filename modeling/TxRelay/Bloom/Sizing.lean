/-
How large a filter has to be.

For a number of elements and a rate of false positives there is a best number
of bits and of hash positions; for a given filter there is a rate after so
many insertions, and a number of insertions after which a rate is reached. The
four are floating-point formulas, rounded to counts at the end: a count is at
most 2^64 - 1, and what is no number counts as zero.
-/
set_option autoImplicit false

namespace TxRelay.Bloom

/-- The most hash positions that a filter may use. -/
def maxHashCount : Nat := 32

/-- A filter's dimensions (`BloomFilterParams`). -/
structure Sizing where
  bits : Nat
  /-- Number of hash positions of an element. -/
  hashes : Nat
  /-- Rate of false positives once the filter is full. -/
  rate : Float

namespace Sizing

/-- The natural logarithm of two. -/
def ln2 : Float := 0.693147180559945309417232121458

/-- A count as a float. -/
def real (n : Nat) : Float := Float.ofNat n

/-- A float as a count. -/
def count (x : Float) : Nat := x.toUInt64.toNat

/-- Multiplies `r` by `a ^ e`, by repeated squaring; `fuel` bounds the number of
binary digits of `e`. -/
def powerLoop : Nat → Float → Float → Nat → Float
  | 0, r, _, _ => r
  | fuel + 1, r, a, e =>
    let r := if e % 2 == 1 then r * a else r
    if e / 2 == 0 then r else powerLoop fuel r (a * a) (e / 2)

/-- A power with a whole exponent, taken as a signed 32-bit number. -/
def power (x : Float) (e : Nat) : Float :=
  let low := e % UInt32.size
  if low < UInt32.size / 2 then powerLoop 32 1 x low
  else 1 / powerLoop 32 1 x (UInt32.size - low)

/-- The rate of false positives of `m` bits and `k` positions after `n`
insertions (`calculate_fpr`). -/
def rateAfter (m n k : Nat) : Float :=
  if m = 0 then 1
  else power (1 - Float.exp (-real k * real n / real m)) k

/-- The best dimensions for `n` elements at a rate of false positives
(`calculate_optimal_parameters`). -/
def optimal (n : Nat) (rate : Float) : Sizing :=
  if n = 0 then ⟨1, 1, 1⟩
  else
    let m := max 1 (count (-real n * Float.log rate / (ln2 * ln2)).ceil)
    let k := min maxHashCount (max 1 (count (real m / real n * ln2).round))
    ⟨m, k, rateAfter m n k⟩

/-- How many insertions it takes until `m` bits and `k` positions reach a rate
(`estimate_count`). -/
def capacity (m k : Nat) (rate : Float) : Nat :=
  if m = 0 || k = 0 || rate ≤ 0 then 0
  else if 1 ≤ rate then UInt64.size - 1
  else count (-real m / real k * Float.log (1 - Float.pow rate (1 / real k))).floor

end Sizing

end TxRelay.Bloom
