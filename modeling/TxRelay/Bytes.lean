/-
Byte strings and the two fixed-width ways of writing a number in them.

Everything that is hashed, sent or filtered is a list of bytes. A number is
written in a stated number of bytes, least significant byte first on the wire
and most significant byte first for 256-bit amounts inside a digest. The width
is part of the call, so a reader never needs to know the value to know how
many bytes it takes; the lemmas below say that the width is exact and that a
value that fits comes back.
-/
set_option autoImplicit false

namespace TxRelay

/-- A string of bytes. -/
abbrev Bytes := List UInt8

namespace Bytes

/-! ## Hexadecimal text -/

/-- The lower-case digit of a value below sixteen. -/
def hexDigit (n : Nat) : Char :=
  if n < 10 then Char.ofNat (48 + n) else Char.ofNat (87 + n)

/-- **Hexadecimal text**, two lower-case digits for each byte. -/
def toHex (b : Bytes) : String :=
  String.ofList (b.flatMap fun x => [hexDigit (x.toNat / 16), hexDigit (x.toNat % 16)])

/-- The first six bytes in hexadecimal: enough to tell ids apart in a message
to a human, short enough to read. -/
def shortHex (b : Bytes) : String :=
  toHex (b.take 6)

/-! ## Numbers in bytes -/

/-- The lowest `width` bytes of a number, least significant first. -/
def ofNatLE : Nat → Nat → Bytes
  | 0, _ => []
  | width + 1, v => UInt8.ofNat v :: ofNatLE width (v / 256)

/-- The number whose bytes, least significant first, are given. -/
def toNatLE : Bytes → Nat
  | [] => 0
  | b :: rest => b.toNat + 256 * toNatLE rest

/-- The lowest `width` bytes of a number, most significant first. -/
def ofNatBE (width v : Nat) : Bytes :=
  (ofNatLE width v).reverse

/-- A 64-bit word as eight bytes, least significant first. -/
def ofWord (v : UInt64) : Bytes :=
  ofNatLE 8 v.toNat

@[simp] theorem length_ofNatLE (width v : Nat) : (ofNatLE width v).length = width := by
  induction width generalizing v with
  | zero => rfl
  | succ w ih => simp [ofNatLE, ih]

@[simp] theorem length_ofNatBE (width v : Nat) : (ofNatBE width v).length = width := by
  simp [ofNatBE]

@[simp] theorem length_ofWord (v : UInt64) : (ofWord v).length = 8 := by
  simp [ofWord]

/-- A value that fits in the width comes back. -/
theorem toNatLE_ofNatLE {width v : Nat} (h : v < Nat.pow 256 width) :
    toNatLE (ofNatLE width v) = v := by
  induction width generalizing v with
  | zero => simp_all [ofNatLE, toNatLE]
  | succ w ih =>
    have h' : v < Nat.pow 256 w * 256 := h
    have hv : v / 256 < Nat.pow 256 w := Nat.div_lt_of_lt_mul (by omega)
    simp only [ofNatLE, toNatLE, ih hv, UInt8.toNat_ofNat']
    omega

/-- Bytes come back from the number they spell. -/
theorem ofNatLE_toNatLE (b : Bytes) : ofNatLE b.length (toNatLE b) = b := by
  induction b with
  | nil => rfl
  | cons x rest ih =>
    have hx : x.toNat < 256 := x.toNat_lt
    have hdiv : (x.toNat + 256 * toNatLE rest) / 256 = toNatLE rest := by omega
    have hmod : UInt8.ofNat (x.toNat + 256 * toNatLE rest) = x := by
      apply UInt8.toNat_inj.mp
      rw [UInt8.toNat_ofNat']
      omega
    simp [ofNatLE, toNatLE, hdiv, hmod, ih]

/-- A byte string of a given length spells a number below 256 to that power. -/
theorem toNatLE_lt (b : Bytes) : toNatLE b < Nat.pow 256 b.length := by
  induction b with
  | nil => simp [toNatLE]
  | cons x rest ih =>
    have hx : x.toNat < 256 := x.toNat_lt
    show x.toNat + 256 * toNatLE rest < Nat.pow 256 rest.length * 256
    omega

/-! ## Fixed sizes -/

/-- The bytes as a block of exactly `n`, if there are exactly `n`. -/
def toBlock? (n : Nat) (b : Bytes) : Option (Vector UInt8 n) :=
  if h : b.length = n then some ⟨b.toArray, by simpa using h⟩ else none

/-- A block read from its own bytes is that block. -/
@[simp] theorem toBlock?_toList {n : Nat} (v : Vector UInt8 n) : toBlock? n v.toList = some v := by
  have h : v.toList.length = n := by simp
  simp only [toBlock?, h, dif_pos]
  congr 1

end Bytes

end TxRelay
