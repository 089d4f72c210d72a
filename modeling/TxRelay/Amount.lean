/-
Amounts: natural numbers below 2^256, with arithmetic that stops at the ends.

Prices, values and balances are amounts. A sum or product that would not fit
becomes the largest amount, a difference that would be negative becomes zero,
so no operation ever wraps; the lemmas say so in natural numbers, where the
rest of the library reasons.
-/
set_option autoImplicit false

namespace TxRelay

/-- How many amounts there are: 2^256. -/
abbrev Amount.size : Nat :=
  115792089237316195423570985008687907853269984665640564039457584007913129639936

/-- A natural number below 2^256 (`U256`). -/
structure Amount where
  toNat : Nat
  isLt : toNat < Amount.size
deriving DecidableEq

namespace Amount

/-- The largest amount. -/
def max : Amount := ⟨size - 1, by decide⟩

/-- The amount closest to a natural number: the number itself if it fits. -/
def ofNat (n : Nat) : Amount :=
  if h : n < size then ⟨n, h⟩ else max

instance : OfNat Amount 0 := ⟨ofNat 0⟩

instance : Inhabited Amount := ⟨0⟩

instance : LT Amount := ⟨fun a b => a.toNat < b.toNat⟩

instance : LE Amount := ⟨fun a b => a.toNat ≤ b.toNat⟩

instance (a b : Amount) : Decidable (a < b) := inferInstanceAs (Decidable (a.toNat < b.toNat))

instance (a b : Amount) : Decidable (a ≤ b) := inferInstanceAs (Decidable (a.toNat ≤ b.toNat))

instance : Ord Amount := ⟨compareOn toNat⟩

instance : Std.TransOrd Amount := inferInstanceAs (Std.TransCmp (compareOn toNat))

/-- Sum, at most the largest amount. -/
def add (a b : Amount) : Amount := ofNat (a.toNat + b.toNat)

/-- Difference, at least zero. -/
def sub (a b : Amount) : Amount := ⟨a.toNat - b.toNat, by have := a.isLt; omega⟩

/-- Product, at most the largest amount. -/
def mul (a b : Amount) : Amount := ofNat (a.toNat * b.toNat)

/-- Quotient, rounded down; zero when dividing by zero. -/
def div (a : Amount) (d : Nat) : Amount :=
  ⟨a.toNat / d, Nat.lt_of_le_of_lt (Nat.div_le_self _ _) a.isLt⟩

/-- A 64-bit word as an amount. -/
def ofWord (w : UInt64) : Amount :=
  ⟨w.toNat, Nat.lt_trans w.toNat_lt (by decide)⟩

/-! ## Laws -/

@[ext] theorem ext {a b : Amount} (h : a.toNat = b.toNat) : a = b := by
  cases a; cases b; simp_all

instance : Std.LawfulEqOrd Amount where
  eq_of_compare {a b} h := by
    apply ext
    have : compare a.toNat b.toNat = .eq := h
    simpa using this

theorem toNat_ofNat (n : Nat) : (ofNat n).toNat = min n (size - 1) := by
  unfold ofNat
  split
  · simp only; omega
  · show size - 1 = _
    omega

theorem toNat_add (a b : Amount) : (a.add b).toNat = min (a.toNat + b.toNat) (size - 1) :=
  toNat_ofNat _

@[simp] theorem toNat_sub (a b : Amount) : (a.sub b).toNat = a.toNat - b.toNat := rfl

theorem toNat_mul (a b : Amount) : (a.mul b).toNat = min (a.toNat * b.toNat) (size - 1) :=
  toNat_ofNat _

@[simp] theorem toNat_div (a : Amount) (d : Nat) : (a.div d).toNat = a.toNat / d := rfl

@[simp] theorem toNat_ofWord (w : UInt64) : (ofWord w).toNat = w.toNat := rfl

theorem lt_iff {a b : Amount} : a < b ↔ a.toNat < b.toNat := Iff.rfl

theorem le_iff {a b : Amount} : a ≤ b ↔ a.toNat ≤ b.toNat := Iff.rfl

end Amount

end TxRelay
