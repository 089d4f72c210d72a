/-
Decimal text of a binary floating-point number, exact in every digit.

Two forms are used. The scientific form has a fixed number of decimals and is
the value rounded to that many, a half going to the even neighbour. The
shortest form has as few digits as will read back to the same number, of those
the nearest to it, a half going up, and is always written out in full without
an exponent.

Both work on the exact value, a mantissa times a power of two, as a quotient
of natural numbers; no floating-point operation takes part.
-/
set_option autoImplicit false

namespace TxRelay.Decimal

/-! ## The value of a float -/

/-- What a float stands for. -/
inductive Value where
  /-- No number. -/
  | nan
  /-- An infinity, negative or not. -/
  | infinite (negative : Bool)
  /-- `mantissa * 2 ^ exponent`, negative or not. -/
  | finite (negative : Bool) (mantissa : Nat) (exponent : Int)

/-- The least mantissa of a float that is not near zero. -/
def leastMantissa : Nat := 1 <<< 52

/-- Reads sign, mantissa and exponent off the bits. -/
def Value.ofFloat (x : Float) : Value :=
  let bits : Nat := x.toBits.toNat
  let negative := bits.testBit 63
  let e : Nat := bits / leastMantissa % 2048
  let f : Nat := bits % leastMantissa
  if e == 2047 then
    if f == 0 then .infinite negative else .nan
  else if e == 0 then .finite negative f (-1074)
  else .finite negative (f + leastMantissa) (Int.ofNat e - 1075)

/-- A non-negative quotient of natural numbers. -/
structure Ratio where
  num : Nat
  den : Nat

/-- `m * 2 ^ q`. -/
def Ratio.binary (m : Nat) (q : Int) : Ratio :=
  if q < 0 then ⟨m, 1 <<< (-q).toNat⟩ else ⟨m <<< q.toNat, 1⟩

/-- `r * 10 ^ e`. -/
def Ratio.shift (r : Ratio) (e : Int) : Ratio :=
  if e < 0 then ⟨r.num, r.den * Nat.pow 10 (-e).toNat⟩ else ⟨r.num * Nat.pow 10 e.toNat, r.den⟩

/-- Whether one quotient is at most another. -/
def Ratio.le (a b : Ratio) : Bool := a.num * b.den ≤ b.num * a.den

/-- Whether one quotient is below another. -/
def Ratio.lt (a b : Ratio) : Bool := a.num * b.den < b.num * a.den

/-- The nearest natural number, a half going to the even one. -/
def Ratio.round (r : Ratio) : Nat :=
  let q := r.num / r.den
  let rest := 2 * (r.num % r.den)
  if rest > r.den || (rest == r.den && q % 2 == 1) then q + 1 else q

/-- The nearest natural number, a half going up. -/
def Ratio.roundUp (r : Ratio) : Nat := (2 * r.num + r.den) / (2 * r.den)

/-- How many decimal digits a number has. -/
def width (n : Nat) : Nat := (Nat.toDigits 10 n).length

/-- The exponent `e` with `10 ^ e ≤ r < 10 ^ (e + 1)`, for a positive `r`. -/
def Ratio.magnitude (r : Ratio) : Int :=
  if r.den ≤ r.num then (width (r.num / r.den) : Int) - 1
  else -(width ((r.den + r.num - 1) / r.num - 1) : Int)

/-! ## Scientific form -/

/-- The sign in front of a negative number. -/
def sign (negative : Bool) : String := if negative then "-" else ""

/-- The first digit, a point, the other digits, `e` and the exponent. -/
def scientificDigits (n : Nat) (e : Int) : String :=
  let ds := Nat.toDigits 10 n
  String.ofList (ds.take 1) ++ "." ++ String.ofList (ds.drop 1) ++ "e" ++ toString e

/-- The scientific form with the given number of decimals. -/
def scientific (places : Nat) (x : Float) : String :=
  match Value.ofFloat x with
  | .nan => "NaN"
  | .infinite negative => sign negative ++ "inf"
  | .finite negative m q =>
    sign negative ++
      if m == 0 then "0." ++ String.ofList (List.replicate places '0') ++ "e0"
      else
        let r := Ratio.binary m q
        let e := r.magnitude
        let n := (r.shift (places - e)).round
        if n == Nat.pow 10 (places + 1) then scientificDigits (Nat.pow 10 places) (e + 1)
        else scientificDigits n e

/-! ## Shortest form -/

/-- Whether a quotient reads back as `m * 2 ^ q`: it lies between the midpoints
to the two neighbouring floats, which themselves count if `m` is even. Below
a power of two the neighbour is half as far away. -/
def readsBack (m : Nat) (q : Int) (r : Ratio) : Bool :=
  let low := if m == leastMantissa && q > -1074 then Ratio.binary (4 * m - 1) (q - 2)
    else Ratio.binary (2 * m - 1) (q - 1)
  let high := Ratio.binary (2 * m + 1) (q - 1)
  if m % 2 == 0 then low.le r && r.le high else low.lt r && r.lt high

/-- A carry into one digit more than `count` is written one place higher. -/
def carry (count n : Nat) (e : Int) : Nat × Int :=
  if n == Nat.pow 10 count then (Nat.pow 10 (count - 1), e + 1) else (n, e)

/-- The number of `count` digits next to `m * 2 ^ q` that reads back, if there
is one, with the power of ten of its last digit: of the two neighbours on that
grid the nearer, of two equally near the greater. -/
def digitsOf (m : Nat) (q : Int) (count : Nat) : Option (Nat × Int) :=
  let r := Ratio.binary m q
  let e := r.magnitude - (count : Int) + 1
  let scaled := r.shift (-e)
  let below := scaled.num / scaled.den
  let fits := fun n => readsBack m q (Ratio.shift ⟨n, 1⟩ e)
  match fits below, fits (below + 1) with
  | true, true => some (carry count scaled.roundUp e)
  | true, false => some (below, e)
  | false, true => some (carry count (below + 1) e)
  | false, false => none

/-- `n * 10 ^ e` written out in full. -/
def positional (n : Nat) (e : Int) : String :=
  let ds := Nat.toDigits 10 n
  if 0 ≤ e then String.ofList (ds ++ List.replicate e.toNat '0')
  else
    let places := (-e).toNat
    if places < ds.length then
      String.ofList (ds.take (ds.length - places)) ++ "." ++ String.ofList (ds.drop (ds.length - places))
    else "0." ++ String.ofList (List.replicate (places - ds.length) '0' ++ ds)

/-- The shortest form. -/
def shortest (x : Float) : String :=
  match Value.ofFloat x with
  | .nan => "NaN"
  | .infinite negative => sign negative ++ "inf"
  | .finite negative m q =>
    sign negative ++
      if m == 0 then "0"
      else
        match (List.range 17).findSome? fun i => digitsOf m q (i + 1) with
        | some (n, e) => positional n e
        | none => "0"

end TxRelay.Decimal
