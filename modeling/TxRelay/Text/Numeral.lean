/-
Reading a 64-bit count from text.

Blanks around the text do not matter. What is left is an optional plus sign
and one or more decimal digits; the first thing that goes wrong, reading from
the left, is what is reported.
-/
set_option autoImplicit false

namespace TxRelay.Text

/-- The blanks that are ignored around a value: those with the property
"white space", ASCII or not. -/
def isBlank (c : Char) : Bool :=
  let n := c.toNat
  (9 ≤ n && n ≤ 13) || n == 32 || n == 133 || n == 160 || n == 5760 || (8192 ≤ n && n ≤ 8202) ||
    n == 8232 || n == 8233 || n == 8239 || n == 8287 || n == 12288

/-- The characters without the blanks at either end. -/
def trim (cs : List Char) : List Char :=
  ((cs.dropWhile isBlank).reverse.dropWhile isBlank).reverse

/-- Why a text is no count. -/
inductive NumeralError where
  | empty
  /-- Something else than a digit. -/
  | invalidDigit
  /-- The value does not fit in 64 bits. -/
  | tooLarge
deriving DecidableEq

/-- The error in words. -/
def NumeralError.message : NumeralError → String
  | .empty => "cannot parse integer from empty string"
  | .invalidDigit => "invalid digit found in string"
  | .tooLarge => "number too large to fit in target type"

/-- Reads on from the value of the digits before. -/
def digits : Nat → List Char → Except NumeralError Nat
  | n, [] => .ok n
  | n, c :: rest =>
    if c.isDigit then
      let n := 10 * n + (c.toNat - 48)
      if n < UInt64.size then digits n rest else .error .tooLarge
    else .error .invalidDigit

/-- **A count.** -/
def readCount (s : String) : Except NumeralError Nat :=
  match trim s.toList with
  | [] => .error .empty
  | '+' :: [] => .error .invalidDigit
  | '+' :: rest => digits 0 rest
  | cs => digits 0 cs

end TxRelay.Text
