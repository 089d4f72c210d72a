/-
Reading values off the front of a byte string.

A reader takes what it needs from the front and leaves the rest to the next
one. Numbers have a fixed width and come least significant byte first; a
sequence, a text or a signature is preceded by its length in eight bytes; an
optional value by one byte; a choice by its index in four bytes.
-/
import TxRelay.Amount
import TxRelay.Identity
import TxRelay.Wire.Utf8

set_option autoImplicit false

namespace TxRelay.Wire

/-- Takes a value off the front of the bytes, or says what is wrong there. -/
abbrev Reader := StateT Bytes (Except Fault)

namespace Reader

/-- Refuses to read. -/
def fail {α : Type} (fault : Fault) : Reader α := fun _ => .error fault

/-- The first `n` bytes. If there are fewer, `fault` says what was cut. -/
def takeOr (fault : Fault) (n : Nat) : Reader Bytes := fun b =>
  let front := b.take n
  if front.length = n then .ok (front, b.drop n) else .error fault

/-- The first `n` bytes of a number, a block or a sequence. -/
def take (n : Nat) : Reader Bytes := takeOr .unexpectedEnd n

/-- A block of `n` bytes without a length in front. -/
def block (n : Nat) : Reader (Vector UInt8 n) := do
  match Bytes.toBlock? n (← take n) with
  | some v => pure v
  | none => fail .unexpectedEnd

/-- A byte. -/
def byte : Reader UInt8 := do
  match ← take 1 with
  | b :: _ => pure b
  | [] => fail .unexpectedEnd

/-- A number in eight bytes. -/
def word : Reader UInt64 := do
  pure (UInt64.ofNat (Bytes.toNatLE (← take 8)))

/-- A length, or another count, in eight bytes. -/
def length : Reader Nat := do
  pure (Bytes.toNatLE (← take 8))

/-- A choice between `count` alternatives, by index in four bytes. -/
def variant (count : Nat) : Reader Nat := do
  let index := Bytes.toNatLE (← take 4)
  if index < count then pure index else fail (.unknownVariant index count)

/-- An optional value: a zero byte, or a one byte and the value. -/
def optional {α : Type} (r : Reader α) : Reader (Option α) := do
  match ← byte with
  | 0 => pure none
  | 1 => some <$> r
  | tag => fail (.badOptionTag tag.toNat)

/-- `n` values one after the other. -/
def times {α : Type} (r : Reader α) : Nat → Reader (List α)
  | 0 => pure []
  | n + 1 => do
    let x ← r
    let xs ← times r n
    pure (x :: xs)

/-- A sequence of values, preceded by their number. -/
def list {α : Type} (r : Reader α) : Reader (List α) := do
  times r (← length)

/-- A sequence of bytes, preceded by their number. -/
def bytes : Reader Bytes := do
  take (← length)

/-- A signature: a block that carries its length all the same. -/
def signature : Reader Signature := do
  let n ← length
  let b ← takeOr .shortBlock n
  match Bytes.toBlock? 64 b with
  | some s => pure s
  | none => fail (.signatureSize n)

/-! ## Amounts -/

/-- The value of a hexadecimal digit of either case. -/
def digitValue? (b : UInt8) : Option Nat :=
  if 48 ≤ b && b ≤ 57 then some (b.toNat - 48)
  else if 97 ≤ b && b ≤ 102 then some (b.toNat - 87)
  else if 65 ≤ b && b ≤ 70 then some (b.toNat - 55)
  else none

/-- A blank, tab or line break, which an amount may contain. -/
def isSpace (b : UInt8) : Bool := b == 32 || b == 9 || b == 10 || b == 13

/-- The digits of an amount without the blanks between them; the first byte
stands at `index`. -/
def amountDigits : Nat → Bytes → Except Fault (List Nat)
  | _, [] => .ok []
  | index, b :: rest =>
    match digitValue? b with
    | some d => (d :: ·) <$> amountDigits (index + 1) rest
    | none =>
      if isSpace b then amountDigits (index + 1) rest else .error (.amountDigit b index)

/-- Digits two by two on top of a value; a digit that stays alone is left out. -/
def pairUp : Nat → List Nat → Nat
  | n, high :: low :: rest => pairUp (n * 256 + high * 16 + low) rest
  | n, _ => n

/-- The bytes without a leading `0x`, and how many were taken away. -/
def stripMark : Bytes → Bytes × Nat
  | 48 :: 120 :: rest => (rest, 2)
  | b => (b, 0)

/-- An amount from its text: an optional `0x`, then one to 64 bytes, in which
every two digits make a byte. A text of odd length starts with half a byte. -/
def amountOfText (text : Bytes) : Except Fault Amount :=
  let (body, start) := stripMark text
  if body.length = 0 || 64 < body.length then .error (.amountSize body.length)
  else do
    let ds ← amountDigits start body
    .ok (Amount.ofNat (pairUp 0 (if body.length % 2 = 1 then 0 :: ds else ds)))

/-- An amount: its text, preceded by the length of the text. -/
def amount : Reader Amount := do
  let text ← takeOr .shortBlock (← length)
  match textFault? text with
  | some fault => fail fault
  | none =>
    match amountOfText text with
    | .ok a => pure a
    | .error fault => fail fault

end Reader

end TxRelay.Wire
