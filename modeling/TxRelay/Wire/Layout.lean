/-
How values are laid out in bytes.

Every kind of value has one layout: a way to write it and a reader for it.
Writing a message fails only if the message would be too long; reading one
fails if the bytes are no message or if some are left over.
-/
import TxRelay.Transaction
import TxRelay.Transfer
import TxRelay.Wire.Reader

set_option autoImplicit false

namespace TxRelay.Wire

/-- A kind of value with a layout in bytes. -/
class Layout (α : Type) where
  write : α → Bytes
  /-- Takes a value off the front of the bytes. -/
  read : Reader α

/-- The most bytes that a message may have: two mebibytes (`MAX_MESSAGE_BYTES`). -/
def maxMessageBytes : Nat := 2 * 1024 * 1024

/-- The message of a value (`encode`). -/
def encode {α : Type} [Layout α] (x : α) : Except Fault Bytes :=
  let b := Layout.write x
  if b.length ≤ maxMessageBytes then .ok b else .error .sizeLimit

/-- The value that a message spells (`decode`). -/
def decode {α : Type} [Layout α] (b : Bytes) : Except Fault α :=
  match (Layout.read : Reader α) b with
  | .ok (x, []) => .ok x
  | .ok (_, _ :: _) => .error .trailingBytes
  | .error fault => .error fault

/-! ## Parts -/

/-- A length in eight bytes. -/
def writeLength (n : Nat) : Bytes := Bytes.ofNatLE 8 n

/-- An index in four bytes. -/
def writeVariant (n : Nat) : Bytes := Bytes.ofNatLE 4 n

/-- Bytes preceded by their number. -/
def writeBytes (b : Bytes) : Bytes := writeLength b.length ++ b

/-- Values one after the other, preceded by their number. -/
def writeList {α : Type} (write : α → Bytes) (xs : List α) : Bytes :=
  writeLength xs.length ++ xs.flatMap write

/-- A zero byte, or a one byte and the value. -/
def writeOption {α : Type} (write : α → Bytes) : Option α → Bytes
  | none => [0]
  | some x => 1 :: write x

/-- The text of an amount: `0x` and the fewest hexadecimal digits. -/
def amountText (a : Amount) : Bytes :=
  48 :: 120 :: (Nat.toDigits 16 a.toNat).map fun c => UInt8.ofNat c.toNat

/-- An amount as text. -/
def writeAmount (a : Amount) : Bytes := writeBytes (amountText a)

/-! ## Transactions and transfers -/

/-- The index of an envelope. -/
def kindIndex : TxKind → Nat
  | .legacy => 0
  | .dynamicFee => 1
  | .blob => 2

/-- The envelope with a given index. -/
def kindOfIndex : Nat → TxKind
  | 0 => .legacy
  | 1 => .dynamicFee
  | _ => .blob

/-- The index of a direction. -/
def directionIndex : Direction → Nat
  | .inbound => 0
  | .outbound => 1

/-- The direction with a given index. -/
def directionOfIndex : Nat → Direction
  | 0 => .inbound
  | _ => .outbound

instance : Layout Transaction where
  write t :=
    writeVariant (kindIndex t.kind) ++ Bytes.ofWord t.chainId ++ t.sender.toList ++
      writeOption Vector.toList t.recipient ++ writeAmount t.value ++ Bytes.ofWord t.nonce ++
      writeAmount t.gasPrice ++ Bytes.ofWord t.gasLimit ++ writeBytes t.data ++
      writeBytes t.signature.toList
  read := do
    let kind := kindOfIndex (← Reader.variant 3)
    let chainId ← Reader.word
    let sender ← Reader.block 20
    let recipient ← Reader.optional (Reader.block 20)
    let value ← Reader.amount
    let nonce ← Reader.word
    let gasPrice ← Reader.amount
    let gasLimit ← Reader.word
    let data ← Reader.bytes
    let signature ← Reader.signature
    pure { kind, chainId, sender, recipient, value, nonce, gasPrice, gasLimit, data, signature }

instance : Layout Transfer where
  write t :=
    writeVariant (directionIndex t.direction) ++ t.source.toList ++ t.destination.toList ++
      t.account.toList ++ Bytes.ofWord t.nonce ++ Bytes.ofWord t.amount ++ Bytes.ofWord t.fee ++
      writeList Vector.toList t.inputs ++ writeBytes t.signature.toList
  read := do
    let direction := directionOfIndex (← Reader.variant 2)
    let source ← Reader.block 32
    let destination ← Reader.block 32
    let account ← Reader.block 20
    let nonce ← Reader.word
    let amount ← Reader.word
    let fee ← Reader.word
    let inputs ← Reader.list (Reader.block 32)
    let signature ← Reader.signature
    pure { direction, source, destination, account, nonce, amount, fee, inputs, signature }

end TxRelay.Wire
