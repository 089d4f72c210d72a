/-
What can be wrong with bytes that should spell a message.

A reader stops at the first thing that is wrong and says what it was. The
wording is in one place, so that every message about bad bytes reads alike
whoever reports it.
-/
import TxRelay.Bytes

set_option autoImplicit false

namespace TxRelay.Wire

/-- Why bytes do not spell a value, or a value cannot be spelled. -/
inductive Fault where
  /-- The input ends inside a number, a block or a sequence. -/
  | unexpectedEnd
  /-- The input ends inside a text or a sized block. -/
  | shortBlock
  /-- A choice between `count` alternatives is given by a larger index. -/
  | unknownVariant (index count : Nat)
  /-- The byte in front of an optional value is neither zero nor one. -/
  | badOptionTag (tag : Nat)
  /-- A text breaks off inside a character that starts at `index`. -/
  | textIncomplete (index : Nat)
  /-- A text has `length` bytes at `index` that are no character. -/
  | textInvalid (length index : Nat)
  /-- A signature of a wrong size. -/
  | signatureSize (size : Nat)
  /-- An amount with no digit, or with more than 64. -/
  | amountSize (size : Nat)
  /-- A byte of an amount that is no hexadecimal digit. -/
  | amountDigit (byte : UInt8) (index : Nat)
  | trailingBytes
  /-- The value would take more bytes than a message may have. -/
  | sizeLimit
deriving DecidableEq

/-- The fault in words. -/
def Fault.message : Fault → String
  | .unexpectedEnd => "io error: unexpected end of file"
  | .shortBlock => "io error: "
  | .unknownVariant index count =>
    "invalid value: integer \x60" ++ toString index ++ "\x60, expected variant index 0 <= i < " ++
      toString count
  | .badOptionTag tag => "tag for enum is not valid, found " ++ toString tag
  | .textIncomplete index =>
    "string is not valid utf8: incomplete utf-8 byte sequence from index " ++ toString index
  | .textInvalid length index =>
    "string is not valid utf8: invalid utf-8 sequence of " ++ toString length ++
      " bytes from index " ++ toString index
  | .signatureSize size =>
    "invalid length " ++ toString size ++ ", expected an byte array of size 64"
  | .amountSize size =>
    "invalid length " ++ toString size ++ ", expected a (both 0x-prefixed or not) hex string or " ++
      "byte array containing between (0; 32] bytes"
  | .amountDigit byte index =>
    "invalid hex character: " ++ (Char.ofNat byte.toNat).toString ++ ", at " ++ toString index
  | .trailingBytes => "Slice had bytes remaining after deserialization"
  | .sizeLimit => "the size limit has been reached"

end TxRelay.Wire
