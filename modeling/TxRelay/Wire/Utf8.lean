/-
Whether bytes are text.

Text on the wire is UTF-8. The check walks over the bytes one character at a
time and reports the first place where no character starts, together with how
many bytes there could have been the beginning of one.
-/
import TxRelay.Wire.Fault

set_option autoImplicit false

namespace TxRelay.Wire

/-- Whether a byte continues a character. -/
def isContinuation (b : UInt8) : Bool := 0x80 ≤ b && b ≤ 0xbf

/-- How many bytes a character has that starts with the given byte; zero if
none does. -/
def leadWidth (b : UInt8) : Nat :=
  if b < 0x80 then 1
  else if 0xc2 ≤ b && b ≤ 0xdf then 2
  else if 0xe0 ≤ b && b ≤ 0xef then 3
  else if 0xf0 ≤ b && b ≤ 0xf4 then 4
  else 0

/-- Which second bytes are allowed after a lead byte: no character has two
spellings, is a surrogate or lies beyond the last plane. -/
def secondAllowed (lead b : UInt8) : Bool :=
  let low : UInt8 := if lead = 0xe0 then 0xa0 else if lead = 0xf0 then 0x90 else 0x80
  let high : UInt8 := if lead = 0xed then 0x9f else if lead = 0xf4 then 0x8f else 0xbf
  low ≤ b && b ≤ high

/-- What is wrong with the bytes after a lead byte of the given width, for a
character that starts at `index`. -/
def checkRest (index : Nat) (lead : UInt8) : Nat → Bytes → Option Fault
  | 0, _ => some (.textInvalid 1 index)
  | 1, _ => none
  | _ + 2, [] => some (.textIncomplete index)
  | width + 2, b :: rest =>
    if !secondAllowed lead b then some (.textInvalid 1 index)
    else go 2 width rest
where
  /-- The bytes after the second one. -/
  go (seen : Nat) : Nat → Bytes → Option Fault
  | 0, _ => none
  | _ + 1, [] => some (.textIncomplete index)
  | width + 1, b :: rest =>
    if isContinuation b then go (seen + 1) width rest else some (.textInvalid seen index)

/-- Walks over the bytes from the one at `index`; `skip` of them belong to a
character that was already looked at. -/
def checkText (index skip : Nat) : Bytes → Option Fault
  | [] => none
  | b :: rest =>
    match skip with
    | skip + 1 => checkText (index + 1) skip rest
    | 0 =>
      match checkRest index b (leadWidth b) rest with
      | some fault => some fault
      | none => checkText (index + 1) (leadWidth b - 1) rest

/-- The first thing that keeps bytes from being text. -/
def textFault? (b : Bytes) : Option Fault := checkText 0 0 b

end TxRelay.Wire
