/-
The messages of the gossip protocols.

A node asks a peer with a filter over what it already holds; the peer answers
with the items that the filter misses; and a node pushes newly accepted items
without being asked. Requests and pushes are preceded by one byte that selects
the protocol; an answer is matched to its request and carries no such byte.
-/
import TxRelay.Wire.Layout

set_option autoImplicit false

namespace TxRelay.Wire

/-- Which kind of item a message is about (`ProtocolId`). -/
inductive Protocol where
  | ordinary
  | transfers
deriving DecidableEq, Inhabited

/-- The protocols. -/
def Protocol.all : List Protocol := [.ordinary, .transfers]

/-- The byte that selects a protocol (`ProtocolId::as_byte`). -/
def Protocol.byte : Protocol → UInt8
  | .ordinary => 0
  | .transfers => 1

/-- The protocol that a byte selects (`ProtocolId::from_byte`). -/
def Protocol.ofByte? (b : UInt8) : Option Protocol :=
  if b = 0 then some .ordinary else if b = 1 then some .transfers else none

/-- The payload with the byte of its protocol in front (`prefix`). -/
def Protocol.tag (p : Protocol) (payload : Bytes) : Bytes :=
  p.byte :: payload

/-- The first byte of a message and its payload, unless the message is empty
(`split_prefix`). -/
def untag? : Bytes → Option (UInt8 × Bytes)
  | [] => none
  | b :: payload => some (b, payload)

/-- Asks for the items that a filter misses under a salt (`PullGossipRequest`). -/
structure PullRequest where
  filter : Bytes
  salt : Bytes
deriving DecidableEq

/-- Answers a request with items (`PullGossipResponse`). -/
structure PullResponse where
  items : List Bytes
deriving DecidableEq

/-- Announces items that were not asked for (`PushGossip`). -/
structure PushMessage where
  items : List Bytes
deriving DecidableEq

instance : Layout PullRequest where
  write m := writeBytes m.filter ++ writeBytes m.salt
  read := do
    let filter ← Reader.bytes
    let salt ← Reader.bytes
    pure { filter, salt }

instance : Layout PullResponse where
  write m := writeList writeBytes m.items
  read := PullResponse.mk <$> Reader.list Reader.bytes

instance : Layout PushMessage where
  write m := writeList writeBytes m.items
  read := PushMessage.mk <$> Reader.list Reader.bytes

end TxRelay.Wire
