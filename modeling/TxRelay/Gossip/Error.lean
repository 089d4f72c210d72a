/-
What can go wrong between nodes.

What a peer does wrong never reaches the callers of the gossip protocols; it
is counted. The causes here are what a request ends with, what a handler
refuses a request for, and what a transport reports.
-/
import TxRelay.Bloom.Error
import TxRelay.Validators
import TxRelay.Wire.Fault

set_option autoImplicit false

namespace TxRelay

/-- Why a message, a request or a cycle failed (`GossipError`). -/
inductive GossipError where
  | cancelled
  | timeout (node : NodeId)
  /-- The peer or the connection failed. -/
  | requestFailed (node : NodeId) (reason : String)
  /-- Nobody handles the protocol. -/
  | unknownProtocol (protocol : UInt8)
  /-- Somebody handles the protocol already. -/
  | handlerExists (protocol : UInt8)
  /-- The bytes are no message. -/
  | malformed (reason : String)
  | invalidSalt (expected actual : Nat)
  /-- The item or the request is refused. -/
  | rejected (reason : String)
  | filter (e : Bloom.FilterError)
  /-- There is no validator set. -/
  | validators (e : ValidatorError)
  | transport (reason : String)
  /-- The network, or what it was listening to, is closed. -/
  | closed

namespace GossipError

/-- Bytes that are no message. -/
def ofFault (fault : Wire.Fault) : GossipError := malformed fault.message

/-- One word for the cause; what is wrong elsewhere is a path of two. -/
def label : GossipError → String
  | cancelled => "Cancelled"
  | timeout _ => "Timeout"
  | requestFailed _ _ => "RequestFailed"
  | unknownProtocol _ => "UnknownProtocol"
  | handlerExists _ => "HandlerExists"
  | malformed _ => "Malformed"
  | invalidSalt _ _ => "InvalidSalt"
  | rejected _ => "Rejected"
  | filter e => "Filter/" ++ e.label
  | validators e => "ValidatorState/" ++ e.label
  | transport _ => "Transport"
  | closed => "Closed"

/-- The error in words. -/
def message : GossipError → String
  | cancelled => "operation cancelled"
  | timeout node => "request to " ++ NodeId.display node ++ " timed out"
  | requestFailed node reason => "request to " ++ NodeId.display node ++ " failed: " ++ reason
  | unknownProtocol protocol => "unknown protocol id " ++ toString protocol.toNat
  | handlerExists protocol =>
    "handler already registered for protocol " ++ toString protocol.toNat
  | malformed reason => "malformed message: " ++ reason
  | invalidSalt expected actual =>
    "salt must be " ++ toString expected ++ " bytes, got " ++ toString actual
  | rejected reason => "gossip rejected: " ++ reason
  | filter e => e.message
  | validators e => e.message
  | transport reason => "transport error: " ++ reason
  | closed => "network closed"

end GossipError

end TxRelay
