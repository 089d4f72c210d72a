/-
Errors with named fields: the word for the cause and the sentence.

An error can also be asked for by name. The name is the last word of the path
to its cause. Where several kinds of error have a cause of one name, the kind
stands in front of it.
-/
import TxRelay.Datum
import TxRelay.Gossip.Error
import TxRelay.Mempool.Error
import TxRelay.Node.Error
import TxRelay.Pool.Error

set_option autoImplicit false

namespace TxRelay

/-- The report of an error. -/
def Datum.error (label message : String) : Datum := row "error message" [label, message]

instance : Reported Bloom.FilterError := ⟨fun e => .error e.label e.message⟩
instance : Reported ReservationError := ⟨fun e => .error e.label e.message⟩
instance : Reported PoolError := ⟨fun e => .error e.label e.message⟩
instance : Reported MempoolError := ⟨fun e => .error e.label e.message⟩
instance : Reported ValidatorError := ⟨fun e => .error e.label e.message⟩
instance : Reported GossipError := ⟨fun e => .error e.label e.message⟩
instance : Reported NodeError := ⟨fun e => .error e.label e.message⟩
instance : Reported Wire.Fault := ⟨fun e => report (GossipError.ofFault e)⟩

/-! ## Errors by name -/

/-- What a subscription says once its bus is closed. -/
def Datum.busClosed : Datum := error "Closed" "Event bus closed"

/-- Errors of one kind under their names, with and without the word for the
kind. -/
def namedErrors {α : Type} [Reported α] (kind : String) (es : List α) : List (String × Datum) :=
  es.flatMap fun e =>
    let d := report e
    let name := (((d.field? "error").getD "").splitOn "/").getLastD ""
    [(kind ++ name, d), (name, d)]

section
variable (d : Datum)

/-- The errors of filters with the fields of a record. -/
def filterErrors : List Bloom.FilterError :=
  [.tooLarge (d.fieldOr "size" 0) (d.fieldOr "max" 0),
    .invalidRate (d.fieldOr "fpr" 0), .invalidParameters (d.fieldOr "text" "")]

/-- The errors of validator lookups with the fields of a record. -/
def validatorErrors : List ValidatorError :=
  [.heightUnavailable (d.fieldOr "height" 0), .provider (d.fieldOr "text" "")]

/-- The errors of the pool with the fields of a record. -/
def poolErrors : List PoolError :=
  let text : String := d.fieldOr "text" ""
  let account := d.fieldOr "address" (Vector.replicate 20 0)
  let owner := d.fieldOr "owner" 0
  [.reservation (.alreadyReserved account owner), .reservation (.notReserved account),
    .reservation (.notOwned account owner (d.fieldOr "caller" 0)), .unsupportedType,
    .alreadyKnown, .nonceTooLow (d.fieldOr "state" 0) (d.fieldOr "tx" 0), .invalid text,
    .full, .accountLimit (d.fieldOr "limit" 0), .underpriced,
    .attachFailed (d.fieldOr "name" "") text,
    .detachFailed ((d.fieldOr "texts" []).map .internal), .closed, .internal text]

/-- The errors of the transfer pool with the fields of a record. -/
def mempoolErrors : List MempoolError :=
  let text : String := d.fieldOr "text" ""
  let zero : Digest := Vector.replicate 32 0
  [.filter (.unreadable text), .duplicate (d.fieldOr "id" zero), .previouslyRejected text,
    .invalid text, .nonceTooLow (d.fieldOr "state" 0) (d.fieldOr "tx" 0),
    .conflict (List.replicate (d.fieldOr "count" 0) zero)]

/-- The errors of gossip with the fields of a record. -/
def gossipErrors : List GossipError :=
  let text : String := d.fieldOr "text" ""
  let node : NodeId := d.fieldOr "node" (Vector.replicate 32 0)
  let protocol : UInt8 := d.fieldOr "protocol" 0
  [.cancelled, .timeout node, .requestFailed node text, .unknownProtocol protocol,
    .handlerExists protocol, .malformed text,
    .invalidSalt (d.fieldOr "expected" 0) (d.fieldOr "actual" 0), .rejected text,
    .transport text, .closed, .validators (.unknownChain text)]

/-- The error that a record names and gives the fields of. -/
def namedError? : Option Datum := do
  let all := namedErrors "" (filterErrors d) ++ namedErrors "" (validatorErrors d) ++
    namedErrors "Tx" (poolErrors d) ++ namedErrors "Atomic" (mempoolErrors d) ++
    namedErrors "Gossip" (gossipErrors d) ++
    [("MempoolFull", report MempoolError.full), ("SubscriptionClosed", .busClosed)]
  all.lookup (← d.field? "error")

end

end TxRelay
