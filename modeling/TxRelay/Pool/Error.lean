/-
Why an ordinary transaction is not let in, and what can go wrong with the
life of a sub-pool.

Rejections are results of single transactions: they never stop a batch. An
error that lists other errors shows them by constructor and fields, each other
error shows the sentence that explains it.
-/
import TxRelay.Identity
import TxRelay.Text.Quoted

set_option autoImplicit false

namespace TxRelay

/-- Why an account cannot be claimed or given up (`ReservationError`). -/
inductive ReservationError where
  /-- Another sub-pool has it. -/
  | alreadyReserved (account : Address) (owner : Nat)
  /-- Nobody has it. -/
  | notReserved (account : Address)
  /-- It belongs to another sub-pool than the caller. -/
  | notOwned (account : Address) (owner caller : Nat)
deriving DecidableEq

/-- Why a transaction is refused, or a sub-pool does not start or stop
(`TxPoolError`). -/
inductive PoolError where
  | unsupportedType
  | alreadyKnown
  /-- The sender is past its nonce. -/
  | nonceTooLow (next nonce : UInt64)
  /-- The execution layer refuses it. -/
  | invalid (reason : String)
  /-- The sender cannot be claimed. -/
  | reservation (e : ReservationError)
  /-- The pool is full and it outbids nothing. -/
  | full
  /-- The sender has as many transactions as it may. -/
  | accountLimit (limit : Nat)
  /-- It pays too little to replace another one. -/
  | underpriced
  /-- A sub-pool does not start. -/
  | attachFailed (name reason : String)
  /-- Something is left over after stopping. -/
  | detachFailed (errors : List PoolError)
  /-- The pool is closed, or was never started. -/
  | closed
  /-- A sub-pool broke its contract. -/
  | internal (reason : String)
deriving Inhabited

namespace ReservationError

/-- One word for the cause, for programs that read the error. -/
def label : ReservationError → String
  | alreadyReserved _ _ => "AlreadyReserved"
  | notReserved _ => "NotReserved"
  | notOwned _ _ _ => "NotOwned"

/-- The error in words. -/
def message : ReservationError → String
  | alreadyReserved a owner =>
    "address " ++ shortId a ++ " already reserved by sub-pool " ++ toString owner
  | notReserved a => "address " ++ shortId a ++ " not reserved"
  | notOwned a owner caller =>
    "address " ++ shortId a ++ " owned by sub-pool " ++ toString owner ++ ", not " ++ toString caller

/-- Words between brackets, separated by commas. -/
def bracketed (items : List String) : String :=
  "[" ++ ", ".intercalate items ++ "]"

/-- Fields between braces after the name of a constructor. -/
def record (name : String) (fields : List (String × String)) : String :=
  name ++ " \x7b " ++ ", ".intercalate (fields.map fun f => f.1 ++ ": " ++ f.2) ++ " \x7d"

/-- The account byte by byte. -/
def accountBytes (a : Address) : String :=
  bracketed (a.toList.map fun b => toString b.toNat)

/-- The error by constructor and fields. -/
def listing : ReservationError → String
  | alreadyReserved a owner =>
    record "AlreadyReserved" [("address", accountBytes a), ("owner", toString owner)]
  | notReserved a => record "NotReserved" [("address", accountBytes a)]
  | notOwned a owner caller =>
    record "NotOwned"
      [("address", accountBytes a), ("owner", toString owner), ("caller", toString caller)]

end ReservationError

namespace PoolError

open ReservationError (bracketed record)

/-- One word for the cause; what happened to an account is a path of two. -/
def label : PoolError → String
  | unsupportedType => "UnsupportedTxType"
  | alreadyKnown => "AlreadyKnown"
  | nonceTooLow _ _ => "NonceTooLow"
  | invalid _ => "Validation"
  | reservation e => "Reservation/" ++ e.label
  | full => "PoolFull"
  | accountLimit _ => "AccountLimitReached"
  | underpriced => "ReplacementUnderpriced"
  | attachFailed _ _ => "InitFailed"
  | detachFailed _ => "CloseFailed"
  | closed => "Closed"
  | internal _ => "Internal"

/-- A cause with one text. -/
def wrapped (name text : String) : String := name ++ "(" ++ text ++ ")"

/-- The error by constructor and fields. -/
def listing : PoolError → String
  | unsupportedType => "UnsupportedTxType"
  | alreadyKnown => "AlreadyKnown"
  | nonceTooLow next nonce =>
    record "NonceTooLow" [("state", toString next.toNat), ("tx", toString nonce.toNat)]
  | invalid reason => wrapped "Validation" (Text.quoted reason)
  | reservation e => wrapped "Reservation" e.listing
  | full => "PoolFull"
  | accountLimit limit => record "AccountLimitReached" [("limit", toString limit)]
  | underpriced => "ReplacementUnderpriced"
  | attachFailed name reason =>
    record "InitFailed" [("name", Text.quoted name), ("reason", Text.quoted reason)]
  | detachFailed errors => record "CloseFailed" [("errors", bracketed (listings errors))]
  | closed => "Closed"
  | internal reason => wrapped "Internal" (Text.quoted reason)
where
  /-- Each error of a list by constructor and fields. -/
  listings : List PoolError → List String
  | [] => []
  | e :: rest => e.listing :: listings rest

/-- The error in words. -/
def message : PoolError → String
  | unsupportedType => "transaction type not supported"
  | alreadyKnown => "already known"
  | nonceTooLow next nonce =>
    "nonce too low: next nonce " ++ toString next.toNat ++ ", tx nonce " ++ toString nonce.toNat
  | invalid reason => "invalid transaction: " ++ reason
  | reservation e => e.message
  | full => "txpool is full"
  | accountLimit limit => "account limit of " ++ toString limit ++ " transactions reached"
  | underpriced => "replacement transaction underpriced"
  | attachFailed name reason => "sub-pool " ++ name ++ " failed to initialise: " ++ reason
  | detachFailed errors =>
    "failed to close " ++ toString errors.length ++ " sub-pool(s): " ++
      bracketed (errors.map listing)
  | closed => "txpool closed"
  | internal reason => "internal error: " ++ reason

/-- Whether the error only says that the transaction is pooled already
(`TxPoolError::is_already_known`). -/
def isAlreadyKnown : PoolError → Bool
  | alreadyKnown => true
  | _ => false

end PoolError

end TxRelay
