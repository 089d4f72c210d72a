/-
The accounts of a chain and the shared-memory inputs that it has consumed.

The ledger answers two questions, whether a transaction or a transfer is
acceptable now, and it carries out what a block contains. Carrying out checks
nothing: sums stop at the ends, the nonce of an account only ever goes up, and
an input once consumed stays consumed. What is acceptable is decided by a list
of causes, looked for in a fixed order; the first one found is the answer.
-/
import Std.Data.ExtTreeSet
import TxRelay.Pool.SubPool

set_option autoImplicit false

namespace TxRelay

/-- An account (`Account`). -/
structure Account where
  nonce : UInt64
  /-- What it owns. -/
  balance : Amount
deriving DecidableEq

/-- The account that nobody has used. -/
def Account.empty : Account := ⟨0, 0⟩

instance : Inhabited Account := ⟨Account.empty⟩

/-- What a chain remembers (`InMemoryState`). -/
structure Ledger where
  /-- The chain that transactions have to be bound to. -/
  chainId : UInt64
  /-- The least price of a unit of gas. -/
  minGasPrice : Amount
  /-- The accounts that were used. -/
  accounts : Std.ExtTreeMap Address Account
  /-- The inputs that were consumed. -/
  consumed : Std.ExtTreeSet Digest
deriving DecidableEq

/-- What the transfer pool asks an execution layer (`AtomicBackend`). -/
structure TransferBackend where
  /-- Why a transfer is not acceptable, if it is not. -/
  validate : Transfer → Except String Unit
  /-- The next nonce of an account. -/
  nonce : Address → UInt64

/-- Why a transaction is not acceptable. -/
inductive TransactionFault where
  /-- It is bound to another chain. -/
  | wrongChain (chainId : UInt64)
  /-- It pays too little for gas. -/
  | priceTooLow (price : Amount)
  /-- The sender cannot pay for it. -/
  | insufficientFunds (balance cost : Amount)
deriving DecidableEq

/-- Why a transfer is not acceptable. -/
inductive TransferFault where
  | noInputs
  | sameChain
  /-- It burns nothing, or all of what it moves. -/
  | feeNotCovered (amount fee : UInt64)
  /-- It consumes what is gone. -/
  | alreadyConsumed (input : Digest)
  /-- The account cannot pay for it. -/
  | insufficientBalance
deriving DecidableEq

/-- The fault in words. -/
def TransactionFault.message : TransactionFault → String
  | .wrongChain chainId => "wrong chain id " ++ toString chainId.toNat
  | .priceTooLow price => "gas price " ++ toString price.toNat ++ " below minimum"
  | .insufficientFunds balance cost =>
    "insufficient funds: balance " ++ toString balance.toNat ++ ", cost " ++ toString cost.toNat

/-- The fault in words. -/
def TransferFault.message : TransferFault → String
  | .noInputs => "no inputs"
  | .sameChain => "source and destination chain are the same"
  | .feeNotCovered amount fee =>
    "amount " ++ toString amount.toNat ++ " does not cover fee " ++ toString fee.toNat
  | .alreadyConsumed input => "input " ++ shortId input ++ " already consumed"
  | .insufficientBalance => "insufficient balance for export"

/-- Sum of two words, at most the largest word. -/
def saturatingSum (a b : UInt64) : UInt64 :=
  if a.toNat + b.toNat < UInt64.size then a + b else UInt64.ofNat (UInt64.size - 1)

/-- Difference of two words, at least zero. -/
def saturatingDifference (a b : UInt64) : UInt64 :=
  if b ≤ a then a - b else 0

/-- What an outbound transfer costs its account. -/
def Transfer.debit (t : Transfer) : Amount := Amount.ofWord (saturatingSum t.amount t.fee)

/-- What an inbound transfer brings its account. -/
def Transfer.credit (t : Transfer) : Amount := Amount.ofWord (saturatingDifference t.amount t.fee)

namespace Ledger

/-- A ledger without accounts. -/
def new (chainId : UInt64) (minGasPrice : Amount) : Ledger := ⟨chainId, minGasPrice, ∅, ∅⟩

/-- An account (`InMemoryState::account`). -/
def account (l : Ledger) (a : Address) : Account := l.accounts.getD a Account.empty

/-- The ledger with an account changed. -/
def update (l : Ledger) (a : Address) (f : Account → Account) : Ledger :=
  { l with accounts := l.accounts.insert a (f (l.account a)) }

/-- Whether an input was consumed (`InMemoryState::is_consumed`). -/
def isConsumed (l : Ledger) (input : Digest) : Bool := l.consumed.contains input

/-! ## What is carried out -/

/-- Gives an account something (`InMemoryState::fund`). -/
def fund (l : Ledger) (a : Address) (amount : Amount) : Ledger :=
  l.update a fun account => { account with balance := account.balance.add amount }

/-- Carries out a transaction: its cost is taken, and the nonce moves past it
(`InMemoryState::apply`). -/
def apply (l : Ledger) (tx : Transaction) : Ledger :=
  l.update tx.sender fun account =>
    { balance := account.balance.sub tx.cost, nonce := max account.nonce (tx.nonce + 1) }

/-- Consumes inputs. -/
def consume (l : Ledger) (inputs : List Digest) : Ledger :=
  { l with consumed := l.consumed.insertMany inputs }

/-- What a transfer does to its account. -/
def settle (t : Transfer) (account : Account) : Account :=
  match t.direction with
  | .inbound => { account with balance := account.balance.add t.credit }
  | .outbound =>
    { balance := account.balance.sub t.debit, nonce := max account.nonce (t.nonce + 1) }

/-- Carries out a transfer: its inputs are consumed, its account is settled
(`InMemoryState::apply_atomic`). -/
def applyTransfer (l : Ledger) (t : Transfer) : Ledger :=
  (l.consume t.inputs).update t.account (settle t)

/-! ## What is acceptable -/

/-- The first thing that is wrong with a transaction (`TypedBackend::validate`). -/
def transactionFault? (l : Ledger) (tx : Transaction) : Option TransactionFault :=
  if tx.chainId ≠ l.chainId then some (.wrongChain tx.chainId)
  else if tx.gasPrice < l.minGasPrice then some (.priceTooLow tx.gasPrice)
  else if (l.account tx.sender).balance < tx.cost then
    some (.insufficientFunds (l.account tx.sender).balance tx.cost)
  else none

/-- Whether an account cannot pay for a transfer. -/
def cannotPay (l : Ledger) (t : Transfer) : Bool :=
  match t.direction with
  | .inbound => false
  | .outbound => (l.account t.account).balance < t.debit

/-- The first thing that is wrong with a transfer (`InMemoryState::validate`). -/
def transferFault? (l : Ledger) (t : Transfer) : Option TransferFault :=
  if t.inputs.isEmpty then some .noInputs
  else if t.source = t.destination then some .sameChain
  else if t.fee = 0 ∨ t.amount ≤ t.fee then some (.feeNotCovered t.amount t.fee)
  else
    match t.inputs.find? l.isConsumed with
    | some input => some (.alreadyConsumed input)
    | none => if l.cannotPay t then some .insufficientBalance else none

/-- What the ledger answers to the pools of ordinary transactions
(`TypedBackend`). -/
def backend (l : Ledger) : Backend where
  validate tx :=
    match l.transactionFault? tx with
    | none => .ok ()
    | some fault => .error fault.message
  nonce a := (l.account a).nonce

/-- What the ledger answers to the transfer pool (`InMemoryState`). -/
def transferBackend (l : Ledger) : TransferBackend where
  validate t :=
    match l.transferFault? t with
    | none => .ok ()
    | some fault => .error fault.message
  nonce a := (l.account a).nonce

end Ledger

end TxRelay
