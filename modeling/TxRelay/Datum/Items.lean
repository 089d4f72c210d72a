/-
Transactions, transfers, headers, announcements and what pools hold, with
named fields.
-/
import TxRelay.Datum
import TxRelay.Event
import TxRelay.Ledger
import TxRelay.Mempool.Store
import TxRelay.Pool.Holdings

set_option autoImplicit false

namespace TxRelay

instance : Reported TxKind := ⟨fun k => match k with
  | .legacy => .text "legacy"
  | .dynamicFee => .text "dynamic_fee"
  | .blob => .text "blob"⟩
/-- Whatever is not known otherwise is legacy. -/
instance : Given TxKind := ⟨fun d => match d with
  | .text "dynamic_fee" => some .dynamicFee
  | .text "blob" => some .blob
  | _ => some .legacy⟩
instance : Reported Direction := ⟨fun k => match k with
  | .inbound => .text "import"
  | .outbound => .text "export"⟩
/-- Whatever is no export is an import. -/
instance : Given Direction := ⟨fun d => match d with
  | .text "export" => some .outbound
  | _ => some .inbound⟩

/-- The fields of a transaction. -/
def Transaction.fields : List (Field Transaction) := [
  .of "type" (·.kind) ({ · with kind := · }),
  .of "chain_id" (·.chainId) ({ · with chainId := · }),
  .of "from" (·.sender) ({ · with sender := · }),
  .ofOption "to" (·.recipient) ({ · with recipient := · }),
  .of "value" (·.value) ({ · with value := · }),
  .of "nonce" (·.nonce) ({ · with nonce := · }),
  .of "gas_price" (·.gasPrice) ({ · with gasPrice := · }),
  .of "gas_limit" (·.gasLimit) ({ · with gasLimit := · }),
  .of "data" (·.data) ({ · with data := · }),
  .of "sig" (·.signature) ({ · with signature := · })]

/-- The fields of a transfer. -/
def Transfer.fields : List (Field Transfer) := [
  .of "kind" (·.direction) ({ · with direction := · }),
  .of "source" (·.source) ({ · with source := · }),
  .of "dest" (·.destination) ({ · with destination := · }),
  .of "account" (·.account) ({ · with account := · }),
  .of "nonce" (·.nonce) ({ · with nonce := · }),
  .of "amount" (·.amount) ({ · with amount := · }),
  .of "fee" (·.fee) ({ · with fee := · }),
  .of "inputs" (·.inputs) ({ · with inputs := · }),
  .of "sig" (·.signature) ({ · with signature := · })]

/-- The fields of a header. -/
def Header.fields : List (Field Header) := [
  .of "number" (·.number) ({ · with number := · }),
  .of "hash" (·.hash) ({ · with hash := · }),
  .of "parent" (·.parent) ({ · with parent := · }),
  .of "timestamp" (·.timestamp) ({ · with timestamp := · })]

/-- What a transaction is unless something else is given: a small payment. -/
def Transaction.plain : Transaction where
  kind := .legacy
  chainId := 1
  sender := Vector.replicate 20 0xa1
  recipient := some (Vector.replicate 20 0xee)
  value := Amount.ofNat 1
  nonce := 0
  gasPrice := Amount.ofNat 10
  gasLimit := 21000
  data := []
  signature := Vector.replicate 64 0

/-- What a transfer is unless something else is given: one that arrives and
consumes nothing. -/
def Transfer.plain : Transfer where
  direction := .inbound
  source := Vector.replicate 32 1
  destination := Vector.replicate 32 2
  account := Vector.replicate 20 0xc1
  nonce := 0
  amount := 1000
  fee := 10
  inputs := []
  signature := Vector.replicate 64 0

instance : Given Transaction := ⟨Field.overrideAll? Transaction.fields .plain⟩
instance : Given Transfer := ⟨Field.overrideAll? Transfer.fields .plain⟩
instance : Reported Transaction := ⟨Field.reportAll Transaction.fields⟩
instance : Reported Transfer := ⟨Field.reportAll Transfer.fields⟩
instance : Reported Header := ⟨Field.reportAll Header.fields⟩
instance : Given Header := ⟨Field.overrideAll? Header.fields .genesis⟩

/-- An announcement names its items by their ids. -/
instance : Reported Event := ⟨fun e => match e with
  | .transactions txs isLocal => .row "new_txs local" [txs.map Transaction.hash, isLocal]
  | .transfers txs isLocal => .row "atomic_txs local" [txs.map Transfer.id, isLocal]
  | .reorg head => .row "reorg" [head]⟩

/-- A reorganisation is given by time and salt of a block after the first. -/
instance : Given Event := ⟨fun d => do
  let isLocal := d.fieldOr "local" false
  match d.get? "new_txs", d.get? "atomic_txs" with
  | some txs, _ => some (.transactions (← read? txs) isLocal)
  | none, some txs => some (.transfers (← read? txs) isLocal)
  | none, none =>
    let (timestamp, salt) : UInt64 × UInt64 ← d.field? "reorg"
    some (.reorg (Header.genesis.child timestamp salt))⟩

instance : Given Topic := ⟨fun d => match d with
  | .text "all" => some .all
  | .text "new_txs" => some .transactions
  | .text "atomic_txs" => some .transfers
  | .text "reorg" => some .reorg
  | _ => none⟩

/-- Credits accounts one after the other. -/
def Ledger.fundAll (l : Ledger) (credits : List (Address × Amount)) : Ledger :=
  credits.foldl (fun l c => l.fund c.1 c.2) l

instance : Given Ledger := ⟨fun d => do
  let l := Ledger.new (d.fieldOr "chain_id" 1) (d.fieldOr "min_gas_price" (Amount.ofNat 1))
  some (l.fundAll (d.fieldOr "fund" []))⟩

instance : Reported Account := ⟨fun a => .row "nonce balance" [a.nonce, a.balance]⟩

instance : Reported Pooled :=
  ⟨fun p => .row "hash nonce seq local" [p.hash, p.tx.nonce, p.seq, p.isLocal]⟩

instance : Reported PriceKey :=
  ⟨fun k => .row "hash seq gas_price" [k.hash, k.seq, k.price]⟩

instance : Reported PooledTransfer :=
  ⟨fun p => .row "id local seq issued fee" [p.id, p.isLocal, p.seq, p.issued, p.tx.fee]⟩

end TxRelay
