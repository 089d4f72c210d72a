/-
What is charged for what is acceptable.

A transaction is due its value and the price of all its gas, an outbound transfer what it moves
and the fee that it burns. The ledger asks for that before anything is carried out, and takes it
when it is carried out, but both times as a sum that stops at an end: at the largest amount for a
transaction, and already at the largest 64-bit word for a transfer.

So asking and taking agree on what they leave out. Below the end everything that is due is taken.
At the end only the end is asked for, and an account that has as much gets the rest for nothing:
a transaction can only do that to an account with the largest balance there is, a transfer to
every account with a balance that does not fit into a word. What comes in is never cut off at a
word, since the fee is less than what is moved.
-/
import TxRelay.Proofs.Ledger

set_option autoImplicit false

namespace TxRelay

/-! ## What is due -/

/-- What a transaction is due: its value, and the price of all its gas. -/
def Transaction.due (t : Transaction) : Nat := t.value.toNat + t.gasPrice.toNat * t.gasLimit.toNat

/-- What an outbound transfer is due: what it moves, and its fee. -/
def Transfer.due (t : Transfer) : Nat := t.amount.toNat + t.fee.toNat

/-- What is left of an inbound transfer once the fee is burned. -/
def Transfer.proceeds (t : Transfer) : Nat := t.amount.toNat - t.fee.toNat

/-- The cost stops at the largest amount, whether the price of the gas stops there already or
only the sum does. -/
theorem Transaction.toNat_cost (t : Transaction) : t.cost.toNat = min t.due (Amount.size - 1) := by
  rw [cost, due, Amount.toNat_add, Amount.toNat_mul, Amount.toNat_ofWord]
  omega

theorem toNat_saturatingSum (a b : UInt64) :
    (saturatingSum a b).toNat = min (a.toNat + b.toNat) (UInt64.size - 1) := by
  have hsize : UInt64.size = 2 ^ 64 := rfl
  rw [saturatingSum]
  split
  · next hfits =>
    rw [UInt64.toNat_add, Nat.mod_eq_of_lt (by omega)]
    omega
  · next hlarge =>
    rw [UInt64.toNat_ofNat_of_lt' (by decide)]
    omega

theorem toNat_saturatingDifference (a b : UInt64) :
    (saturatingDifference a b).toNat = a.toNat - b.toNat := by
  rw [saturatingDifference]
  split
  · next hle => exact UInt64.toNat_sub_of_le a b hle
  · next hnot =>
    have hlt : a.toNat < b.toNat := UInt64.lt_iff_toNat_lt.mp (UInt64.not_le.mp hnot)
    rw [UInt64.toNat_zero]
    omega

/-- The debit stops at the largest word. -/
theorem Transfer.toNat_debit (t : Transfer) : t.debit.toNat = min t.due (UInt64.size - 1) := by
  rw [debit, due, Amount.toNat_ofWord, toNat_saturatingSum]

theorem Transfer.toNat_credit (t : Transfer) : t.credit.toNat = t.proceeds := by
  rw [credit, proceeds, Amount.toNat_ofWord, toNat_saturatingDifference]

namespace Ledger

/-! ## What is taken and given -/

/-- **What a transaction takes**: what is due, cut off at the largest amount, from its sender
and from nobody else (`InMemoryState::apply`). -/
structure Charges (l : Ledger) (tx : Transaction) : Prop where
  taken : (l.account tx.sender).balance.toNat
    = ((l.apply tx).account tx.sender).balance.toNat + min tx.due (Amount.size - 1)
  /-- All that is due is taken exactly if it is an amount. -/
  exact_iff : (l.account tx.sender).balance.toNat
      = ((l.apply tx).account tx.sender).balance.toNat + tx.due ↔ tx.due < Amount.size
  /-- If it is not, the sender had the largest balance, and has nothing left. -/
  overdue : Amount.size ≤ tx.due → (l.account tx.sender).balance = Amount.max ∧
    ((l.apply tx).account tx.sender).balance = 0
  others : ∀ a, a ≠ tx.sender → (l.apply tx).account a = l.account a

/-- **What a transfer takes or brings**: an outbound one takes what is due, cut off at the
largest word, and an inbound one brings its proceeds, as far as the balance stays an amount
(`InMemoryState::apply_atomic`). -/
structure Settles (l : Ledger) (t : Transfer) : Prop where
  taken : t.direction = .outbound → (l.account t.account).balance.toNat
    = ((l.applyTransfer t).account t.account).balance.toNat + min t.due (UInt64.size - 1)
  /-- All that is due is taken exactly if it is a word. -/
  exact_iff : t.direction = .outbound → ((l.account t.account).balance.toNat
      = ((l.applyTransfer t).account t.account).balance.toNat + t.due ↔ t.due < UInt64.size)
  /-- The proceeds are what is moved without the fee, -/
  proceeds_add : t.proceeds + t.fee.toNat = t.amount.toNat
  /-- and all of them are given exactly if the balance stays an amount. -/
  given_iff : t.direction = .inbound → (((l.applyTransfer t).account t.account).balance.toNat
      = (l.account t.account).balance.toNat + t.proceeds ↔
    (l.account t.account).balance.toNat + t.proceeds < Amount.size)
  others : ∀ a, a ≠ t.account → (l.applyTransfer t).account a = l.account a

variable {l : Ledger}

theorem balance_apply (l : Ledger) (tx : Transaction) :
    ((l.apply tx).account tx.sender).balance.toNat
      = (l.account tx.sender).balance.toNat - min tx.due (Amount.size - 1) := by
  rw [apply, account_update, if_pos rfl, Amount.toNat_sub, Transaction.toNat_cost]

theorem account_applyTransfer (l : Ledger) (t : Transfer) (a : Address) :
    (l.applyTransfer t).account a
      = if t.account = a then settle t (l.account t.account) else l.account a := by
  rw [applyTransfer, account_update]
  rfl

theorem balance_applyTransfer_outbound (l : Ledger) {t : Transfer} (h : t.direction = .outbound) :
    ((l.applyTransfer t).account t.account).balance.toNat
      = (l.account t.account).balance.toNat - min t.due (UInt64.size - 1) := by
  rw [account_applyTransfer, if_pos rfl, settle, h, Amount.toNat_sub, Transfer.toNat_debit]

theorem balance_applyTransfer_inbound (l : Ledger) {t : Transfer} (h : t.direction = .inbound) :
    ((l.applyTransfer t).account t.account).balance.toNat
      = min ((l.account t.account).balance.toNat + t.proceeds) (Amount.size - 1) := by
  rw [account_applyTransfer, if_pos rfl, settle, h, Amount.toNat_add, Transfer.toNat_credit]

theorem charges_of_payable {tx : Transaction} (hpays : tx.cost ≤ (l.account tx.sender).balance) :
    l.Charges tx := by
  have hafter := l.balance_apply tx
  have hbound := (l.account tx.sender).balance.isLt
  -- What is taken is what was asked for, so the balance does not stop at zero.
  rw [Amount.le_iff, Transaction.toNat_cost] at hpays
  constructor
  case taken => omega
  case exact_iff => omega
  case overdue =>
    intro hover
    have hmax : Amount.max.toNat = Amount.size - 1 := rfl
    have hzero : (0 : Amount).toNat = 0 := rfl
    constructor
    · apply Amount.ext
      omega
    · apply Amount.ext
      omega
  case others =>
    intro a hother
    rw [apply, account_update, if_neg (Ne.symm hother)]

theorem settles_of_payable {t : Transfer} (hfee : t.fee ≤ t.amount)
    (hpays : t.direction = .outbound → t.debit ≤ (l.account t.account).balance) : l.Settles t := by
  constructor
  case taken =>
    intro hdirection
    have hafter := l.balance_applyTransfer_outbound hdirection
    have hcovered := hpays hdirection
    rw [Amount.le_iff, Transfer.toNat_debit] at hcovered
    omega
  case exact_iff =>
    intro hdirection
    have hafter := l.balance_applyTransfer_outbound hdirection
    have hcovered := hpays hdirection
    rw [Amount.le_iff, Transfer.toNat_debit] at hcovered
    have hsize : UInt64.size = 2 ^ 64 := rfl
    omega
  case proceeds_add =>
    rw [Transfer.proceeds]
    exact Nat.sub_add_cancel (UInt64.le_iff_toNat_le.mp hfee)
  case given_iff =>
    intro hdirection
    have hafter := l.balance_applyTransfer_inbound hdirection
    have hbound := (l.account t.account).balance.isLt
    omega
  case others =>
    intro a hother
    rw [account_applyTransfer, if_neg (Ne.symm hother)]

/-- **What is acceptable can be charged**, and is, as far as it is asked for: everything that is
due of a transaction unless that is more than the largest amount, and everything that is due of
an outbound transfer unless that is more than the largest word. Inbound transfers bring what they
move without the fee as far as the balance stays an amount. Nobody else's account changes. -/
theorem charges_of_validate (l : Ledger) :
    (∀ tx, l.backend.validate tx = .ok () → l.Charges tx) ∧
      ∀ t, l.transferBackend.validate t = .ok () → l.Settles t := by
  constructor
  · intro tx hvalid
    obtain ⟨-, hpays⟩ := transactionFault?_eq_none_iff.mp (validate_eq_ok_iff.mp hvalid)
    exact charges_of_payable hpays
  · intro t hvalid
    obtain ⟨hfields, hpays⟩ := transferFault?_eq_none_iff.mp (validateTransfer_eq_ok_iff.mp hvalid)
    have hfee : t.fee ≤ t.amount :=
      UInt64.le_of_lt (UInt64.not_le.mp fun hle => hfields.fee (Or.inr hle))
    exact settles_of_payable hfee (cannotPay_eq_false_iff.mp hpays)

/-! ## At the ends -/

/-- The transfer that leaves with the largest word, and burns a fee of one. -/
def largestDeparture : Transfer :=
  { (default : Transfer) with
    direction := .outbound, destination := Vector.replicate 32 1, amount := 18446744073709551615
    fee := 1, inputs := [default] }

/-- The transaction that pays the largest amount for each of two units of gas. -/
def dearest : Transaction := { (default : Transaction) with gasPrice := Amount.max, gasLimit := 2 }

/-- A ledger on which one account owns a given amount. -/
def funded (balance : Amount) : Ledger := (new 0 0).fund default balance

/-- A transfer that takes 60 of 100, and a transaction that costs everything, are acceptable. -/
theorem charges_of_funded :
    (funded Amount.max).backend.validate { dearest with gasLimit := 1 } = .ok () ∧
      (funded Amount.max).Charges { dearest with gasLimit := 1 } ∧
      (funded (Amount.ofNat 100)).transferBackend.validate
          { largestDeparture with amount := 50, fee := 10 } = .ok () ∧
      (funded (Amount.ofNat 100)).Settles { largestDeparture with amount := 50, fee := 10 } := by
  have hvalid : (funded Amount.max).backend.validate { dearest with gasLimit := 1 } = .ok () :=
    validate_eq_ok_iff.mpr (by decide +kernel)
  have hvalid' : (funded (Amount.ofNat 100)).transferBackend.validate
      { largestDeparture with amount := 50, fee := 10 } = .ok () :=
    validateTransfer_eq_ok_iff.mpr (by decide +kernel)
  exact ⟨hvalid, (charges_of_validate _).1 _ hvalid, hvalid', (charges_of_validate _).2 _ hvalid'⟩

/-- **What is acceptable is not always charged exactly.** An account that owns exactly what is
due of an outbound transfer keeps one of it, and an account with the largest balance pays half of
what is due of a transaction. -/
theorem exists_undercharged :
    (∃ (l : Ledger) (t : Transfer), l.transferBackend.validate t = .ok () ∧
      t.direction = .outbound ∧ (l.account t.account).balance.toNat = t.due ∧
        ((l.applyTransfer t).account t.account).balance.toNat = 1) ∧
      ∃ (l : Ledger) (tx : Transaction), l.backend.validate tx = .ok () ∧
        (l.account tx.sender).balance.toNat
          - ((l.apply tx).account tx.sender).balance.toNat < tx.due := by
  refine ⟨⟨funded (Amount.ofNat 18446744073709551616), largestDeparture, ?_, rfl, ?_, ?_⟩,
    funded Amount.max, dearest, ?_, ?_⟩
  · exact validateTransfer_eq_ok_iff.mpr (by decide +kernel)
  · decide +kernel
  · decide +kernel
  · exact validate_eq_ok_iff.mpr (by decide +kernel)
  · decide +kernel

end Ledger

end TxRelay
