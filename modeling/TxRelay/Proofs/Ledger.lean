/-
What carrying out changes, and what it cannot make wrong.

Carrying out a transaction touches the account of its sender; carrying out a
transfer touches its account and consumes its inputs. What can be wrong with a
transaction or a transfer falls into two parts: what is settled by its fields
and the consumed inputs, and whether the account can pay. Only the second part
changes while the transactions of a block are carried out.
-/
import TxRelay.Ledger

set_option autoImplicit false

namespace TxRelay

namespace Account

theorem max_nonce_le {a b n : UInt64} : max a b ≤ n ↔ a ≤ n ∧ b ≤ n := by
  show (if a ≤ b then b else a) ≤ n ↔ _
  split
  · next hle => exact ⟨fun hb => ⟨UInt64.le_trans hle hb, hb⟩, And.right⟩
  · next hle =>
    have hlt : b ≤ a := UInt64.le_of_lt (UInt64.not_le.mp hle)
    exact ⟨fun ha => ⟨ha, UInt64.le_trans hlt ha⟩, And.left⟩

/-- What a transaction does to the account of its sender. -/
def charge (x : Account) (tx : Transaction) : Account :=
  { balance := x.balance.sub tx.cost, nonce := max x.nonce (tx.nonce + 1) }

/-- What transactions cost together. -/
def totalCost : List Transaction → Nat
  | [] => 0
  | tx :: rest => tx.cost.toNat + totalCost rest

/-- Transactions take their costs, as far as there is something to take. -/
theorem balance_foldl_charge (x : Account) (txs : List Transaction) :
    (txs.foldl charge x).balance.toNat = x.balance.toNat - totalCost txs := by
  induction txs generalizing x with
  | nil => rfl
  | cons tx rest ih =>
    rw [List.foldl_cons, ih, totalCost]
    show x.balance.toNat - tx.cost.toNat - totalCost rest = _
    omega

/-- The nonce of an account ends up behind the last of its transactions. -/
theorem nonce_foldl_charge_le (x : Account) (txs : List Transaction) (n : UInt64) :
    (txs.foldl charge x).nonce ≤ n ↔ x.nonce ≤ n ∧ ∀ tx ∈ txs, tx.nonce + 1 ≤ n := by
  induction txs generalizing x with
  | nil => simp
  | cons tx rest ih =>
    rw [List.foldl_cons, ih]
    show max x.nonce (tx.nonce + 1) ≤ n ∧ _ ↔ _
    rw [max_nonce_le]
    simp [and_assoc]

/-- Of the transfers of an account those that leave move its nonce. -/
theorem nonce_foldl_settle_le (x : Account) (ts : List Transfer) (n : UInt64) :
    (ts.foldl (fun x t => Ledger.settle t x) x).nonce ≤ n ↔
      x.nonce ≤ n ∧ ∀ t ∈ ts, t.direction = .outbound → t.nonce + 1 ≤ n := by
  induction ts generalizing x with
  | nil => simp
  | cons t rest ih =>
    rw [List.foldl_cons, ih]
    cases hdirection : t.direction with
    | inbound =>
      have hsettle : (Ledger.settle t x).nonce = x.nonce := by rw [Ledger.settle, hdirection]
      rw [hsettle]
      simp [hdirection]
    | outbound =>
      have hsettle : (Ledger.settle t x).nonce = max x.nonce (t.nonce + 1) := by
        rw [Ledger.settle, hdirection]
      rw [hsettle, max_nonce_le]
      simp [hdirection, and_assoc]

end Account

namespace Ledger

variable (l : Ledger)

/-! ## Accounts -/

theorem account_update (a b : Address) (f : Account → Account) :
    (l.update a f).account b = if a = b then f (l.account a) else l.account b := by
  show (l.accounts.insert a (f (l.account a))).getD b Account.empty = _
  rw [Std.ExtTreeMap.getD_insert]
  simp only [Std.LawfulEqCmp.compare_eq_iff_eq]
  rfl

theorem account_fund (a b : Address) (amount : Amount) :
    (l.fund a amount).account b =
      if a = b then { l.account a with balance := (l.account a).balance.add amount }
      else l.account b := by
  rw [fund, account_update]

@[simp] theorem nonce_fund (a b : Address) (amount : Amount) :
    ((l.fund a amount).account b).nonce = (l.account b).nonce := by
  rw [account_fund]
  split
  · next heq => rw [← heq]
  · rfl

/-- Giving an account something leaves nobody with less. -/
theorem le_balance_fund (a b : Address) (amount : Amount) :
    (l.account b).balance ≤ ((l.fund a amount).account b).balance := by
  rw [account_fund]
  split
  · next heq =>
    rw [← heq, Amount.le_iff]
    show (l.account a).balance.toNat ≤ ((l.account a).balance.add amount).toNat
    rw [Amount.toNat_add]
    -- The sum may stop at the largest amount, which no balance exceeds.
    have hlt := (l.account a).balance.isLt
    omega
  · exact Nat.le_refl _

/-! ## Several transactions, several transfers -/

/-- The ledger after transactions and then transfers were carried out. -/
def carryOut (txs : List Transaction) (ts : List Transfer) : Ledger :=
  ts.foldl applyTransfer (txs.foldl apply l)

/-- **What transactions do to an account** is what those of the account do to it,
one after the other. -/
theorem account_foldl_apply (txs : List Transaction) (a : Address) :
    (txs.foldl apply l).account a
      = (txs.filter fun tx => tx.sender = a).foldl Account.charge (l.account a) := by
  induction txs generalizing l with
  | nil => rfl
  | cons tx rest ih =>
    rw [List.foldl_cons, ih, apply, account_update, List.filter_cons]
    -- What others do does not show in this account.
    by_cases hsender : tx.sender = a
    · rw [if_pos hsender, if_pos (decide_eq_true hsender), List.foldl_cons, ← hsender]
      rfl
    · rw [if_neg hsender, if_neg (by simpa using hsender)]

/-- **What transfers do to an account** is what those of the account do to it,
one after the other. -/
theorem account_foldl_applyTransfer (ts : List Transfer) (a : Address) :
    (ts.foldl applyTransfer l).account a
      = (ts.filter fun t => t.account = a).foldl (fun x t => settle t x) (l.account a) := by
  induction ts generalizing l with
  | nil => rfl
  | cons t rest ih =>
    rw [List.foldl_cons, ih, applyTransfer, account_update, List.filter_cons]
    by_cases haccount : t.account = a
    · rw [if_pos haccount, if_pos (decide_eq_true haccount), List.foldl_cons, ← haccount]
      rfl
    · rw [if_neg haccount, if_neg (by simpa using haccount)]
      rfl

theorem static_foldl_apply (txs : List Transaction) :
    (txs.foldl apply l).chainId = l.chainId ∧ (txs.foldl apply l).minGasPrice = l.minGasPrice ∧
      (txs.foldl apply l).consumed = l.consumed := by
  induction txs generalizing l with
  | nil => exact ⟨rfl, rfl, rfl⟩
  | cons tx rest ih => exact ih (l.apply tx)

/-! ## Inputs -/

theorem isConsumed_applyTransfer (t : Transfer) (input : Digest) :
    (l.applyTransfer t).isConsumed input = (t.inputs.contains input || l.isConsumed input) := by
  show (l.consumed.insertMany t.inputs).contains input = _
  rw [Std.ExtTreeSet.contains_insertMany_list, Bool.or_comm]
  rfl

/-- What transfers one after the other consume. -/
theorem isConsumed_foldl_applyTransfer (ts : List Transfer) (input : Digest) :
    (ts.foldl applyTransfer l).isConsumed input = true ↔
      (∃ t ∈ ts, input ∈ t.inputs) ∨ l.isConsumed input = true := by
  induction ts generalizing l with
  | nil => simp
  | cons t rest ih =>
    rw [List.foldl_cons, ih, isConsumed_applyTransfer]
    simp [or_left_comm, or_assoc]

/-- Transactions consume nothing. -/
theorem isConsumed_carryOut (txs : List Transaction) (ts : List Transfer) (input : Digest) :
    (l.carryOut txs ts).isConsumed input = true ↔
      (∃ t ∈ ts, input ∈ t.inputs) ∨ l.isConsumed input = true := by
  rw [carryOut, isConsumed_foldl_applyTransfer, isConsumed, (l.static_foldl_apply txs).2.2]
  rfl

/-! ## What is acceptable -/

/-- What the fields of a transaction settle: it is bound to the chain and pays
enough for gas. -/
structure Admits (tx : Transaction) : Prop where
  chain : tx.chainId = l.chainId
  price : ¬tx.gasPrice < l.minGasPrice

/-- What the fields of a transfer and the consumed inputs settle. -/
structure AdmitsTransfer (t : Transfer) : Prop where
  inputs : t.inputs ≠ []
  direction : t.source ≠ t.destination
  fee : ¬(t.fee = 0 ∨ t.amount ≤ t.fee)
  unconsumed : ∀ input ∈ t.inputs, l.isConsumed input = false

variable {l}

/-- **A transaction is acceptable** if its fields are and its sender can pay. -/
theorem transactionFault?_eq_none_iff {tx : Transaction} :
    l.transactionFault? tx = none ↔ l.Admits tx ∧ tx.cost ≤ (l.account tx.sender).balance := by
  -- The causes are looked for one after the other, so none is found if each is absent.
  rw [transactionFault?]
  constructor
  · intro h
    split at h
    · cases h
    next hchain =>
    split at h
    · cases h
    next hprice =>
    split at h
    · cases h
    next hfunds =>
    exact ⟨⟨Classical.not_not.mp hchain, hprice⟩, Nat.le_of_not_lt hfunds⟩
  · rintro ⟨⟨hchain, hprice⟩, hfunds⟩
    have hpays : ¬(l.account tx.sender).balance < tx.cost := Nat.not_lt_of_le hfunds
    rw [if_neg (fun hne => hne hchain), if_neg hprice, if_neg hpays]

/-- **A transfer is acceptable** if its fields and inputs are and its account
can pay. -/
theorem transferFault?_eq_none_iff {t : Transfer} :
    l.transferFault? t = none ↔ l.AdmitsTransfer t ∧ l.cannotPay t = false := by
  rw [transferFault?]
  constructor
  · intro h
    split at h
    · cases h
    next hinputs =>
    split at h
    · cases h
    next hdirection =>
    split at h
    · cases h
    next hfee =>
    split at h
    · cases h
    next hfind =>
    split at h
    · cases h
    next hpay =>
    refine ⟨⟨fun hnil => hinputs (by rw [hnil]; rfl), hdirection, hfee, fun input hmem => ?_⟩, ?_⟩
    · exact Bool.eq_false_iff.mpr (List.find?_eq_none.mp hfind input hmem)
    · exact Bool.eq_false_iff.mpr hpay
  · rintro ⟨⟨hinputs, hdirection, hfee, hunconsumed⟩, hpay⟩
    have hfind : t.inputs.find? l.isConsumed = none :=
      List.find?_eq_none.mpr fun input hmem => by simp [hunconsumed input hmem]
    have hempty : ¬t.inputs.isEmpty = true := fun h => hinputs (List.isEmpty_iff.mp h)
    rw [if_neg hempty, if_neg hdirection, if_neg hfee, hfind, hpay]
    rfl

/-- Only what leaves has to be paid for. -/
theorem cannotPay_eq_false_iff {t : Transfer} :
    l.cannotPay t = false ↔ (t.direction = .outbound → t.debit ≤ (l.account t.account).balance) := by
  rw [cannotPay]
  cases t.direction with
  | inbound => simp
  | outbound =>
    constructor
    · exact fun hpay _ => Nat.le_of_not_lt (of_decide_eq_false hpay)
    · exact fun hpay => decide_eq_false (Nat.not_lt_of_le (hpay rfl))

theorem validate_eq_ok_iff {tx : Transaction} :
    l.backend.validate tx = .ok () ↔ l.transactionFault? tx = none := by
  rw [backend]
  dsimp only
  split
  · next hnone => simp [hnone]
  · next fault hfault => simp [hfault]

theorem validateTransfer_eq_ok_iff {t : Transfer} :
    l.transferBackend.validate t = .ok () ↔ l.transferFault? t = none := by
  rw [transferBackend]
  dsimp only
  split
  · next hnone => simp [hnone]
  · next fault hfault => simp [hfault]

/-! ## What stays acceptable -/

/-- What is acceptable stays so when somebody is given something. -/
theorem transactionFault?_fund {tx : Transaction} (h : l.transactionFault? tx = none) (a : Address)
    (amount : Amount) : (l.fund a amount).transactionFault? tx = none := by
  obtain ⟨hfields, hfunds⟩ := transactionFault?_eq_none_iff.mp h
  exact transactionFault?_eq_none_iff.mpr
    ⟨⟨hfields.chain, hfields.price⟩, Nat.le_trans hfunds (l.le_balance_fund a tx.sender amount)⟩

theorem transferFault?_fund {t : Transfer} (h : l.transferFault? t = none) (a : Address)
    (amount : Amount) : (l.fund a amount).transferFault? t = none := by
  obtain ⟨hfields, hpay⟩ := transferFault?_eq_none_iff.mp h
  refine transferFault?_eq_none_iff.mpr
    ⟨⟨hfields.inputs, hfields.direction, hfields.fee, hfields.unconsumed⟩, ?_⟩
  rw [cannotPay_eq_false_iff] at hpay ⊢
  exact fun hdirection => Nat.le_trans (hpay hdirection) (l.le_balance_fund a t.account amount)

end Ledger

end TxRelay
