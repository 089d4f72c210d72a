/-
The order of a block.

A block goes through the executable transactions account by account, in the order in which the
map of them happens to yield its accounts. That order does not show. A transaction touches the
account of its sender only, and the transactions of a sender are all in one entry, one nonce
after the other. So whatever the order, an account sees the same transactions in the same order,
and the ledger ends up the same. The rest of the block looks at the ledger and the transfer pool
and never at the map again.

The transfers of a block come from an unordered collection as well, but they are ranked by fee
and then by arrival, and no two of them arrived at the same time.
-/
import TxRelay.Proofs.Handover
import TxRelay.Proofs.NonceRange

set_option autoImplicit false

namespace TxRelay

/-! ## Accounts -/

theorem Account.toNat_nonce_charge (x : Account) {tx : Transaction}
    (hfits : tx.nonce.toNat + 1 < UInt64.size) :
    (x.charge tx).nonce.toNat = max x.nonce.toNat (tx.nonce.toNat + 1) := by
  have hnext : (tx.nonce + 1).toNat = tx.nonce.toNat + 1 := by
    rw [UInt64.toNat_add, UInt64.toNat_one]
    exact Nat.mod_eq_of_lt hfits
  show (if x.nonce ≤ tx.nonce + 1 then tx.nonce + 1 else x.nonce).toNat = _
  split
  · next hle =>
    rw [UInt64.le_iff_toNat_le, hnext] at hle
    rw [hnext]
    omega
  · next hnot =>
    rw [UInt64.le_iff_toNat_le, hnext] at hnot
    omega

/-- **One nonce after the other**, transactions move their account by one each. -/
theorem Account.toNat_nonce_foldl_charge {x : Account} {txs : List Transaction}
    (hrun : (txs.map fun tx => tx.nonce.toNat) = List.range' x.nonce.toNat txs.length)
    (hfits : ∀ tx ∈ txs, tx.nonce.toNat + 1 < UInt64.size) :
    (txs.foldl charge x).nonce.toNat = x.nonce.toNat + txs.length := by
  induction txs generalizing x with
  | nil => rfl
  | cons tx rest ih =>
    rw [List.map_cons, List.length_cons, List.range'_succ, List.cons.injEq] at hrun
    obtain ⟨hfirst, hrest⟩ := hrun
    have hcharged : (x.charge tx).nonce.toNat = x.nonce.toNat + 1 := by
      rw [toNat_nonce_charge x (hfits tx List.mem_cons_self)]
      omega
    rw [← hcharged] at hrest
    rw [List.foldl_cons, ih hrest fun tx' htx' => hfits tx' (List.mem_cons_of_mem _ htx'), hcharged,
      List.length_cons]
    omega

/-- Transfers that come in do not move it. -/
theorem Account.nonce_foldl_settle_of_inbound (x : Account) {ts : List Transfer}
    (h : ∀ t ∈ ts, t.direction = .inbound) :
    (ts.foldl (fun x t => Ledger.settle t x) x).nonce = x.nonce := by
  induction ts generalizing x with
  | nil => rfl
  | cons t rest ih =>
    obtain ⟨hfirst, hrest⟩ := List.forall_mem_cons.mp h
    have hsettle : (Ledger.settle t x).nonce = x.nonce := by rw [Ledger.settle, hfirst]
    rw [List.foldl_cons, ih _ hrest, hsettle]

namespace Ledger

/-- An account comes to be listed with the first of its transactions. -/
theorem getElem?_foldl_apply (l : Ledger) (txs : List Transaction) (a : Address) :
    (txs.foldl apply l).accounts[a]?
      = if (txs.filter fun tx => tx.sender = a) = [] then l.accounts[a]?
        else some ((txs.filter fun tx => tx.sender = a).foldl Account.charge (l.account a)) := by
  induction txs generalizing l with
  | nil => rfl
  | cons tx rest ih =>
    have hlisted : (l.apply tx).accounts[a]?
        = if tx.sender = a then some ((l.account tx.sender).charge tx) else l.accounts[a]? :=
      Entries.getElem?_insert _ _ _ _
    rw [List.foldl_cons, ih, hlisted, apply, account_update]
    by_cases hsender : tx.sender = a
    · have hfilter : ((tx :: rest).filter fun tx => tx.sender = a)
          = tx :: rest.filter fun tx => tx.sender = a := List.filter_cons_of_pos (decide_eq_true hsender)
      rw [hfilter, if_pos hsender, if_pos hsender, if_neg (List.cons_ne_nil _ _), List.foldl_cons,
        hsender]
      split
      · next hnone =>
        rw [hnone]
        rfl
      · rfl
    · have hfilter : ((tx :: rest).filter fun tx => tx.sender = a)
          = rest.filter fun tx => tx.sender = a := List.filter_cons_of_neg (by simpa using hsender)
      rw [hfilter, if_neg hsender, if_neg hsender]

/-- **What counts is the order within each account.** -/
theorem foldl_apply_congr (l : Ledger) {txs txs' : List Transaction}
    (h : ∀ a, (txs.filter fun tx => tx.sender = a) = txs'.filter fun tx => tx.sender = a) :
    txs.foldl apply l = txs'.foldl apply l := by
  have haccounts : (txs.foldl apply l).accounts = (txs'.foldl apply l).accounts := by
    apply Std.ExtTreeMap.ext_getElem?
    intro a
    rw [getElem?_foldl_apply, getElem?_foldl_apply, h a]
  obtain ⟨hchain, hprice, hconsumed⟩ := l.static_foldl_apply txs
  obtain ⟨hchain', hprice', hconsumed'⟩ := l.static_foldl_apply txs'
  rw [Ledger.mk.injEq]
  exact ⟨hchain.trans hchain'.symm, hprice.trans hprice'.symm, haccounts,
    hconsumed.trans hconsumed'.symm⟩

end Ledger

namespace Node

variable {n : Node}

/-! ## Orders -/

/-- **An order of the accounts**: all entries of the map of executable transactions, in any
order. -/
def Yields (n : Node) (entries : List (Address × List Transaction)) : Prop :=
  entries.Perm (n.pool.pending n.poolViews none).toList

/-- What is executable in an order of the accounts. -/
def inTurn (entries : List (Address × List Transaction)) : List (List Transaction) :=
  entries.map Prod.snd

/-- A block that goes through the accounts in an order. -/
def advanceBy (n : Node) (entries : List (Address × List Transaction)) (timestamp salt : UInt64) :
    Node :=
  (n.execute (inTurn entries) timestamp salt).follow

/-- **The order does not show** (`Node::advance_chain`). -/
structure Unordered (n : Node) : Prop where
  /-- A block leaves behind the same node in every order of the accounts: the same accounts and
  consumed inputs, and the same in both pools. -/
  advance_eq : ∀ entries, n.Yields entries → ∀ timestamp salt,
    n.advanceBy entries timestamp salt = n.advance timestamp salt
  /-- There is only one order of the transfers. -/
  picked_eq : ∀ order, n.mempool.store.Ranked order → order.map PooledTransfer.tx = n.picked
  /-- The ordinary part of the block comes first: the ledger behind the block is what the
  transfers make of the ledger behind the transactions. -/
  ledger_eq : ∀ entries, n.Yields entries → ∀ timestamp salt,
    (n.advanceBy entries timestamp salt).ledger
      = n.picked.foldl Ledger.applyTransfer (n.ledger.carryOut (inTurn entries).flatten [])
  /-- If the transactions have nonces with successors, the ordinary part moves every account by
  as many as there are of it. -/
  nonce_eq : (∀ tx ∈ n.charged, tx.nonce.toNat + 1 < UInt64.size) →
    ∀ entries, n.Yields entries → ∀ a,
      ((n.ledger.carryOut (inTurn entries).flatten []).account a).nonce.toNat
        = (n.nonceOf a).toNat + countOf n.charged a
  /-- So does the whole block, if no transfer of the account goes out. -/
  nonce_advance : (∀ tx ∈ n.charged, tx.nonce.toNat + 1 < UInt64.size) →
    ∀ entries, n.Yields entries → ∀ timestamp salt a,
      (∀ t ∈ n.picked, t.account = a → t.direction = .inbound) →
        ((n.advanceBy entries timestamp salt).nonceOf a).toNat
          = (n.nonceOf a).toNat + countOf n.charged a
  /-- If some do, the account gets behind the last of them as well: its nonce is the largest of
  all these. -/
  nonce_advance_le_iff : (∀ tx ∈ n.charged, tx.nonce.toNat + 1 < UInt64.size) →
    ∀ entries, n.Yields entries → ∀ timestamp salt a bound,
      (n.advanceBy entries timestamp salt).nonceOf a ≤ bound ↔
        (n.nonceOf a).toNat + countOf n.charged a ≤ bound.toNat ∧
          ∀ t ∈ n.picked, t.account = a → t.direction = .outbound → t.nonce + 1 ≤ bound

theorem filter_inTurn (h : n.pool.Orderly) {entries : List (Address × List Transaction)}
    (hyields : n.Yields entries) (a : Address) :
    ((inTurn entries).flatten.filter fun tx => tx.sender = a)
      = n.charged.filter fun tx => tx.sender = a := by
  rw [charged, executable, Entries.values_eq_map_toList, inTurn,
    AccountTxs.filter_flatten_of_perm (sender_of_pending h) hyields a,
    AccountTxs.filter_flatten_of_perm (sender_of_pending h) (List.Perm.refl _) a]

theorem nonce_foldl_charged (h : n.pool.Orderly)
    (hfits : ∀ tx ∈ n.charged, tx.nonce.toNat + 1 < UInt64.size) (a : Address) :
    ((n.charged.foldl Ledger.apply n.ledger).account a).nonce.toNat
      = (n.nonceOf a).toNat + countOf n.charged a := by
  have hrun := nonces_charged_eq h a
  rw [countOf, List.countP_eq_length_filter] at hrun ⊢
  rw [Ledger.account_foldl_apply]
  apply Account.toNat_nonce_foldl_charge hrun
  intro tx htx
  exact hfits tx (List.mem_filter.mp htx).1

/-- A node whose accounts are exclusive and whose transfer pool is in step does not show the
order. -/
theorem unordered (h : n.pool.Orderly) (hc : n.mempool.store.Coherent) : n.Unordered := by
  have hledger : ∀ entries, n.Yields entries →
      (inTurn entries).flatten.foldl Ledger.apply n.ledger = n.charged.foldl Ledger.apply n.ledger :=
    fun entries hyields => n.ledger.foldl_apply_congr (filter_inTurn h hyields)
  have hfollow : ∀ entries timestamp salt, (n.advanceBy entries timestamp salt).ledger
      = n.picked.foldl Ledger.applyTransfer (n.ledger.carryOut (inTurn entries).flatten []) :=
    fun _ _ _ => rfl
  have hnonce : (∀ tx ∈ n.charged, tx.nonce.toNat + 1 < UInt64.size) →
      ∀ entries, n.Yields entries → ∀ a,
        ((n.ledger.carryOut (inTurn entries).flatten []).account a).nonce.toNat
          = (n.nonceOf a).toNat + countOf n.charged a := by
    intro hfits entries hyields a
    show (((inTurn entries).flatten.foldl Ledger.apply n.ledger).account a).nonce.toNat = _
    rw [hledger entries hyields]
    exact nonce_foldl_charged h hfits a
  constructor
  case advance_eq =>
    intro entries hyields timestamp salt
    rw [advanceBy, advance, execute, execute, hledger entries hyields]
    rfl
  case picked_eq =>
    intro order horder
    rw [horder.unique hc.ranked_byFee, picked, Mempool.propose, List.take_of_length_le]
    exact TransferStore.length_byFee_le _
  case ledger_eq => exact fun entries _ => hfollow entries
  case nonce_eq => exact hnonce
  case nonce_advance =>
    intro hfits entries hyields timestamp salt a hinbound
    rw [nonceOf, hfollow, Ledger.account_foldl_applyTransfer, Account.nonce_foldl_settle_of_inbound]
    · exact hnonce hfits entries hyields a
    · intro t ht
      obtain ⟨hpicked, haccount⟩ := List.mem_filter.mp ht
      exact hinbound t hpicked (of_decide_eq_true haccount)
  case nonce_advance_le_iff =>
    intro hfits entries hyields timestamp salt a bound
    rw [nonceOf, hfollow, Ledger.account_foldl_applyTransfer, Account.nonce_foldl_settle_le,
      UInt64.le_iff_toNat_le, hnonce hfits entries hyields a]
    simp [List.mem_filter]

/-! ## Runs -/

/-- A step leaves the transfer pool in step. -/
theorem Intact.step (h : n.Intact) (s : Step) : (n.step s).Intact := by
  cases s with
  | happens event => exact h.react event
  | execute timestamp salt =>
    have hadvanced := h.advance timestamp salt
    exact ⟨hadvanced.coherent, hadvanced.unspent⟩
  | follow => exact ⟨h.coherent, h.unspent⟩

theorem Intact.walk (h : n.Intact) (steps : List Step) : (n.walk steps).Intact := by
  induction steps generalizing n with
  | nil => exact h
  | cons s rest ih => exact ih (h.step s)

/-- **Blocks do not depend on the order** in which the executable transactions yield their
accounts, whatever has happened to a new node. -/
theorem unordered_of_steps {id : NodeId} {s : NodeSettings} {salts transferSalts : Nat → Salt} {n₀ : Node}
    (hnew : Node.new id s salts transferSalts = .ok n₀) (steps : List Step) :
    (n₀.walk steps).Unordered :=
  unordered (orderly_walk (poolsReady_new hnew).pool.orderly steps)
    ((intact_new hnew).walk steps).coherent

/-- A transaction of somebody else. -/
def costlyToo : Transaction := { costly 0 with sender := Vector.replicate 20 1 }

/-- Two accounts own something and offer a transaction each. -/
def bothOffer : List Step :=
  [.happens (.happens (.fund default (Amount.ofNat 100))),
    .happens (.happens (.fund costlyToo.sender (Amount.ofNat 100))),
    .happens (.happens (.traffic (.submit (costly 0)))),
    .happens (.happens (.traffic (.submit costlyToo)))]

/-- With two accounts there is another order. -/
theorem unordered_of_two :
    ∃ n₀, least = .ok n₀ ∧ (n₀.walk bothOffer).charged = [costly 0, costlyToo] ∧
      (∃ entries, (n₀.walk bothOffer).Yields entries ∧
        (inTurn entries).flatten = [costlyToo, costly 0]) ∧
      (n₀.walk bothOffer).Unordered := by
  have hoffered : ∃ n₀, least = .ok n₀ ∧
      ((n₀.walk bothOffer).pool.pending (n₀.walk bothOffer).poolViews none).toList
        = [((costly 0).sender, [costly 0]), (costlyToo.sender, [costlyToo])] := by
    decide +kernel
  obtain ⟨n₀, hn₀, hlisted⟩ := hoffered
  refine ⟨n₀, hn₀, ?_, ⟨[(costlyToo.sender, [costlyToo]), ((costly 0).sender, [costly 0])], ?_, rfl⟩,
    unordered_of_steps hn₀ bothOffer⟩
  · rw [charged, executable, Entries.values_eq_map_toList, hlisted]
    rfl
  · rw [Yields, hlisted]
    exact List.Perm.swap _ _ _

end Node

end TxRelay
