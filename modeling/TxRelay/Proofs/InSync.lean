/-
A node after a block.

Whoever makes a block waits until the pool of ordinary transactions has followed
the chain. Then the pool is on the new head and holds what it held before, but
for what is behind its sender by now or not acceptable any more. What the block
has carried out is behind its sender, since its nonce went up past it. The
transfers that were carried out left their pool before, and the others were not
touched. An account of which nothing is left belongs to nobody.

None of this depends on what the pools went through before, as long as every
earlier block was waited for.
-/
import TxRelay.Proofs.DoubleSpend
import TxRelay.Proofs.Handover
import TxRelay.Proofs.Queries

set_option autoImplicit false

namespace TxRelay

namespace Ledger

/-- **What is carried out is behind its sender**, unless its nonce is the last
one there is. -/
theorem nonce_lt_carryOut (l : Ledger) {txs : List Transaction} {tx : Transaction} (htx : tx ∈ txs)
    (hfits : tx.nonce.toNat + 1 < UInt64.size) (ts : List Transfer) :
    tx.nonce < ((l.carryOut txs ts).account tx.sender).nonce := by
  have hnext : tx.nonce < tx.nonce + 1 := by
    rw [UInt64.lt_iff_toNat_lt, UInt64.toNat_add, UInt64.toNat_one, Nat.mod_eq_of_lt hfits]
    exact Nat.lt_succ_self _
  -- The nonce of the account moves past its transactions, and never back.
  have hcharged : tx.nonce + 1 ≤ ((txs.foldl apply l).account tx.sender).nonce := by
    rw [account_foldl_apply]
    refine ((Account.nonce_foldl_charge_le _ _ _).mp UInt64.le_rfl).2 tx ?_
    exact List.mem_filter.mpr ⟨htx, decide_eq_true rfl⟩
  have hsettled : ((txs.foldl apply l).account tx.sender).nonce
      ≤ ((l.carryOut txs ts).account tx.sender).nonce := by
    rw [carryOut, account_foldl_applyTransfer]
    exact ((Account.nonce_foldl_settle_le _ _ _).mp UInt64.le_rfl).1
  exact UInt64.lt_of_lt_of_le hnext (UInt64.le_trans hcharged hsettled)

end Ledger

namespace Coordinator

variable {c : Coordinator NoncePool}

/-- An account belongs to nobody exactly if nothing of it is held. -/
theorem Orderly.owner_eq_none_iff (h : c.Orderly) (a : Address) :
    c.commons.reservations.owner? a = none ↔ ∀ p ∈ c.pools, ¬p.holdings.HoldsFrom a := by
  have howner := NoncePool.Exclusive.owner_iff h a
  constructor
  · intro hnone p hp hheld
    obtain ⟨i, hi⟩ := List.mem_iff_getElem?.mp hp
    have hown := (howner i).mpr ⟨p, hi, hheld⟩
    rw [hnone] at hown
    cases hown
  · intro hfree
    cases hown : c.commons.reservations.owner? a with
    | none => rfl
    | some i =>
      obtain ⟨p, hp, hheld⟩ := (howner i).mp hown
      exact absurd hheld (hfree p (List.mem_of_getElem? hp))

end Coordinator

namespace Node

/-! ## What the pools went through -/

/-- The pool of ordinary transactions has followed the chain, and the indices of
both pools are in step. -/
structure InStep (n : Node) : Prop where
  orderly : n.pool.Orderly
  rest : n.pool.loop.AtRest n.head
  coherent : n.mempool.store.Coherent

/-- Whether an event comes to an end. -/
def Concludes (n : Node) : Event → Prop
  | .happens action => n.Returns action
  | _ => True

/-- Each of several events comes to an end. -/
def AllConclude (n : Node) : List Event → Prop
  | [] => True
  | event :: rest => n.Concludes event ∧ (n.react event).AllConclude rest

/-- Adding keeps the pools in step. -/
theorem kept_inStep (l : Ledger) (head : Header) :
    Kept l (fun c => c.Orderly ∧ c.loop.AtRest head) TransferStore.Coherent where
  add _ _ isLocal hc := ⟨hc.1.add _ _ isLocal false, hc.2⟩
  bus _ _ hc := ⟨hc.1, hc.2⟩
  offer _ tx isLocal hm := Mempool.coherent_add hm _ tx isLocal

section
variable {n : Node}

theorem InStep.take (h : n.InStep) (t : Traffic) : (n.take t).InStep := by
  have hstands : n.Stands (fun c => c.Orderly ∧ c.loop.AtRest n.head) TransferStore.Coherent
      n.ledger n.head := ⟨⟨h.orderly, h.rest⟩, h.coherent, rfl, rfl⟩
  have htaken := hstands.take (kept_inStep n.ledger n.head) t
  obtain ⟨horderly, hrest⟩ := htaken.pool
  rw [← htaken.head_eq] at hrest
  exact ⟨horderly, hrest, htaken.mempool⟩

/-- **A block** that was waited for leaves the pools in step. -/
theorem InStep.advance (h : n.InStep) {timestamp salt : UInt64}
    (hreturns : n.Returns (.advance timestamp salt)) : (n.advance timestamp salt).InStep :=
  ⟨h.orderly.follow _ _, (Coordinator.follow_of_atRest h.rest hreturns).2.1,
    Mempool.coherent_confirm (Mempool.coherent_propose h.coherent _) _⟩

theorem InStep.react (h : n.InStep) {event : Event} (hconcludes : n.Concludes event) :
    (n.react event).InStep := by
  cases event with
  | happens action =>
    cases action with
    | traffic t => exact h.take t
    | fund a amount => exact ⟨h.orderly, h.rest, h.coherent⟩
    | advance timestamp salt => exact h.advance hconcludes
  | propose max => exact ⟨h.orderly, h.rest, Mempool.coherent_propose h.coherent max⟩
  | confirm ids => exact ⟨h.orderly, h.rest, Mempool.coherent_confirm h.coherent ids⟩
  | rollback ids => exact ⟨h.orderly, h.rest, Mempool.coherent_rollback h.coherent ids⟩
  | discard id reason => exact ⟨h.orderly, h.rest, Mempool.coherent_discard h.coherent id reason⟩

/-- **Whatever happens** leaves the pools in step, if it comes to an end. -/
theorem InStep.history (h : n.InStep) {events : List Event} (hconclude : n.AllConclude events) :
    (events.foldl Node.react n).InStep := by
  induction events generalizing n with
  | nil => exact h
  | cons event rest ih => exact ih (h.react hconclude.1) hconclude.2

theorem inStep_new {id : NodeId} {s : NodeSettings} {salts transferSalts : Nat → Salt}
    (hnew : Node.new id s salts transferSalts = .ok n) : n.InStep := by
  have h := poolsReady_new hnew
  exact ⟨h.pool.orderly, h.pool.rest, h.mempool.coherent⟩

end

/-! ## What a block leaves behind -/

/-- A transaction is acceptable to a ledger and not behind its sender. -/
def Current (l : Ledger) (tx : Transaction) : Prop :=
  l.backend.validate tx = .ok () ∧ ¬tx.nonce < (l.account tx.sender).nonce

/-- **A node is in sync** after a block that began with another one, which has carried out
given transactions and transfers (`Node::advance_chain`). -/
structure InSync (n : Node) (charged : List Transaction) (picked : List Transfer) (head : Header)
    (n' : Node) : Prop where
  ledger_eq : n'.ledger = n.ledger.carryOut charged picked
  /-- The pool is on the head of the chain. -/
  head_eq : n'.head = head ∧ n'.pool.head = head
  /-- Nothing that was carried out is pooled, -/
  charged_gone : ∀ tx ∈ charged, ¬n'.pool.Holds tx
  picked_gone : ∀ t ∈ picked, n'.mempool.has t.id = false
  /-- and everything that is can still be carried out. -/
  current : ∀ tx, n'.pool.Holds tx → Current n'.ledger tx
  /-- What can still be carried out is held by the same sub-pool as before, as it
  was; and nothing else is held. -/
  length_eq : n'.pool.pools.length = n.pool.pools.length
  held_iff : ∀ (i : Nat) (p p' : NoncePool), n.pool.pools[i]? = some p →
    n'.pool.pools[i]? = some p' → ∀ (hash : Digest) (q : Pooled),
      (p'.holdings.get? hash = some q ↔ p.holdings.get? hash = some q ∧ Current n'.ledger q.tx)
  /-- Other transfers stay in their pool as they were. -/
  transfers_kept : ∀ id, id ∉ picked.map Transfer.id →
    n'.mempool.store.get? id = n.mempool.store.get? id
  /-- Accounts without transactions belong to nobody. -/
  unreserved : ∀ a, n'.pool.commons.reservations.owner? a = none ↔
    ∀ p ∈ n'.pool.pools, ¬p.holdings.HoldsFrom a

section
variable {n : Node}

/-- **A block leaves the node in sync.** -/
theorem InStep.inSync (h : n.InStep) {timestamp salt : UInt64}
    (hreturns : n.Returns (.advance timestamp salt))
    (hfits : ∀ tx ∈ n.charged, tx.nonce.toNat + 1 < UInt64.size) :
    n.InSync n.charged n.picked (n.head.child timestamp salt) (n.advance timestamp salt) := by
  have hheld : ∀ (i : Nat) (p p' : NoncePool), n.pool.pools[i]? = some p →
      (n.advance timestamp salt).pool.pools[i]? = some p' → ∀ (hash : Digest) (q : Pooled),
        (p'.holdings.get? hash = some q ↔ p.holdings.get? hash = some q ∧
          Current (n.advance timestamp salt).ledger q.tx) :=
    fun i p p' hp hp' hash q => Coordinator.get?_follow h.orderly h.rest hreturns hp hp'
  have hlength : (n.advance timestamp salt).pool.pools.length = n.pool.pools.length :=
    Coordinator.length_follow h.rest hreturns
  -- Whatever is held now was held in its place before, and is current.
  have hcurrent : ∀ tx, (n.advance timestamp salt).pool.Holds tx →
      Current (n.advance timestamp salt).ledger tx := by
    rintro tx ⟨p', hp', hget⟩
    obtain ⟨i, hi⟩ := List.mem_iff_getElem?.mp hp'
    obtain ⟨q, hq, rfl⟩ := Option.map_eq_some_iff.mp hget
    have hlt : i < n.pool.pools.length := hlength ▸ (List.getElem?_eq_some_iff.mp hi).1
    exact ((hheld i _ p' (List.getElem?_eq_getElem hlt) hi _ q).mp hq).2
  refine ⟨rfl, ⟨rfl, (Coordinator.follow_of_atRest h.rest hreturns).2.2⟩, fun tx htx hholds => ?_,
    fun t ht => ?_, hcurrent, hlength, hheld, fun id hnot => ?_, fun a => ?_⟩
  · exact (hcurrent tx hholds).2 (n.ledger.nonce_lt_carryOut htx (hfits tx htx) n.picked)
  · refine Bool.eq_false_iff.mpr fun hhas => ?_
    obtain ⟨e, he⟩ := Mempool.exists_get?_of_has hhas
    exact (Mempool.get?_confirm_proposed h.coherent he).2 (List.mem_map_of_mem ht)
  · exact Mempool.get?_confirm_of_not_proposed h.coherent hnot
  · exact (h.orderly.follow _ _).owner_eq_none_iff a

end

/-- **A block leaves the node in sync**, after whatever has happened to it and
whatever was done to its transfer pool in between, if every earlier block was
waited for. -/
theorem inSync_of_history {id : NodeId} {s : NodeSettings} {salts transferSalts : Nat → Salt}
    {n₀ : Node} (hnew : Node.new id s salts transferSalts = .ok n₀) (events : List Event)
    (hconclude : n₀.AllConclude events) (timestamp salt : UInt64)
    (hreturns : (events.foldl react n₀).Returns (.advance timestamp salt))
    (hfits : ∀ tx ∈ (events.foldl react n₀).charged, tx.nonce.toNat + 1 < UInt64.size) :
    (events.foldl react n₀).InSync (events.foldl react n₀).charged (events.foldl react n₀).picked
      ((events.foldl react n₀).head.child timestamp salt)
      ((events.foldl react n₀).advance timestamp salt) :=
  ((inStep_new hnew).history hconclude).inSync hreturns hfits

theorem returns_least {n₀ : Node} (hn₀ : least = .ok n₀) : (n₀.head.child 0 0).hash ≠ n₀.head.hash := by
  have hleast : ∃ n, least = .ok n ∧ (n.head.child 0 0).hash ≠ n.head.hash := by decide +kernel
  obtain ⟨n, hn, hne⟩ := hleast
  obtain rfl : n₀ = n := Except.ok.inj (hn₀.symm.trans hn)
  exact hne

/-- Two transactions are offered, and after the block neither is pooled. -/
theorem inSync_of_overdraft :
    ∃ n₀ n, least = .ok n₀ ∧ n = (overdraft.map Event.happens).foldl react n₀ ∧
      n.charged = [costly 0, costly 1] ∧
      n.InSync n.charged n.picked (n.head.child 0 0) (n.advance 0 0) := by
  obtain ⟨n₀, hn₀, _, hcharged, _⟩ := least_offer
  -- The head is still the first one.
  have hhead : (n₀.run overdraft).head = n₀.head := by
    show (((n₀.fund default (Amount.ofNat 100)).take (.submit (costly 0))).take (.submit (costly 1))).head
      = _
    rw [(chain_take _ _).2, (chain_take _ _).2]
    rfl
  have hreturns : (n₀.run overdraft).Returns (.advance 0 0) := by
    show ((n₀.run overdraft).head.child 0 0).hash ≠ (n₀.run overdraft).head.hash
    rw [hhead]
    exact returns_least hn₀
  have hsame : (overdraft.map Event.happens).foldl react n₀ = n₀.run overdraft := by
    rw [List.foldl_map]
    rfl
  have hconclude : n₀.AllConclude (overdraft.map Event.happens) := ⟨trivial, trivial, trivial, trivial⟩
  have hfits : ∀ tx ∈ (n₀.run overdraft).charged, tx.nonce.toNat + 1 < UInt64.size := by
    rw [hcharged]
    decide
  refine ⟨n₀, _, hn₀, rfl, ?_, ?_⟩
  · rw [hsame, hcharged]
  · exact inSync_of_history hn₀ _ hconclude 0 0 (hsame ▸ hreturns) (hsame ▸ hfits)

end Node

end TxRelay
