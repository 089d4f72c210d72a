/-
What a block contains.

Between blocks everything pooled is acceptable to the ledger and not behind its
account: it was when it was let in, funding takes nothing away from anybody,
and after a block the pools have followed. So whatever a block carries out was
acceptable on its own when the block began.

Inside a block that may change. Transactions of one account are carried out in
the order of their nonces, each at the nonce of the account; but an account
that can pay for each of two transactions need not be able to pay for both, and
a transfer may come too late for its nonce. The ledger carries them out all
the same.
-/
import TxRelay.Proofs.Following
import TxRelay.Proofs.Ledger
import TxRelay.Proofs.Mempool
import TxRelay.Proofs.Pending
import TxRelay.Proofs.Traffic

set_option autoImplicit false

namespace TxRelay

/-- Whether something comes out, with a property that can be decided. -/
instance decidableExistsOk {ε α : Type} (e : Except ε α) (P : α → Prop) [DecidablePred P] :
    Decidable (∃ x, e = .ok x ∧ P x) :=
  match e with
  | .ok x => decidable_of_iff (P x) ⟨fun h => ⟨x, rfl, h⟩, fun ⟨_, heq, h⟩ => Except.ok.inj heq ▸ h⟩
  | .error _ => .isFalse nofun

/-! ## One account in a block -/

/-- In an unbroken run each transaction finds the account at its nonce. -/
theorem Account.nonce_foldl_charge_of_run {x : Account} {pre post : List Transaction}
    {tx : Transaction} (hrun : Consecutive x.nonce (pre ++ tx :: post))
    (hup : (pre ++ tx :: post).Pairwise fun tx tx' => tx.nonce < tx'.nonce) :
    (pre.foldl charge x).nonce = tx.nonce := by
  induction pre generalizing x with
  | nil => exact hrun.1.symm
  | cons first rest ih =>
    obtain ⟨hfirst, hrest⟩ := hrun
    obtain ⟨hlt, hup'⟩ := List.pairwise_cons.mp hup
    -- The next nonce is a larger one, so moving past the first did not wrap around.
    have hnext : x.nonce < x.nonce + 1 := by
      cases rest with
      | nil =>
        have hle := hlt tx List.mem_cons_self
        rwa [hfirst, hrest.1] at hle
      | cons second rest =>
        have hle := hlt second List.mem_cons_self
        rwa [hfirst, hrest.1] at hle
    have hcharged : (x.charge first).nonce = x.nonce + 1 := by
      show max x.nonce (first.nonce + 1) = _
      rw [hfirst]
      exact if_pos (UInt64.le_of_lt hnext)
    refine ih ?_ hup'
    rw [hcharged]
    exact hrest

namespace Ledger

/-- A transaction is acceptable and not behind its sender (`TypedBackend::validate`). -/
structure Ready (l : Ledger) (tx : Transaction) : Prop where
  faultless : l.transactionFault? tx = none
  ahead : ¬tx.nonce < (l.account tx.sender).nonce

/-- A transfer is acceptable and not behind its account (`InMemoryState::validate`). -/
structure ReadyTransfer (l : Ledger) (t : Transfer) : Prop where
  faultless : l.transferFault? t = none
  ahead : ¬t.nonce < (l.account t.account).nonce

variable {l : Ledger}

theorem Ready.fund {tx : Transaction} (h : l.Ready tx) (a : Address) (amount : Amount) :
    (l.fund a amount).Ready tx :=
  ⟨transactionFault?_fund h.faultless a amount, by rw [nonce_fund]; exact h.ahead⟩

theorem ReadyTransfer.fund {t : Transfer} (h : l.ReadyTransfer t) (a : Address) (amount : Amount) :
    (l.fund a amount).ReadyTransfer t :=
  ⟨transferFault?_fund h.faultless a amount, by rw [nonce_fund]; exact h.ahead⟩

theorem ready_of_backend {tx : Transaction} (hvalid : l.backend.validate tx = .ok ())
    (hahead : ¬tx.nonce < l.backend.nonce tx.sender) : l.Ready tx :=
  ⟨validate_eq_ok_iff.mp hvalid, hahead⟩

theorem readyTransfer_of_backend {t : Transfer} (hvalid : l.transferBackend.validate t = .ok ())
    (hahead : ¬t.nonce < l.transferBackend.nonce t.account) : l.ReadyTransfer t :=
  ⟨validateTransfer_eq_ok_iff.mp hvalid, hahead⟩

end Ledger

namespace Node

/-! ## What the pools are ready for -/

/-- The pool of ordinary transactions has followed the chain to a head, and
everything in it can go into a block. -/
structure PoolReady (l : Ledger) (head : Header) (c : Coordinator NoncePool) : Prop where
  orderly : c.Orderly
  rest : c.loop.AtRest head
  ready : c.All l.Ready

/-- Everything in the transfer pool can go into a block, and nothing was handed
over. -/
structure StoreReady (l : Ledger) (s : TransferStore) : Prop where
  coherent : s.Coherent
  waiting : ∀ id e, s.get? id = some e → e.issued = false
  ready : s.All l.ReadyTransfer

/-- Adding keeps the pools ready. -/
theorem kept_ready (l : Ledger) (head : Header) : Kept l (PoolReady l head) (StoreReady l) where
  add c tx isLocal hc :=
    ⟨hc.orderly.add _ _ isLocal false, hc.rest,
      hc.ready.add (fun _ _ => Ledger.ready_of_backend) [tx] isLocal false⟩
  bus _ _ hc := ⟨hc.orderly, hc.rest, hc.ready⟩
  offer m tx isLocal hm := by
    refine ⟨Mempool.coherent_add hm.coherent _ tx isLocal, fun id e he => ?_,
      Mempool.all_add hm.ready Ledger.readyTransfer_of_backend isLocal⟩
    rcases Mempool.get?_add he with hold | ⟨_, hissued, _⟩
    · exact hm.waiting id e hold
    · exact hissued

/-- The pools of a node are ready for its ledger. -/
def PoolsReady (n : Node) : Prop := n.Stands (PoolReady n.ledger n.head) (StoreReady n.ledger) n.ledger n.head

/-! ## Blocks and runs -/

/-- The ordinary transactions of a block, in the order in which they are carried
out. -/
def charged (n : Node) : List Transaction := n.executable.flatten

/-- The transfers of a block, in the order in which they are carried out. -/
def picked (n : Node) : List Transfer := (n.mempool.propose n.mempool.size).2

/-- Something that happens to a node (`Node`). -/
inductive Action where
  | traffic (t : Traffic)
  | fund (a : Address) (amount : Amount)
  | advance (timestamp salt : UInt64)

/-- The node after an action. -/
def act (n : Node) : Action → Node
  | .traffic t => n.take t
  | .fund a amount => n.fund a amount
  | .advance timestamp salt => n.advance timestamp salt

/-- The node after several actions. -/
def run (n : Node) (actions : List Action) : Node := actions.foldl act n

/-- Whether an action comes to an end. Whoever makes a block waits until the
pool has followed, and the pool does not notice a head with the digest of the
one before it. -/
def Returns (n : Node) : Action → Prop
  | .advance timestamp salt => (n.head.child timestamp salt).hash ≠ n.head.hash
  | _ => True

/-- Each of several actions comes to an end. -/
def AllReturn (n : Node) : List Action → Prop
  | [] => True
  | action :: rest => n.Returns action ∧ (n.act action).AllReturn rest

section
variable {n : Node}

theorem PoolsReady.fund (h : n.PoolsReady) (a : Address) (amount : Amount) :
    (n.fund a amount).PoolsReady :=
  ⟨⟨h.pool.orderly, h.pool.rest, fun p hp => (h.pool.ready p hp).mono fun _ htx => htx.fund a amount⟩,
    ⟨h.mempool.coherent, h.mempool.waiting, fun id e he => (h.mempool.ready id e he).fund a amount⟩,
    rfl, rfl⟩

/-- After a block the transfer pool is empty. -/
theorem StoreReady.of_block {l : Ledger} {m : Mempool} (h : StoreReady l m.store) (l' : Ledger) :
    StoreReady l'
      ((m.propose m.size).1.confirm ((m.propose m.size).2.map Transfer.id)).1.store := by
  -- Everything waits, so everything is handed over, and what is handed over is taken out.
  have hgone : ∀ id e, ((m.propose m.size).1.confirm
      ((m.propose m.size).2.map Transfer.id)).1.store.get? id ≠ some e := by
    intro id e he
    obtain ⟨⟨e₀, he₀, _⟩, hnot⟩ := Mempool.get?_confirm_proposed h.coherent he
    have hpicked := Mempool.mem_proposed h.coherent he₀ (h.waiting id e₀ he₀)
    exact hnot (List.mem_map.mpr ⟨e₀.tx, hpicked, (h.coherent.id_eq he₀).2⟩)
  exact ⟨Mempool.coherent_confirm (Mempool.coherent_propose h.coherent _) _,
    fun id e he => absurd he (hgone id e), fun id e he => absurd he (hgone id e)⟩

/-- **A block** leaves the pools ready for the next one. -/
theorem PoolsReady.advance (h : n.PoolsReady) {timestamp salt : UInt64}
    (hreturns : n.Returns (.advance timestamp salt)) : (n.advance timestamp salt).PoolsReady := by
  have hne : (n.head.child timestamp salt).hash ≠ n.head.hash := hreturns
  refine ⟨⟨?_, ?_, ?_⟩, h.mempool.of_block _, rfl, rfl⟩
  · exact h.pool.orderly.follow _ _
  · exact (Coordinator.follow_of_atRest h.pool.rest hne).2.1
  · exact Coordinator.all_follow h.pool.orderly h.pool.rest hne fun _ _ => Ledger.ready_of_backend

theorem PoolsReady.act (h : n.PoolsReady) {action : Action} (hreturns : n.Returns action) :
    (n.act action).PoolsReady := by
  cases action with
  | traffic t =>
    have ht := h.take (kept_ready n.ledger n.head) t
    have hstands : (n.take t).Stands (PoolReady n.ledger n.head) (StoreReady n.ledger) n.ledger n.head :=
      ht
    rw [← ht.ledger_eq, ← ht.head_eq] at hstands
    exact hstands
  | fund a amount => exact h.fund a amount
  | advance timestamp salt => exact h.advance hreturns

theorem PoolsReady.run (h : n.PoolsReady) {actions : List Action} (hreturn : n.AllReturn actions) :
    (n.run actions).PoolsReady := by
  induction actions generalizing n with
  | nil => exact h
  | cons action rest ih => exact ih (h.act hreturn.1) hreturn.2

/-- **What a new node is made of.** -/
theorem parts_of_new {id : NodeId} {s : NodeSettings} {salts transferSalts : Nat → Salt}
    (hnew : Node.new id s salts transferSalts = .ok n) :
    n.ledger = Ledger.new s.chainId (Amount.ofWord s.minGasPrice) ∧ n.head = .genesis ∧
      Mempool.new s.mempool transferSalts = .ok n.mempool ∧
      ∃ (c : Coordinator NoncePool) (bus : Bus),
        Coordinator.start .genesis (subPools s.noncePool) = .running c ∧
          n.pool = { c with commons := { c.commons with bus } } := by
  rw [Node.new] at hnew
  split at hnew
  · cases hnew
  next c hstart =>
  split at hnew
  · cases hnew
  next mempool hmempool =>
  split at hnew
  · cases hnew
  next set hset =>
  split at hnew
  · cases hnew
  rw [← Except.ok.inj hnew]
  refine ⟨rfl, rfl, hmempool, c, ?_⟩
  rw [PoolSet.new] at hset
  split at hset
  · cases hset
  · -- The collection has subscribed to the bus, which nobody looks at here.
    rw [← Except.ok.inj hset]
    exact ⟨_, hstart, rfl⟩

/-- **A new node** has empty pools, on the first block. -/
theorem poolsReady_new {id : NodeId} {s : NodeSettings} {salts transferSalts : Nat → Salt}
    (hnew : Node.new id s salts transferSalts = .ok n) : n.PoolsReady := by
  obtain ⟨_, hhead, hmempool, c, bus, hstart, hpool⟩ := parts_of_new hnew
  obtain ⟨c', hstart', horderly, hloop, hempty⟩ := Coordinator.start_freshPools .genesis
    [("legacy", s.noncePool, fun tx => [TxKind.legacy, TxKind.dynamicFee].contains tx.kind),
      ("blob", s.noncePool, fun tx => [TxKind.blob].contains tx.kind)]
  have hsame : Coordinator.Started.running c = .running c' := hstart.symm.trans hstart'
  cases hsame
  have hready : PoolReady n.ledger n.head c := by
    refine ⟨horderly, ?_, fun p hp => ?_⟩
    · rw [hhead, hloop]
      exact ⟨rfl, rfl, rfl⟩
    · rw [hempty p hp]
      intro hash q hq
      cases hq
  have hkept := (kept_ready n.ledger n.head).bus c bus hready
  rw [← hpool] at hkept
  refine ⟨hkept, ?_, rfl, rfl⟩
  have hstore := Mempool.get?_new hmempool
  exact ⟨Mempool.coherent_new hmempool, fun id e he => absurd he (hstore id e),
    fun id e he => absurd he (hstore id e)⟩

/-! ## What was acceptable when the block began -/

/-- What is executable of an account is a run of one sub-pool, -/
theorem exists_run_of_pending (h : n.pool.Orderly) {a : Address} {txs : List Transaction}
    (htxs : (n.pool.pending n.poolViews none)[a]? = some txs) :
    ∃ p ∈ n.pool.pools, p.IsRun n.ledger.backend a txs := by
  obtain ⟨i, p, hp, hrun⟩ := Coordinator.isRun_pending (fun _ hp => h.coherent hp) htxs
  exact ⟨p, List.mem_of_getElem? hp, hrun⟩

/-- and of that account. -/
theorem sender_of_pending (h : n.pool.Orderly) (a : Address) (txs : List Transaction)
    (htxs : (n.pool.pending n.poolViews none)[a]? = some txs) : ∀ tx ∈ txs, tx.sender = a := by
  intro tx htx
  obtain ⟨_, _, hrun⟩ := exists_run_of_pending h htxs
  exact (hrun.held tx htx).1

/-- Of an account the transactions of a block are a run of one sub-pool. -/
theorem exists_run_of_mem_charged (h : n.PoolsReady) {tx : Transaction} (htx : tx ∈ n.charged) :
    ∃ p ∈ n.pool.pools, p.IsRun n.ledger.backend tx.sender
      (n.charged.filter fun tx' => tx'.sender = tx.sender) := by
  have horderly := h.pool.orderly
  -- The block lists its transactions by account, and the list of an account is one run.
  obtain ⟨txs, htxs, hmem⟩ := List.mem_flatten.mp htx
  obtain ⟨a, ha⟩ := Entries.mem_values.mp htxs
  have hfilter : (n.charged.filter fun tx' => tx'.sender = a) = txs :=
    AccountTxs.filter_flatten_values (sender_of_pending horderly) ha
  rw [sender_of_pending horderly a txs ha tx hmem, hfilter]
  exact exists_run_of_pending horderly ha

theorem ready_of_mem_charged (h : n.PoolsReady) {tx : Transaction} (htx : tx ∈ n.charged) :
    n.ledger.Ready tx := by
  obtain ⟨p, hp, hrun⟩ := exists_run_of_mem_charged h htx
  obtain ⟨_, q, hq, rfl⟩ := hrun.held tx (List.mem_filter.mpr ⟨htx, decide_eq_true rfl⟩)
  exact h.pool.ready p hp q.hash q hq

theorem ready_of_mem_picked (h : n.PoolsReady) {t : Transfer} (ht : t ∈ n.picked) :
    n.ledger.ReadyTransfer t := by
  obtain ⟨e, he, _, rfl⟩ := Mempool.of_mem_proposed h.mempool.coherent ht
  exact h.mempool.ready _ e he

end

/-! ## What is acceptable when its turn comes -/

/-- What is true of a transaction in a block that began with a ledger and has
carried out others before it. -/
structure TransactionTurn (l : Ledger) (before : List Transaction) (tx : Transaction) : Prop where
  /-- It was acceptable when the block began. -/
  began : l.backend.validate tx = .ok ()
  /-- Its sender is at its nonce. -/
  nonce_eq : ((l.carryOut before []).account tx.sender).nonce = tx.nonce
  /-- It is acceptable now exactly if the earlier transactions of its sender have
  left enough. -/
  acceptable_iff : (l.carryOut before []).backend.validate tx = .ok () ↔
    tx.cost.toNat ≤ (l.account tx.sender).balance.toNat
      - Account.totalCost (before.filter fun tx' => tx'.sender = tx.sender)

/-- What is true of a transfer in a block that began with a ledger and has
carried out all its transactions and some other transfers before it. -/
structure TransferTurn (l : Ledger) (charged : List Transaction) (before : List Transfer)
    (t : Transfer) : Prop where
  /-- It was acceptable when the block began. -/
  began : l.transferBackend.validate t = .ok ()
  /-- Its account had not passed its nonce when the block began. -/
  began_ahead : ¬t.nonce < (l.account t.account).nonce
  /-- It is acceptable now exactly if its account can pay. -/
  acceptable_iff : (l.carryOut charged before).transferBackend.validate t = .ok () ↔
    (t.direction = .outbound → t.debit ≤ ((l.carryOut charged before).account t.account).balance)
  /-- Its account has not passed its nonce now exactly if no transaction of the
  account, and no outbound transfer of it so far, was at that nonce or a later
  one. -/
  ahead_iff : ¬t.nonce < ((l.carryOut charged before).account t.account).nonce ↔
    (∀ tx ∈ charged, tx.sender = t.account → tx.nonce + 1 ≤ t.nonce) ∧
      ∀ t' ∈ before, t'.account = t.account → t'.direction = .outbound → t'.nonce + 1 ≤ t.nonce

section
variable {n : Node}

/-- **A transaction in a block** finds its sender at its nonce, and is still
acceptable if the sender's balance covers its cost. -/
theorem transactionTurn_of_charged (h : n.PoolsReady) {before after : List Transaction}
    {tx : Transaction} (hblock : n.charged = before ++ tx :: after) :
    TransactionTurn n.ledger before tx := by
  have hmem : tx ∈ n.charged := by rw [hblock]; simp
  have hready := ready_of_mem_charged h hmem
  obtain ⟨p, _, hrun⟩ := exists_run_of_mem_charged h hmem
  rw [hblock, List.filter_append, List.filter_cons, if_pos (decide_eq_true rfl)] at hrun
  refine ⟨Ledger.validate_eq_ok_iff.mpr hready.faultless, ?_, ?_⟩
  · show ((before.foldl Ledger.apply n.ledger).account tx.sender).nonce = tx.nonce
    rw [Ledger.account_foldl_apply]
    exact Account.nonce_foldl_charge_of_run hrun.consecutive hrun.ascending
  · obtain ⟨hfields, _⟩ := Ledger.transactionFault?_eq_none_iff.mp hready.faultless
    -- What the fields settle does not change while transactions are carried out.
    obtain ⟨hchain, hprice, _⟩ := n.ledger.static_foldl_apply before
    have hfields' : (before.foldl Ledger.apply n.ledger).Admits tx :=
      ⟨by rw [hchain]; exact hfields.chain, by rw [hprice]; exact hfields.price⟩
    show (before.foldl Ledger.apply n.ledger).backend.validate tx = .ok () ↔ _
    rw [Ledger.validate_eq_ok_iff, Ledger.transactionFault?_eq_none_iff, Amount.le_iff,
      Ledger.account_foldl_apply, Account.balance_foldl_charge]
    exact ⟨And.right, fun hcost => ⟨hfields', hcost⟩⟩

/-- The inputs of a transfer in a block are there when its turn comes. -/
theorem not_isConsumed_of_picked (h : n.PoolsReady) {before after : List Transfer} {t : Transfer}
    (hblock : n.picked = before ++ t :: after) {input : Digest} (hinput : input ∈ t.inputs) :
    (n.ledger.carryOut n.charged before).isConsumed input = false := by
  have hmem : t ∈ n.picked := by rw [hblock]; simp
  obtain ⟨hfields, _⟩ :=
    Ledger.transferFault?_eq_none_iff.mp (ready_of_mem_picked h hmem).faultless
  have hpairwise : n.picked.Pairwise fun t t' =>
      t.id ≠ t'.id ∧ ∀ input ∈ t.inputs, input ∉ t'.inputs :=
    Mempool.pairwise_proposed h.mempool.coherent n.mempool.size
  rw [hblock, List.pairwise_append] at hpairwise
  refine Bool.eq_false_iff.mpr fun hgone => ?_
  rcases (n.ledger.isConsumed_carryOut n.charged before input).mp hgone with ⟨t', ht', hspent⟩ | hbefore
  · exact (hpairwise.2.2 t' ht' t List.mem_cons_self).2 input hspent hinput
  · rw [hfields.unconsumed input hinput] at hbefore
    cases hbefore

/-- **A transfer in a block** is still acceptable if its account can pay, and
its account may have passed its nonce. -/
theorem transferTurn_of_picked (h : n.PoolsReady) {before after : List Transfer} {t : Transfer}
    (hblock : n.picked = before ++ t :: after) : TransferTurn n.ledger n.charged before t := by
  have hmem : t ∈ n.picked := by rw [hblock]; simp
  have hready := ready_of_mem_picked h hmem
  refine ⟨Ledger.validateTransfer_eq_ok_iff.mpr hready.faultless, hready.ahead, ?_, ?_⟩
  · obtain ⟨hfields, _⟩ := Ledger.transferFault?_eq_none_iff.mp hready.faultless
    have hfields' : (n.ledger.carryOut n.charged before).AdmitsTransfer t :=
      ⟨hfields.inputs, hfields.direction, hfields.fee, fun _ => not_isConsumed_of_picked h hblock⟩
    rw [Ledger.validateTransfer_eq_ok_iff, Ledger.transferFault?_eq_none_iff,
      Ledger.cannotPay_eq_false_iff]
    exact ⟨And.right, fun hpay => ⟨hfields', hpay⟩⟩
  · rw [UInt64.not_lt, Ledger.carryOut, Ledger.account_foldl_applyTransfer, Account.nonce_foldl_settle_le,
      Ledger.account_foldl_apply, Account.nonce_foldl_charge_le]
    -- The nonce of an account only moves up, past the transactions and then past the transfers.
    have hstart : (n.ledger.account t.account).nonce ≤ t.nonce := UInt64.not_lt.mp hready.ahead
    simp only [List.mem_filter, decide_eq_true_eq, and_imp]
    constructor
    · rintro ⟨⟨_, hcharged⟩, hbefore⟩
      exact ⟨hcharged, hbefore⟩
    · rintro ⟨hcharged, hbefore⟩
      exact ⟨⟨hstart, hcharged⟩, hbefore⟩

end

/-- **What is in a block**, after whatever has happened to a node. Everything was
acceptable when the block began. A transaction is carried out at the nonce of
its sender, and is acceptable then as far as the costs of the sender's earlier
ones in the block leave enough. A transfer is acceptable when its turn comes as
far as its account can pay; its nonce is good as far as nothing before it in the
block has moved its account past it. -/
theorem advance_of_run {id : NodeId} {s : NodeSettings} {salts transferSalts : Nat → Salt} {n₀ : Node}
    (hnew : Node.new id s salts transferSalts = .ok n₀) (actions : List Action)
    (hreturn : n₀.AllReturn actions) (timestamp salt : UInt64) :
    ((n₀.run actions).advance timestamp salt).ledger
        = (n₀.run actions).ledger.carryOut (n₀.run actions).charged (n₀.run actions).picked ∧
      (∀ before tx after, (n₀.run actions).charged = before ++ tx :: after →
        TransactionTurn (n₀.run actions).ledger before tx) ∧
      ∀ before t after, (n₀.run actions).picked = before ++ t :: after →
        TransferTurn (n₀.run actions).ledger (n₀.run actions).charged before t := by
  have h := (poolsReady_new hnew).run hreturn
  refine ⟨rfl, fun before tx after hblock => ?_, fun before t after hblock => ?_⟩
  · exact transactionTurn_of_charged h hblock
  · exact transferTurn_of_picked h hblock

/-! ## Blocks that overspend -/

/-- The smallest node there is. -/
def least : Except NodeError Node :=
  Node.new (Vector.replicate 32 1) .small (fun _ => default) (fun _ => default)

/-- A transaction that costs 60. -/
def costly (nonce : UInt64) : Transaction :=
  { (default : Transaction) with
    chainId := 43114, nonce, gasPrice := Amount.ofNat 1, gasLimit := 60 }

/-- An outbound transfer of the same account that costs 60. -/
def leaving : Transfer :=
  { (default : Transfer) with
    direction := .outbound, destination := Vector.replicate 32 1, amount := 50, fee := 10
    inputs := [default] }

/-- The account owns 100 and offers a transaction. -/
def offer : List Action := [.fund default (Amount.ofNat 100), .traffic (.submit (costly 0))]

/-- Then it offers another one. -/
def overdraft : List Action := offer ++ [.traffic (.submit (costly 1))]

/-- Or it offers a transfer. -/
def overtaken : List Action := offer ++ [.traffic (.submitTransfer leaving)]

/-- A first block is empty, and then both transactions are in the next one. -/
theorem advance_of_overdraft :
    ∃ n₀, least = .ok n₀ ∧ n₀.AllReturn (.advance 0 0 :: overdraft) ∧
      (n₀.run (.advance 0 0 :: overdraft)).charged = [costly 0, costly 1] ∧
      ∀ before tx after, (n₀.run (.advance 0 0 :: overdraft)).charged = before ++ tx :: after →
        TransactionTurn (n₀.run (.advance 0 0 :: overdraft)).ledger before tx := by
  have hleast : ∃ n₀, least = .ok n₀ ∧ (n₀.head.child 0 0).hash ≠ n₀.head.hash ∧
      (n₀.run (.advance 0 0 :: overdraft)).charged = [costly 0, costly 1] := by
    decide +kernel
  obtain ⟨n₀, hn₀, hne, hcharged⟩ := hleast
  have hreturn : n₀.AllReturn (.advance 0 0 :: overdraft) := ⟨hne, trivial, trivial, trivial, trivial⟩
  exact ⟨n₀, hn₀, hreturn, hcharged, (advance_of_run hn₀ _ hreturn 0 0).2.1⟩

/-- What the least node is like after the offers of transactions. -/
theorem least_offer : ∃ n₀, least = .ok n₀ ∧
    (n₀.run overdraft).ledger = (n₀.run offer).ledger ∧
    (n₀.run overdraft).charged = [costly 0, costly 1] ∧
    (n₀.run offer).charged = [costly 0] ∧
    ((n₀.run offer).ledger.carryOut [costly 0] []).transactionFault? (costly 1)
      = some (.insufficientFunds (Amount.ofNat 40) (Amount.ofNat 60)) ∧
    (n₀.run offer).ledger.transferFault? leaving = none ∧
    ((n₀.run offer).ledger.account leaving.account).nonce = 0 ∧
    ((n₀.run offer).ledger.carryOut [costly 0] []).transferFault? leaving
      = some .insufficientBalance ∧
    (((n₀.run offer).ledger.carryOut [costly 0] []).account leaving.account).nonce = 1 := by
  decide +kernel

/-- A transfer that the account could pay for before the block is in it. -/
theorem run_overtaken {n₀ : Node} (hn₀ : least = .ok n₀)
    (hleaving : (n₀.run offer).ledger.transferFault? leaving = none)
    (hnonce : ((n₀.run offer).ledger.account leaving.account).nonce = 0) :
    (n₀.run overtaken).ledger = (n₀.run offer).ledger ∧
      (n₀.run overtaken).charged = (n₀.run offer).charged ∧
      (n₀.run overtaken).picked = [leaving] := by
  have hsubmitted : n₀.run overtaken = (n₀.run offer).withMempool
      ((n₀.run offer).mempool.add (n₀.run offer).ledger.transferBackend leaving true).1 :=
    fst_submitTransfer (n₀.run offer) leaving
  rw [hsubmitted]
  refine ⟨rfl, rfl, ?_⟩
  -- The transfer comes to a pool that is still new.
  have hmempool : (n₀.run offer).mempool = n₀.mempool := by
    show ((n₀.fund default (Amount.ofNat 100)).submit (costly 0)).1.mempool = _
    rw [fst_submit]
    rfl
  obtain ⟨_, _, hnew, _⟩ := parts_of_new hn₀
  rw [← hmempool] at hnew
  have hahead : ¬leaving.nonce < ((n₀.run offer).ledger.account leaving.account).nonce := by
    rw [hnonce]
    decide
  exact Mempool.propose_add_of_new hnew (Ledger.validateTransfer_eq_ok_iff.mpr hleaving) hahead true

/-- **A block can overspend.** An account can pay for each of two transactions
but not for both, and both are carried out; and a transfer is carried out that
its account cannot pay for any more, behind its nonce. -/
theorem exists_unacceptable :
    ∃ n₀, least = .ok n₀ ∧
      (∃ before tx after, (n₀.run overdraft).charged = before ++ tx :: after ∧
        ((n₀.run overdraft).ledger.carryOut before []).backend.validate tx ≠ .ok ()) ∧
      ∃ before t after, (n₀.run overtaken).picked = before ++ t :: after ∧
        ((n₀.run overtaken).ledger.carryOut (n₀.run overtaken).charged before).transferBackend.validate
          t ≠ .ok () ∧
        t.nonce < (((n₀.run overtaken).ledger.carryOut (n₀.run overtaken).charged
          before).account t.account).nonce := by
  obtain ⟨n₀, hn₀, hledger, htwo, hone, hfunds, hleaving, hnonce, hpay, hmoved⟩ := least_offer
  obtain ⟨hledger', hcharged', hpicked⟩ := run_overtaken hn₀ hleaving hnonce
  refine ⟨n₀, hn₀, ⟨[costly 0], costly 1, [], htwo, ?_⟩, ⟨[], leaving, [], hpicked, ?_, ?_⟩⟩
  · rw [hledger, Ne, Ledger.validate_eq_ok_iff, hfunds]
    exact Option.some_ne_none _
  · rw [hledger', hcharged', hone, Ne, Ledger.validateTransfer_eq_ok_iff, hpay]
    exact Option.some_ne_none _
  · rw [hledger', hcharged', hone, hmoved]
    decide

end Node

end TxRelay
