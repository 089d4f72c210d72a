/-
Nonces that run out.

There is a last nonce, and none comes after it. Four computations add to a nonce: a
transaction and an outbound transfer that are carried out move their account past them, and a
sub-pool counts through what can be executed of an account and names the nonce after that.
Admission only asks that a nonce is not behind its account, so nothing keeps a transfer with
the last nonce out of a block, or one with the nonce before that and then a transaction with
the last one.

Nothing else can go wrong. The four are in range exactly if the next block carries out no
transaction and no outbound transfer with the last nonce; and a transaction with the last
nonce puts three of them out of range at once. Transactions are carried out one nonce after
the other, so they do not get there in any number that counts: only outbound transfers skip
nonces. As long as these stay below some limit, an account stays below the limit and the
number of its transactions that were carried out.
-/
import TxRelay.Proofs.Blocks
import TxRelay.Proofs.DoubleSpend
import TxRelay.Proofs.Queries
import TxRelay.Proofs.Succession

set_option autoImplicit false

namespace TxRelay

/-- The last nonce. -/
def lastNonce : UInt64 := 18446744073709551615

/-- Every other nonce has a successor. -/
theorem add_one_lt_iff {nonce : UInt64} : nonce.toNat + 1 < UInt64.size ↔ nonce ≠ lastNonce := by
  have hsize : UInt64.size = 18446744073709551616 := rfl
  have hlast : lastNonce.toNat = 18446744073709551615 := rfl
  have hlt : nonce.toNat < UInt64.size := nonce.toNat_lt
  rw [Ne, ← UInt64.toNat_inj]
  omega

theorem toNat_lastNonce_add_one : lastNonce.toNat + 1 = UInt64.size := rfl

namespace Holdings

/-! ## One account -/

/-- The nonces that come due after a given one while transactions are gone through, as
numbers. -/
def dues : UInt64 → List Pooled → List Nat
  | _, [] => []
  | nonce, p :: rest => if p.tx.nonce = nonce then (nonce.toNat + 1) :: dues (nonce + 1) rest else []

/-- What comes due is what comes after the transactions that can be executed. -/
theorem dues_eq (n : UInt64) (ps : List Pooled) :
    dues n ps = (run n ps).1.map fun p => p.tx.nonce.toNat + 1 := by
  induction ps generalizing n with
  | nil => rfl
  | cons p rest ih =>
    rw [dues, run]
    by_cases hdue : p.tx.nonce = n
    · rw [if_pos hdue, if_pos hdue, ih, List.map_cons, hdue]
    · rw [if_neg hdue, if_neg hdue, List.map_nil]

section
variable {h : Holdings}

/-- **What can be executed goes up by one** from the next nonce on. -/
theorem Coherent.nonces_split (hc : h.Coherent) (a : Address) (s : UInt64) :
    (h.split a s).1.map (fun p => p.tx.nonce.toNat) = List.range' s.toNat (h.split a s).1.length := by
  obtain ⟨k, hrun⟩ : ∃ k, (h.split a s).1.map (fun p => p.tx.nonce.toNat) = List.range' s.toNat k := by
    by_cases hbehind : ∃ n < s.toNat, h.Taken a n
    · obtain ⟨n, hn, htaken⟩ := hbehind
      refine ⟨0, ?_⟩
      rw [(hc.split_of_behind hn htaken).1]
      rfl
    · have hfront : h.Taken a s.toNat → ∀ n < s.toNat, ¬h.Taken a n :=
        fun _ n hn htaken => hbehind ⟨n, hn, htaken⟩
      obtain ⟨k, -, hrun, -⟩ := hc.split_of_front hfront
      exact ⟨k, hrun⟩
  have hlength : (h.split a s).1.length = k := by
    rw [← List.length_map fun p : Pooled => p.tx.nonce.toNat, hrun, List.length_range']
  rw [hlength, hrun]

/-- So all of it is before the nonce that comes after it, -/
theorem Coherent.nonce_lt_next (hc : h.Coherent) {a : Address} {s : UInt64} {q : Pooled}
    (hq : q ∈ (h.split a s).1) : q.tx.nonce.toNat < s.toNat + (h.split a s).1.length := by
  have hmem := List.mem_map_of_mem (f := fun p : Pooled => p.tx.nonce.toNat) hq
  rw [hc.nonces_split, List.mem_range'_1] at hmem
  exact hmem.2

/-- and the last of it is right before that, if there is any. -/
theorem Coherent.exists_before_next (hc : h.Coherent) {a : Address} {s : UInt64}
    (hsome : 0 < (h.split a s).1.length) :
    ∃ q ∈ (h.split a s).1, q.tx.nonce.toNat + 1 = s.toNat + (h.split a s).1.length := by
  have hlast : s.toNat + ((h.split a s).1.length - 1) ∈ List.range' s.toNat (h.split a s).1.length := by
    rw [List.mem_range'_1]
    omega
  rw [← hc.nonces_split] at hlast
  obtain ⟨q, hq, hnonce⟩ := List.mem_map.mp hlast
  exact ⟨q, hq, by omega⟩

/-- The nonce after what can be executed is in range if nothing of that has the last nonce, -/
theorem Coherent.next_lt (hc : h.Coherent) {a : Address} {s : UInt64}
    (hfits : ∀ q ∈ (h.split a s).1, q.tx.nonce ≠ lastNonce) :
    s.toNat + (h.split a s).1.length < UInt64.size := by
  by_cases hsome : 0 < (h.split a s).1.length
  · obtain ⟨q, hq, hnonce⟩ := hc.exists_before_next hsome
    rw [← hnonce]
    exact add_one_lt_iff.mpr (hfits q hq)
  · have hlt : s.toNat < UInt64.size := s.toNat_lt
    omega

/-- and otherwise it is the first that is not. -/
theorem Coherent.next_eq (hc : h.Coherent) {a : Address} {s : UInt64} {q : Pooled}
    (hq : q ∈ (h.split a s).1) (hlast : q.tx.nonce = lastNonce) :
    s.toNat + (h.split a s).1.length = UInt64.size := by
  have hafter := hc.nonce_lt_next hq
  rw [hlast] at hafter
  obtain ⟨q', -, hnonce⟩ := hc.exists_before_next (List.length_pos_of_mem hq)
  have hlt : q'.tx.nonce.toNat < UInt64.size := q'.tx.nonce.toNat_lt
  have hsucc := toNat_lastNonce_add_one
  omega

end

end Holdings

namespace Ledger

/-- **An account stays within a bound** if it was, and if everything of it that is carried out
is below the bound. -/
theorem nonce_carryOut_le (l : Ledger) {txs : List Transaction} {ts : List Transfer} {a : Address}
    {bound : Nat} (hbound : bound < UInt64.size) (hstart : (l.account a).nonce.toNat ≤ bound)
    (htxs : ∀ tx ∈ txs, tx.sender = a → tx.nonce.toNat < bound)
    (hts : ∀ t ∈ ts, t.account = a → t.direction = .outbound → t.nonce.toNat < bound) :
    ((l.carryOut txs ts).account a).nonce.toNat ≤ bound := by
  have hword : (UInt64.ofNat bound).toNat = bound := UInt64.toNat_ofNat_of_lt' hbound
  -- The successor of what is below the bound does not come around.
  have hnext : ∀ nonce : UInt64, nonce.toNat < bound → nonce + 1 ≤ UInt64.ofNat bound := by
    intro nonce hlt
    rw [UInt64.le_iff_toNat_le, hword, UInt64.toNat_add, UInt64.toNat_one]
    exact Nat.le_trans (Nat.mod_le _ _) hlt
  have hcharged : ((txs.foldl apply l).account a).nonce ≤ UInt64.ofNat bound := by
    rw [account_foldl_apply, Account.nonce_foldl_charge_le]
    constructor
    · rw [UInt64.le_iff_toNat_le, hword]
      exact hstart
    · intro tx htx
      obtain ⟨hmem, hsender⟩ := List.mem_filter.mp htx
      exact hnext _ (htxs tx hmem (of_decide_eq_true hsender))
  have hsettled : ((l.carryOut txs ts).account a).nonce ≤ UInt64.ofNat bound := by
    rw [carryOut, account_foldl_applyTransfer, Account.nonce_foldl_settle_le]
    refine ⟨hcharged, ?_⟩
    intro t ht houtbound
    obtain ⟨hmem, haccount⟩ := List.mem_filter.mp ht
    exact hnext _ (hts t hmem (of_decide_eq_true haccount) houtbound)
  rw [UInt64.le_iff_toNat_le, hword] at hsettled
  exact hsettled

end Ledger

namespace Node

open NoncePool (ofAccount)

variable {n : Node}

/-! ## What the next block charges -/

/-- The nonce of an account. -/
def nonceOf (n : Node) (a : Address) : UInt64 := (n.ledger.account a).nonce

theorem pending_getElem? (h : n.pool.Orderly) (a : Address) :
    (n.pool.pending n.poolViews none)[a]?
      = if ofAccount (n.pool.viewed n.poolViews) .pending a ≠ [] then
          some ((ofAccount (n.pool.viewed n.poolViews) .pending a).map Pooled.tx)
        else none := by
  have hpending := (h.consistent n.poolViews).pending_eq
  have hcontent := Coordinator.half_content n.pool n.poolViews .pending
  rw [hpending]
  show ((n.pool.content n.poolViews).half .pending)[a]? = _
  rw [hcontent]
  exact (h.separate n.poolViews).getElem?_content .pending a

/-- **What the next block charges of an account** is what the sub-pools can have executed
of it. -/
theorem filter_charged (h : n.pool.Orderly) (a : Address) :
    n.charged.filter (fun tx => tx.sender = a)
      = (ofAccount (n.pool.viewed n.poolViews) .pending a).map Pooled.tx := by
  by_cases hnone : ofAccount (n.pool.viewed n.poolViews) .pending a = []
  · rw [hnone, List.map_nil, List.filter_eq_nil_iff]
    intro tx htx
    obtain ⟨txs, htxs, hmem⟩ := List.mem_flatten.mp htx
    obtain ⟨a', ha'⟩ := Entries.mem_values.mp htxs
    have hother : tx.sender ≠ a := by
      rw [sender_of_pending h a' txs ha' tx hmem]
      rintro rfl
      rw [pending_getElem? h, if_neg fun hne => hne hnone] at ha'
      cases ha'
    simpa using hother
  · have hlisted : (n.pool.pending n.poolViews none)[a]?
        = some ((ofAccount (n.pool.viewed n.poolViews) .pending a).map Pooled.tx) := by
      rw [pending_getElem? h, if_pos hnone]
    exact AccountTxs.filter_flatten_values (sender_of_pending h) hlisted

/-- Whatever a sub-pool can have executed is charged, -/
theorem mem_charged (h : n.pool.Orderly) {p : NoncePool} (hp : p ∈ n.pool.pools) {a : Address} {q : Pooled}
    (hq : q ∈ (p.holdings.split a (n.nonceOf a)).1) : q.tx ∈ n.charged := by
  obtain ⟨i, hi⟩ := List.mem_iff_getElem?.mp hp
  have hv : (p, n.poolViews i) ∈ n.pool.viewed n.poolViews := Coordinator.mem_viewed.mpr ⟨i, p, hi, rfl⟩
  have hmem : q.tx ∈ n.charged.filter fun tx => tx.sender = a := by
    rw [filter_charged h]
    exact List.mem_map_of_mem (List.mem_flatMap.mpr ⟨_, hv, hq⟩)
  exact (List.mem_filter.mp hmem).1

/-- and nothing else is. -/
theorem exists_of_mem_charged (h : n.pool.Orderly) {tx : Transaction} (htx : tx ∈ n.charged) :
    ∃ p ∈ n.pool.pools, p.holdings.Coherent ∧
      ∃ q ∈ (p.holdings.split tx.sender (n.nonceOf tx.sender)).1, q.tx = tx := by
  have hmem : tx ∈ n.charged.filter fun tx' => tx'.sender = tx.sender :=
    List.mem_filter.mpr ⟨htx, decide_eq_true rfl⟩
  rw [filter_charged h] at hmem
  obtain ⟨q, hq, heq⟩ := List.mem_map.mp hmem
  obtain ⟨v, hv, hq⟩ := List.mem_flatMap.mp hq
  have hc := (h.separate n.poolViews).coherent v hv
  obtain ⟨i, p, hi, rfl⟩ := Coordinator.mem_viewed.mp hv
  exact ⟨p, List.mem_of_getElem? hi, hc, q, hq, heq⟩

/-- **Of an account the next block charges one nonce after the other**, from its own on. -/
theorem nonces_charged (h : n.pool.Orderly) (a : Address) :
    ∃ k, (n.charged.filter fun tx => tx.sender = a).map (fun tx => tx.nonce.toNat)
      = List.range' (n.nonceOf a).toNat k := by
  have hs := h.separate n.poolViews
  rw [filter_charged h, List.map_map]
  by_cases hheld : ∃ v ∈ n.pool.viewed n.poolViews, v.1.holdings.HoldsFrom a
  · obtain ⟨v, hv, ha⟩ := hheld
    rw [hs.ofAccount_eq hv ha]
    obtain ⟨i, p, -, rfl⟩ := Coordinator.mem_viewed.mp hv
    exact ⟨_, (hs.coherent _ hv).nonces_split a (n.nonceOf a)⟩
  · have hnone : ∀ v ∈ n.pool.viewed n.poolViews, ¬v.1.holdings.HoldsFrom a :=
      fun v hv ha => hheld ⟨v, hv, ha⟩
    rw [hs.ofAccount_eq_nil hnone]
    exact ⟨0, rfl⟩

/-! ## Every nonce that is computed -/

/-- **Every nonce that is computed is in range**, in a block that would begin now and in what
is asked of the sub-pools now (`InMemoryState::apply`). -/
structure NoncesFit (n : Node) : Prop where
  /-- The successor of a transaction that is carried out, -/
  charged : ∀ tx ∈ n.charged, tx.nonce.toNat + 1 < UInt64.size
  /-- and of an outbound transfer. -/
  settled : ∀ t ∈ n.picked, t.direction = .outbound → t.nonce.toNat + 1 < UInt64.size
  /-- What comes due while the transactions of an account are divided, -/
  divided : ∀ p ∈ n.pool.pools, ∀ a, ∀ due ∈ Holdings.dues (n.nonceOf a) (p.holdings.ofSender a),
    due < UInt64.size
  /-- and the nonce after those that can be executed. -/
  next : ∀ p ∈ n.pool.pools, ∀ a,
    (n.nonceOf a).toNat + (p.holdings.split a (n.nonceOf a)).1.length < UInt64.size

/-- **Nothing goes out of range** unless the next block carries out a last nonce. -/
theorem noncesFit_iff (h : n.pool.Orderly) :
    n.NoncesFit ↔ (∀ tx ∈ n.charged, tx.nonce ≠ lastNonce) ∧
      ∀ t ∈ n.picked, t.direction = .outbound → t.nonce ≠ lastNonce := by
  constructor
  · intro hfit
    constructor
    · intro tx htx
      exact add_one_lt_iff.mp (hfit.charged tx htx)
    · intro t ht houtbound
      exact add_one_lt_iff.mp (hfit.settled t ht houtbound)
  · rintro ⟨hcharged, hsettled⟩
    constructor
    case charged =>
      intro tx htx
      exact add_one_lt_iff.mpr (hcharged tx htx)
    case settled =>
      intro t ht houtbound
      exact add_one_lt_iff.mpr (hsettled t ht houtbound)
    case divided =>
      intro p hp a due hdue
      rw [Holdings.dues_eq] at hdue
      obtain ⟨q, hq, rfl⟩ := List.mem_map.mp hdue
      exact add_one_lt_iff.mpr (hcharged q.tx (mem_charged h hp hq))
    case next =>
      intro p hp a
      apply (h.coherent hp).next_lt
      intro q hq
      exact hcharged q.tx (mem_charged h hp hq)

/-- **A last nonce of a transaction shows in its sub-pool** before the block: dividing what is
held of its sender goes out of range, and so does the nonce after what can be executed. -/
theorem out_of_range_of_mem_charged (h : n.pool.Orderly) {tx : Transaction} (htx : tx ∈ n.charged)
    (hlast : tx.nonce = lastNonce) :
    ∃ p ∈ n.pool.pools,
      UInt64.size ∈ Holdings.dues (n.nonceOf tx.sender) (p.holdings.ofSender tx.sender) ∧
        (n.nonceOf tx.sender).toNat + (p.holdings.split tx.sender (n.nonceOf tx.sender)).1.length
          = UInt64.size := by
  obtain ⟨p, hp, hc, q, hq, rfl⟩ := exists_of_mem_charged h htx
  refine ⟨p, hp, ?_, hc.next_eq hq hlast⟩
  rw [Holdings.dues_eq, ← toNat_lastNonce_add_one, ← hlast]
  exact List.mem_map.mpr ⟨q, hq, rfl⟩

/-! ## Runs -/

/-- Something that happens to a node, where what a block does to the chain and what the pool
makes of it may be told apart (`Node::advance_chain`). -/
inductive Step where
  | happens (event : Event)
  | execute (timestamp salt : UInt64)
  | follow

/-- The node after a step. -/
def step (n : Node) : Step → Node
  | .happens event => n.react event
  | .execute timestamp salt => n.execute n.executable timestamp salt
  | .follow => n.follow

/-- The node after several steps. -/
def walk (n : Node) (steps : List Step) : Node := steps.foldl step n

/-- What is carried out: transactions, and then transfers. -/
structure CarriedOut where
  charged : List Transaction
  settled : List Transfer

/-- What a step carries out. -/
def carries (n : Node) : Step → CarriedOut
  | .happens (.happens (.advance _ _)) => ⟨n.charged, n.picked⟩
  | .execute _ _ => ⟨n.charged, n.picked⟩
  | _ => ⟨[], []⟩

/-- What several steps carry out. -/
def carriesAll (n : Node) : List Step → CarriedOut
  | [] => ⟨[], []⟩
  | s :: rest =>
    ⟨(n.carries s).charged ++ ((n.step s).carriesAll rest).charged,
      (n.carries s).settled ++ ((n.step s).carriesAll rest).settled⟩

/-- How many transactions are of an account. -/
def countOf (txs : List Transaction) (a : Address) : Nat := txs.countP fun tx => tx.sender = a

theorem countOf_append (txs txs' : List Transaction) (a : Address) :
    countOf (txs ++ txs') a = countOf txs a + countOf txs' a := List.countP_append

/-- Adding keeps accounts exclusive. -/
theorem kept_orderly (l : Ledger) : Kept l Coordinator.Orderly (fun _ => True) where
  add _ _ isLocal hc := hc.add _ _ isLocal false
  bus _ _ hc := hc
  offer _ _ _ _ := trivial

/-- **Whatever happens**, accounts stay exclusive. -/
theorem orderly_step (h : n.pool.Orderly) (s : Step) : (n.step s).pool.Orderly := by
  cases s with
  | happens event =>
    cases event with
    | happens action =>
      cases action with
      | traffic t =>
        have hstands : n.Stands Coordinator.Orderly (fun _ => True) n.ledger n.head := ⟨h, trivial, rfl, rfl⟩
        exact (hstands.take (kept_orderly n.ledger) t).pool
      | fund a amount => exact h
      | advance timestamp salt => exact h.follow _ _
    | _ => exact h
  | execute timestamp salt => exact h
  | follow => exact h.follow _ _

theorem orderly_walk (h : n.pool.Orderly) (steps : List Step) : (n.walk steps).pool.Orderly := by
  induction steps generalizing n with
  | nil => exact h
  | cons s rest ih => exact ih (orderly_step h s)

/-- **Only what is carried out moves a nonce.** -/
theorem nonceOf_step (n : Node) (s : Step) (a : Address) :
    (n.step s).nonceOf a
      = ((n.ledger.carryOut (n.carries s).charged (n.carries s).settled).account a).nonce := by
  cases s with
  | happens event =>
    cases event with
    | happens action =>
      cases action with
      | traffic t =>
        show ((n.take t).ledger.account a).nonce = _
        rw [(n.chain_take t).1]
        rfl
      | fund b amount => exact n.ledger.nonce_fund b a amount
      | advance timestamp salt => rfl
    | _ => rfl
  | execute timestamp salt => rfl
  | follow => rfl

/-- A step charges what the next block would charge, or nothing. -/
theorem charged_carries (n : Node) (s : Step) :
    (n.carries s).charged = n.charged ∨ (n.carries s).charged = [] := by
  cases s with
  | happens event =>
    cases event with
    | happens action =>
      cases action with
      | advance timestamp salt => exact Or.inl rfl
      | _ => exact Or.inr rfl
    | _ => exact Or.inr rfl
  | execute timestamp salt => exact Or.inl rfl
  | follow => exact Or.inr rfl

/-- Of an account the next block charges as many nonces as there are transactions. -/
theorem nonces_charged_eq (h : n.pool.Orderly) (a : Address) :
    (n.charged.filter fun tx => tx.sender = a).map (fun tx => tx.nonce.toNat)
      = List.range' (n.nonceOf a).toNat (countOf n.charged a) := by
  obtain ⟨k, hrun⟩ := nonces_charged h a
  have hcount : countOf n.charged a = k := by
    rw [countOf, List.countP_eq_length_filter, ← List.length_map fun tx : Transaction => tx.nonce.toNat,
      hrun, List.length_range']
  rw [hcount, hrun]

/-- What the next block charges of an account is below the sum of its nonce and their number. -/
theorem nonce_lt_of_mem_charged (h : n.pool.Orderly) {tx : Transaction} (htx : tx ∈ n.charged) :
    tx.nonce.toNat < (n.nonceOf tx.sender).toNat + countOf n.charged tx.sender := by
  have hmem : tx.nonce.toNat
      ∈ List.range' (n.nonceOf tx.sender).toNat (countOf n.charged tx.sender) := by
    rw [← nonces_charged_eq h]
    exact List.mem_map_of_mem (List.mem_filter.mpr ⟨htx, decide_eq_true rfl⟩)
  rw [List.mem_range'_1] at hmem
  exact hmem.2

/-- **A step** leaves an account within a bound that its outbound transfers are below, raised by
the number of its transactions. -/
theorem nonceOf_step_le (h : n.pool.Orderly) (s : Step) {a : Address} {bound : Nat}
    (hstart : (n.nonceOf a).toNat ≤ bound) (hbound : bound + countOf (n.carries s).charged a < UInt64.size)
    (hsettled : ∀ t ∈ (n.carries s).settled, t.account = a → t.direction = .outbound →
      t.nonce.toNat < bound) :
    ((n.step s).nonceOf a).toNat ≤ bound + countOf (n.carries s).charged a := by
  rw [nonceOf_step]
  apply Ledger.nonce_carryOut_le _ hbound
  · exact Nat.le_trans hstart (Nat.le_add_right _ _)
  · intro tx htx hsender
    rcases charged_carries n s with hcharged | hcharged
    · rw [hcharged] at htx ⊢
      have hlt := nonce_lt_of_mem_charged h htx
      rw [hsender] at hlt
      omega
    · rw [hcharged] at htx
      cases htx
  · intro t ht haccount houtbound
    exact Nat.lt_of_lt_of_le (hsettled t ht haccount houtbound) (Nat.le_add_right _ _)

/-- **A run** does the same, with the transactions of all its blocks. The bound is raised step by
step, so what was below it stays below. -/
theorem nonceOf_walk_le (h : n.pool.Orderly) (steps : List Step) {a : Address} {bound : Nat}
    (hstart : (n.nonceOf a).toNat ≤ bound)
    (hbound : bound + countOf (n.carriesAll steps).charged a < UInt64.size)
    (hsettled : ∀ t ∈ (n.carriesAll steps).settled, t.account = a → t.direction = .outbound →
      t.nonce.toNat < bound) :
    ((n.walk steps).nonceOf a).toNat ≤ bound + countOf (n.carriesAll steps).charged a := by
  induction steps generalizing n bound with
  | nil => exact hstart
  | cons s rest ih =>
    rw [carriesAll, countOf_append] at hbound ⊢
    have hfirst : ((n.step s).nonceOf a).toNat ≤ bound + countOf (n.carries s).charged a := by
      apply nonceOf_step_le h s hstart (by omega)
      intro t ht
      exact hsettled t (List.mem_append_left _ ht)
    have hrest := ih (orderly_step h s) hfirst (by omega) (by
      intro t ht haccount houtbound
      have hlt := hsettled t (List.mem_append_right _ ht) haccount houtbound
      omega)
    rw [← Nat.add_assoc]
    exact hrest

/-- **A limit with room**: every outbound transfer that a run has carried out or would carry
out next is below the limit of its account, and beyond the limit there is room for the
transactions of the account. -/
structure Roomy (n : Node) (steps : List Step) (limit : Address → Nat) : Prop where
  below : ∀ t ∈ (n.carriesAll steps).settled ++ (n.walk steps).picked, t.direction = .outbound →
    t.nonce.toNat < limit t.account
  room : ∀ a, limit a + countOf ((n.carriesAll steps).charged ++ (n.walk steps).charged) a < UInt64.size

/-- With a limit that has room, every nonce is in range. -/
theorem Roomy.noncesFit {steps : List Step} {limit : Address → Nat} (hroomy : n.Roomy steps limit)
    (h : n.pool.Orderly) (hstart : ∀ a, (n.nonceOf a).toNat ≤ limit a) : (n.walk steps).NoncesFit := by
  rw [noncesFit_iff (orderly_walk h steps)]
  constructor
  · intro tx htx
    have hroom := hroomy.room tx.sender
    rw [countOf_append] at hroom
    have hnonce : ((n.walk steps).nonceOf tx.sender).toNat
        ≤ limit tx.sender + countOf (n.carriesAll steps).charged tx.sender := by
      apply nonceOf_walk_le h steps (hstart tx.sender) (by omega)
      intro t ht haccount houtbound
      rw [← haccount]
      exact hroomy.below t (List.mem_append_left _ ht) houtbound
    have hlt := nonce_lt_of_mem_charged (orderly_walk h steps) htx
    exact add_one_lt_iff.mp (by omega)
  · intro t ht houtbound
    have hlt := hroomy.below t (List.mem_append_right _ ht) houtbound
    have hroom := hroomy.room t.account
    exact add_one_lt_iff.mp (by omega)

/-- **When nonces are in range**, whatever happens to a new node, and whether or not its pool
has followed the last block: exactly if the next block carries out no transaction and no
outbound transfer with the last nonce. A transaction with the last nonce shows in its sub-pool
as well. There is none of either if the outbound transfers so far and in the next block stay
below some limit for each account, and if beyond that there is room for the transactions of
the account so far and in the next block. -/
theorem noncesFit_of_steps {id : NodeId} {s : NodeSettings} {salts transferSalts : Nat → Salt} {n₀ : Node}
    (hnew : Node.new id s salts transferSalts = .ok n₀) (steps : List Step) :
    ((n₀.walk steps).NoncesFit ↔
        (∀ tx ∈ (n₀.walk steps).charged, tx.nonce ≠ lastNonce) ∧
          ∀ t ∈ (n₀.walk steps).picked, t.direction = .outbound → t.nonce ≠ lastNonce) ∧
      (∀ tx ∈ (n₀.walk steps).charged, tx.nonce = lastNonce →
        ∃ p ∈ (n₀.walk steps).pool.pools,
          UInt64.size ∈
              Holdings.dues ((n₀.walk steps).nonceOf tx.sender) (p.holdings.ofSender tx.sender) ∧
            ((n₀.walk steps).nonceOf tx.sender).toNat
              + (p.holdings.split tx.sender ((n₀.walk steps).nonceOf tx.sender)).1.length = UInt64.size) ∧
      ∀ limit : Address → Nat, n₀.Roomy steps limit → (n₀.walk steps).NoncesFit := by
  have hstart := (poolsReady_new hnew).pool.orderly
  have horderly := orderly_walk hstart steps
  refine ⟨noncesFit_iff horderly, fun tx htx => out_of_range_of_mem_charged horderly htx, ?_⟩
  intro limit hroomy
  apply hroomy.noncesFit hstart
  -- Nobody has used a new ledger.
  intro a
  obtain ⟨hledger, -⟩ := parts_of_new hnew
  have hzero : n₀.nonceOf a = 0 := by
    rw [nonceOf, hledger]
    rfl
  rw [hzero]
  exact Nat.zero_le _

/-- A transaction and an outbound transfer are offered, both with the first nonce. The next
block carries out both, and every nonce is in range. -/
theorem noncesFit_overtaken :
    ∃ n₀, least = .ok n₀ ∧ (n₀.walk (overtaken.map fun action => .happens (.happens action))).picked = [leaving] ∧
      n₀.Roomy (overtaken.map fun action => .happens (.happens action)) (fun _ => 1) ∧
      (n₀.walk (overtaken.map fun action => .happens (.happens action))).NoncesFit := by
  obtain ⟨n₀, hn₀, _, _, hcharged, _, hleaving, hnonce, _, _⟩ := least_offer
  obtain ⟨_, hsame, hpicked⟩ := run_overtaken hn₀ hleaving hnonce
  have hwalk : n₀.walk (overtaken.map fun action => .happens (.happens action)) = n₀.run overtaken := by
    rw [walk, List.foldl_map]
    rfl
  have hroomy : n₀.Roomy (overtaken.map fun action => .happens (.happens action)) (fun _ => 1) := by
    constructor
    · intro t ht _
      rw [hwalk, hpicked] at ht
      rw [List.mem_singleton.mp ht]
      decide
    · intro a
      rw [hwalk, hsame, hcharged]
      have hone : countOf [costly 0] a ≤ 1 := List.countP_le_length
      have hsize : UInt64.size = 18446744073709551616 := rfl
      show 1 + countOf ([] ++ [costly 0]) a < UInt64.size
      rw [List.nil_append]
      omega
  exact ⟨n₀, hn₀, by rw [hwalk, hpicked], hroomy, (noncesFit_of_steps hn₀ _).2.2 _ hroomy⟩

/-! ## Departures -/

/-- An outbound transfer that costs 60, at a given nonce. -/
def departing (nonce : UInt64) : Transfer := { leaving with nonce }

/-- The account owns 200 and offers the transfer. -/
def departure (nonce : UInt64) : List Step :=
  [.happens (.happens (.fund default (Amount.ofNat 200))),
    .happens (.happens (.traffic (.submitTransfer (departing nonce))))]

/-- What the least node is like with a funded account, and after blocks with one departure. -/
theorem least_funded : ∃ n₀, least = .ok n₀ ∧ (n₀.fund default (Amount.ofNat 200)).charged = [] ∧
    (n₀.fund default (Amount.ofNat 200)).ledger.transferFault? leaving = none ∧
    (n₀.fund default (Amount.ofNat 200)).nonceOf default = 0 ∧
    (((n₀.fund default (Amount.ofNat 200)).ledger.carryOut [] [departing lastNonce]).account default).nonce
      = 0 ∧
    (let l := (n₀.fund default (Amount.ofNat 200)).ledger.carryOut [] [departing (lastNonce - 1)]
     (((n₀.pool.follow (views l) [n₀.head.child 0 0]).addLocal (views l) (costly lastNonce)).1.pending
        (views l) none).values.flatten) = [costly lastNonce] := by
  decide +kernel

/-- Whatever its nonce, the transfer is offered to a new pool and is in the next block: the check
of a nonce only looks down, and the account is at the first one. -/
theorem picked_departing {settings : MempoolSettings} {salts : Nat → Salt}
    (hnew : Mempool.new settings salts = .ok n.mempool) (hleaving : n.ledger.transferFault? leaving = none)
    (hzero : n.nonceOf default = 0) (nonce : UInt64) :
    (n.submitTransfer (departing nonce)).1.picked = [departing nonce] := by
  have hvalid : n.ledger.transferBackend.validate (departing nonce) = .ok () :=
    Ledger.validateTransfer_eq_ok_iff.mpr hleaving
  have hahead : ¬(departing nonce).nonce < n.ledger.transferBackend.nonce (departing nonce).account := by
    have haccount : n.ledger.transferBackend.nonce (departing nonce).account = 0 := hzero
    rw [haccount]
    exact UInt64.not_lt_zero
  rw [fst_submitTransfer]
  exact Mempool.propose_add_of_new hnew hvalid hahead true

/-- What is executable when a transaction is submitted after a block. -/
theorem charged_submit_advance (n : Node) (timestamp salt : UInt64) (tx : Transaction) :
    ((n.advance timestamp salt).submit tx).1.charged =
      (let l := n.ledger.carryOut n.charged n.picked
       (((n.pool.follow (views l) [n.head.child timestamp salt]).addLocal (views l) tx).1.pending
        (views l) none).values.flatten) := by
  rw [fst_submit]
  rfl

/-- **Nonces can go out of range.** A transfer with the last nonce is in the next block, and
after that its account is at the first nonce again, or still. A transfer with the nonce before
that and a transaction with the last one do the same. -/
theorem exists_out_of_range :
    ∃ n₀, least = .ok n₀ ∧
      ((n₀.walk (departure lastNonce)).picked = [departing lastNonce] ∧
        ¬(n₀.walk (departure lastNonce)).NoncesFit ∧
        ((n₀.walk (departure lastNonce)).advance 0 0).nonceOf default = 0) ∧
      ∃ n, n = n₀.walk (departure (lastNonce - 1) ++
            [.happens (.happens (.advance 0 0)), .happens (.happens (.traffic (.submit (costly lastNonce))))]) ∧
        n.charged = [costly lastNonce] ∧ ¬n.NoncesFit := by
  obtain ⟨n₀, hn₀, hcharged, hleaving, hzero, hnonce, hlast⟩ := least_funded
  have hpicked : ∀ nonce, (n₀.walk (departure nonce)).picked = [departing nonce] := by
    obtain ⟨_, _, hnew, _⟩ := parts_of_new hn₀
    exact @picked_departing (n₀.fund default (Amount.ofNat 200)) _ _ hnew hleaving hzero
  -- The offer shows in the transfer pool only.
  have hoffered : ∀ nonce, n₀.walk (departure nonce) = (n₀.fund default (Amount.ofNat 200)).withMempool
      ((n₀.fund default (Amount.ofNat 200)).mempool.add
        (n₀.fund default (Amount.ofNat 200)).ledger.transferBackend (departing nonce) true).1 :=
    fun nonce => fst_submitTransfer (n₀.fund default (Amount.ofNat 200)) (departing nonce)
  have hledger : ∀ nonce, (n₀.walk (departure nonce)).ledger
      = (n₀.fund default (Amount.ofNat 200)).ledger := by
    intro nonce
    rw [hoffered]
    rfl
  have hnone : ∀ nonce, (n₀.walk (departure nonce)).charged = [] := by
    intro nonce
    rw [hoffered]
    exact hcharged
  refine ⟨n₀, hn₀, ⟨hpicked lastNonce, ?_, ?_⟩, ?_⟩
  · intro hfit
    have hsettled := hfit.settled (departing lastNonce) (by rw [hpicked]; exact List.mem_singleton_self _) rfl
    exact absurd hsettled (by decide)
  · have hafter := nonceOf_step (n₀.walk (departure lastNonce)) (.happens (.happens (.advance 0 0))) default
    simp only [carries, hpicked, hledger, hnone] at hafter
    exact hafter.trans hnonce
  · have hend : n₀.walk (departure (lastNonce - 1) ++
        [.happens (.happens (.advance 0 0)), .happens (.happens (.traffic (.submit (costly lastNonce))))])
        = (((n₀.walk (departure (lastNonce - 1))).advance 0 0).submit (costly lastNonce)).1 := by
      rw [walk, List.foldl_append]
      rfl
    have hlisted : (((n₀.walk (departure (lastNonce - 1))).advance 0 0).submit (costly lastNonce)).1.charged
        = [costly lastNonce] := by
      rw [charged_submit_advance, hpicked, hledger, hnone, hoffered]
      exact hlast
    refine ⟨_, rfl, ?_, ?_⟩
    · rw [hend, hlisted]
    · intro hfit
      have hnext := hfit.charged (costly lastNonce) (by rw [hend, hlisted]; exact List.mem_singleton_self _)
      exact absurd hnext (by decide)

end Node

end TxRelay
