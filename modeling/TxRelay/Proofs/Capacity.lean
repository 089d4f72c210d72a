/-
How much a sub-pool holds, and who makes way.

A newcomer at a free nonce takes up room. Below the limit for its account it
may go on to the question whether the sub-pool is full, and in a full sub-pool
exactly one transaction makes way for it. The order of eviction lists the
transactions from outside and nothing else, so its first entry is the cheapest
of them, the oldest among equals; what came in through this node's own
interface is not listed, and can only be replaced at its own nonce.

The counts are the sizes of indices. They mean what they should because the
indices describe one set of transactions.
-/
import TxRelay.Proofs.Outbidding
import TxRelay.Proofs.Seating

set_option autoImplicit false

namespace TxRelay

/-- Whoever comes first in the order of eviction pays less, or as much and
arrived no later. -/
theorem PriceKey.of_isLE {key key' : PriceKey} (hle : (compare key key').isLE = true) :
    key.price < key'.price ∨ (key.price = key'.price ∧ key.seq ≤ key'.seq) := by
  have hle : ((compare key.price key'.price).then
      ((compare key.seq key'.seq).then (compare key.hash key'.hash))).isLE = true := hle
  rw [Ordering.isLE_then_iff_or, Ordering.isLE_then_iff_and, Std.compare_eq_iff_eq] at hle
  rcases hle with hprice | ⟨hprice, hseq, _⟩
  · exact Or.inl (Nat.compare_eq_lt.mp hprice)
  · exact Or.inr ⟨hprice, Nat.isLE_compare.mp hseq⟩

namespace Holdings

variable {h : Holdings}

/-! ## Counting -/

theorem size_insert {tx : Transaction} {isLocal : Bool} (hnew : h.get? tx.hash = none) :
    (h.insert tx isLocal).size = h.size + 1 :=
  Entries.size_insert hnew (h.arriving tx isLocal)

theorem size_without {p : Pooled} (hp : h.get? p.hash = some p) :
    (h.without p).size + 1 = h.size :=
  Entries.size_erase hp

theorem size_without_le (h : Holdings) (p : Pooled) : (h.without p).size ≤ h.size :=
  Std.ExtTreeMap.size_erase_le

theorem senderCount_insert_le (h : Holdings) (tx : Transaction) (isLocal : Bool) (a : Address) :
    (h.insert tx isLocal).senderCount a ≤ h.senderCount a + if tx.sender = a then 1 else 0 := by
  unfold senderCount
  rw [nonces_insert]
  split
  · exact Std.ExtTreeMap.size_insert_le
  · exact Nat.le_refl _

theorem senderCount_without_le (h : Holdings) (p : Pooled) (a : Address) :
    (h.without p).senderCount a ≤ h.senderCount a := by
  unfold senderCount
  rw [nonces_without]
  split
  · exact Std.ExtTreeMap.size_erase_le
  · exact Nat.le_refl _

/-- Taking out a transaction of a sender leaves it one less. -/
theorem Coherent.senderCount_without (hc : h.Coherent) {p : Pooled} (hp : h.get? p.hash = some p) :
    (h.without p).senderCount p.tx.sender + 1 = h.senderCount p.tx.sender := by
  unfold senderCount
  rw [nonces_without, if_pos rfl]
  exact Entries.size_erase (hc.nonce_eq hp)

/-- **The count of a sender counts its transactions**: no more of them are held. -/
theorem Coherent.length_le_senderCount (hc : h.Coherent) {a : Address} {ps : List Pooled}
    (hnodup : ps.Nodup) (hheld : ∀ q ∈ ps, h.get? q.hash = some q ∧ q.tx.sender = a) :
    ps.length ≤ h.senderCount a := by
  have hsub : ps ⊆ h.ofSender a := fun q hq => (mem_ofSender hc).mpr (hheld q hq)
  calc ps.length ≤ (h.ofSender a).length := hnodup.length_le_of_subset hsub
    _ ≤ (h.nonces a).values.length := List.length_filterMap_le _ _
    _ = h.senderCount a := Entries.length_values (h.nonces a)

/-! ## The limits -/

/-- **The limits are kept**: of the whole and of each account. -/
structure Respects (limits : NonceLimits) (h : Holdings) : Prop where
  size_le : h.size ≤ limits.maxTransactions
  senderCount_le : ∀ a, h.senderCount a ≤ limits.maxPerAccount

namespace Respects

variable {limits : NonceLimits}

theorem clear (limits : NonceLimits) (h : Holdings) : h.clear.Respects limits where
  size_le := Nat.zero_le _
  senderCount_le a := by
    unfold senderCount
    rw [nonces_clear]
    exact Nat.zero_le _

theorem without (hr : h.Respects limits) (p : Pooled) : (h.without p).Respects limits where
  size_le := Nat.le_trans (h.size_without_le p) hr.size_le
  senderCount_le a := Nat.le_trans (h.senderCount_without_le p a) (hr.senderCount_le a)

theorem remove (hr : h.Respects limits) (hash : Digest) : (h.remove hash).1.Respects limits := by
  unfold Holdings.remove
  split
  · exact hr
  · next p _ => exact hr.without p

theorem foldl_remove (hr : h.Respects limits) (hashes : List Digest) :
    (hashes.foldl (fun h hash => (h.remove hash).1) h).Respects limits := by
  induction hashes generalizing h with
  | nil => exact hr
  | cons hash rest ih => exact ih (hr.remove hash)

/-- Putting in, where there is room for one more of everything and of the
sender. -/
theorem insert (hr : h.Respects limits) {tx : Transaction} (isLocal : Bool)
    (hnew : h.get? tx.hash = none) (hroom : h.size < limits.maxTransactions)
    (hcount : h.senderCount tx.sender < limits.maxPerAccount) :
    (h.insert tx isLocal).Respects limits where
  size_le := by
    rw [size_insert hnew]
    exact hroom
  senderCount_le a := by
    have hle := h.senderCount_insert_le tx isLocal a
    have hold := hr.senderCount_le a
    split at hle
    · next hsender =>
      rw [hsender] at hcount
      omega
    · omega

end Respects

/-! ## Who is the first to go -/

/-- **The first to make way**: of the transactions from outside the one that pays least, and of
those that pay the same the one that arrived first (`AccountPool::cheapest_remote`). -/
structure FirstToGo (h : Holdings) (v : Pooled) : Prop where
  held : h.get? v.hash = some v
  remote : v.isLocal = false
  least : ∀ q, h.get? q.hash = some q → q.isLocal = false → q ≠ v →
    v.tx.gasPrice < q.tx.gasPrice ∨ (v.tx.gasPrice = q.tx.gasPrice ∧ v.seq < q.seq)

/-- The first in the order of eviction is the first to make way, -/
theorem Coherent.firstToGo_of_cheapest? (hc : h.Coherent) {key : PriceKey}
    (hkey : h.cheapest? = some key) : ∃ v, h.FirstToGo v ∧ PriceKey.of v = key := by
  obtain ⟨hmem, hmin⟩ := Std.ExtTreeSet.min?_eq_some_iff_mem_and_forall.mp hkey
  obtain ⟨v, hv, hremote, rfl⟩ := hc.evictable.mp hmem
  refine ⟨v, ⟨hv, hremote, ?_⟩, rfl⟩
  intro q hq hlocal hne
  have hle := hmin (PriceKey.of q) (hc.evictable.mpr ⟨q, hq, hlocal, rfl⟩)
  rcases PriceKey.of_isLE hle with hprice | ⟨hprice, hseq⟩
  · exact Or.inl hprice
  · -- No two transactions arrived at the same time.
    refine Or.inr ⟨hprice, Nat.lt_of_le_of_ne hseq ?_⟩
    intro hsame
    exact hne (hc.eq_of_seq hq hv hsame.symm)

/-- and nobody is if everything came in through this node's own interface. -/
theorem Coherent.cheapest?_of_local (hc : h.Coherent)
    (hlocal : ∀ q, h.get? q.hash = some q → q.isLocal = true) : h.cheapest? = none := by
  cases hkey : h.cheapest? with
  | none => rfl
  | some key =>
    obtain ⟨v, hfirst, _⟩ := hc.firstToGo_of_cheapest? hkey
    have hremote := hfirst.remote
    rw [hlocal v hfirst.held] at hremote
    cases hremote

/-- **A newcomer comes in for another transaction**, the first to make way, which pays less if
the newcomer is from outside; and nothing else changes (`NoncePool::make_room`). -/
structure Displaces (h h' : Holdings) (tx : Transaction) (isLocal : Bool) (v : Pooled) : Prop where
  first : h.FirstToGo v
  outbid : isLocal = false → v.tx.gasPrice < tx.gasPrice
  other : v.hash ≠ tx.hash
  content : ∀ hash, h'.get? hash =
    if tx.hash = hash then some (h.arriving tx isLocal)
    else if v.hash = hash then none
    else h.get? hash

end Holdings

namespace NoncePool

/-! ## One transaction -/

section
variable {limits : NonceLimits} {seat : Nat} {b : Backend} {s : Space} {tx : Transaction}
  {isLocal : Bool}

/-- **What making room can come to**: there is room, or the first to go makes way
for a newcomer that may ask for it. -/
theorem room_made (hc : s.holdings.Coherent) {roomy : Space}
    (hroom : makeRoom limits seat s tx isLocal = .ok roomy) :
    (s.holdings.size < limits.maxTransactions ∧ roomy = s) ∨
      ∃ v, s.holdings.FirstToGo v ∧ (isLocal = false → v.tx.gasPrice < tx.gasPrice) ∧
        roomy.holdings = s.holdings.without v := by
  unfold makeRoom at hroom
  split at hroom
  · next hlt => exact Or.inl ⟨hlt, (Except.ok.inj hroom).symm⟩
  split at hroom
  · next hash hvictim =>
    right
    unfold victim? at hvictim
    split at hvictim
    · next key hkey =>
      obtain ⟨v, hfirst, rfl⟩ := hc.firstToGo_of_cheapest? hkey
      split at hvictim
      · next hmay =>
        refine ⟨v, hfirst, fun hremote => ?_, ?_⟩
        · rw [hremote, Bool.false_or] at hmay
          exact of_decide_eq_true hmay
        · have hhash : v.hash = hash := Option.some.inj hvictim
          rw [← Except.ok.inj hroom, Space.drop_holdings, ← hhash,
            Holdings.remove_of_some hfirst.held]
      · cases hvictim
    · cases hvictim
  · cases hroom

/-- Nobody makes way where everything came in through this node's own interface. -/
theorem makeRoom_of_local (hc : s.holdings.Coherent) (hfull : s.holdings.size = limits.maxTransactions)
    (hlocal : ∀ q, s.holdings.get? q.hash = some q → q.isLocal = true) :
    makeRoom limits seat s tx isLocal = .error .full := by
  unfold makeRoom victim?
  rw [if_neg (by omega), hc.cheapest?_of_local hlocal]

/-- **Letting in one transaction** keeps the limits. -/
theorem Space.Tidy.respects_letIn (ht : s.Tidy seat none) (hr : s.holdings.Respects limits)
    (b : Backend) (tx : Transaction) (isLocal : Bool) :
    (NoncePool.letIn limits seat b s tx isLocal).1.holdings.Respects limits := by
  have hl := letIn_letting limits seat b s tx isLocal
  generalize NoncePool.letIn limits seat b s tx isLocal = result at hl ⊢
  cases hl with
  | refused e => exact hr
  | replaced old h hold hprice =>
    obtain ⟨hget, hsender, _⟩ := ht.coherent.of_atNonce? hold
    have hsize := Holdings.size_without hget
    have hcount := ht.coherent.senderCount_without hget
    rw [hsender] at hcount
    have hsizeLe := hr.size_le
    have hcountLe := hr.senderCount_le tx.sender
    show ((s.holdings.remove old.hash).1.insert tx isLocal).Respects limits
    rw [Holdings.remove_of_some hget]
    -- The one that goes makes room for the one that comes, in the whole and in the account.
    refine (hr.without old).insert isLocal ?_ (by omega) (by omega)
    exact (Holdings.Within.without s.holdings old).get?_eq_none h.fresh
  | crowded claimed e h hnone hcount hclaim hroom =>
    show (claimed.settle seat none tx.sender).holdings.Respects limits
    rw [Space.settle_holdings, claimSender_holdings hclaim]
    exact hr
  | entered claimed roomy h hnone hcount hclaim hroom =>
    have hsame := claimSender_holdings hclaim
    have hsizeLe := hr.size_le
    show (roomy.holdings.insert tx isLocal).Respects limits
    rcases room_made (hsame ▸ ht.coherent) hroom with ⟨hlt, rfl⟩ | ⟨v, hfirst, _, hroomy⟩
    · rw [hsame] at hlt ⊢
      exact hr.insert isLocal h.fresh hlt hcount
    · rw [hsame] at hfirst hroomy
      have hsize := Holdings.size_without hfirst.held
      have hfewer := s.holdings.senderCount_without_le v tx.sender
      rw [hroomy]
      refine (hr.without v).insert isLocal ?_ (by omega) (by omega)
      exact (Holdings.Within.without s.holdings v).get?_eq_none h.fresh

/-- **In a full sub-pool** a newcomer that is let in displaces the first to go. -/
theorem Space.Tidy.displaces_letIn (ht : s.Tidy seat none)
    (hfull : s.holdings.size = limits.maxTransactions)
    (hfree : s.holdings.atNonce? tx.sender tx.nonce = none)
    (hok : (NoncePool.letIn limits seat b s tx isLocal).2 = .ok ()) :
    ∃ v, s.holdings.Displaces (NoncePool.letIn limits seat b s tx isLocal).1.holdings tx isLocal v := by
  have hl := letIn_letting limits seat b s tx isLocal
  generalize NoncePool.letIn limits seat b s tx isLocal = result at hl hok ⊢
  cases hl with
  | refused e => cases hok
  | replaced old h hold hprice =>
    rw [hfree] at hold
    cases hold
  | crowded claimed e h hnone hcount hclaim hroom => cases hok
  | entered claimed roomy h hnone hcount hclaim hroom =>
    have hsame := claimSender_holdings hclaim
    rcases room_made (hsame ▸ ht.coherent) hroom with ⟨hlt, _⟩ | ⟨v, hfirst, houtbid, hroomy⟩
    · rw [hsame] at hlt
      omega
    · rw [hsame] at hfirst hroomy
      have hother : v.hash ≠ tx.hash := by
        intro hhash
        have hheld := hfirst.held
        rw [hhash, h.fresh] at hheld
        cases hheld
      refine ⟨v, hfirst, houtbid, hother, fun hash => ?_⟩
      show (roomy.holdings.insert tx isLocal).get? hash = _
      rw [hroomy, Holdings.get?_insert, Holdings.get?_without]
      rfl

/-- Where nobody makes way a full sub-pool refuses. -/
theorem Space.Tidy.letIn_of_local (ht : s.Tidy seat none)
    (hfull : s.holdings.size = limits.maxTransactions)
    (hfree : s.holdings.atNonce? tx.sender tx.nonce = none)
    (hlocal : ∀ q, s.holdings.get? q.hash = some q → q.isLocal = true) (b : Backend) (isLocal : Bool) :
    ∃ e, (NoncePool.letIn limits seat b s tx isLocal).2 = .error e := by
  have hl := letIn_letting limits seat b s tx isLocal
  generalize NoncePool.letIn limits seat b s tx isLocal = result at hl ⊢
  cases hl with
  | refused e => exact ⟨e, rfl⟩
  | replaced old h hold hprice =>
    rw [hfree] at hold
    cases hold
  | crowded claimed e h hnone hcount hclaim hroom => exact ⟨e, rfl⟩
  | entered claimed roomy h hnone hcount hclaim hroom =>
    have hsame := claimSender_holdings hclaim
    rw [← hsame] at hfull hlocal
    rw [makeRoom_of_local (hsame ▸ ht.coherent) hfull hlocal] at hroom
    cases hroom

/-- **What came in through this node's own interface** makes way for nobody. It
leaves only for a transaction that takes its place. -/
theorem Space.Tidy.spares_letIn (ht : s.Tidy seat none) {q : Pooled}
    (hq : s.holdings.get? q.hash = some q) (hlocal : q.isLocal = true) (limits : NonceLimits)
    (b : Backend) (tx : Transaction) (isLocal : Bool) :
    (NoncePool.letIn limits seat b s tx isLocal).1.holdings.get? q.hash = some q ∨
      ((NoncePool.letIn limits seat b s tx isLocal).2 = .ok () ∧
        tx.sender = q.tx.sender ∧ tx.nonce = q.tx.nonce) := by
  have hl := letIn_letting limits seat b s tx isLocal
  generalize NoncePool.letIn limits seat b s tx isLocal = result at hl ⊢
  cases hl with
  | refused e => exact Or.inl hq
  | replaced old h hold hprice =>
    obtain ⟨hget, hsender, hnonce⟩ := ht.coherent.of_atNonce? hold
    by_cases hsame : old = q
    · subst hsame
      exact Or.inr ⟨rfl, hsender.symm, hnonce.symm⟩
    · left
      show ((s.holdings.remove old.hash).1.insert tx isLocal).get? q.hash = some q
      rw [Holdings.remove_of_some hget]
      apply Holdings.Coherent.get?_insert_of_some
      · exact (Holdings.Within.without s.holdings old).get?_eq_none h.fresh
      · rw [Holdings.get?_without, if_neg, hq]
        intro hhash
        rw [hhash, hq] at hget
        exact hsame (Option.some.inj hget).symm
  | crowded claimed e h hnone hcount hclaim hroom =>
    left
    show (claimed.settle seat none tx.sender).holdings.get? q.hash = some q
    rw [Space.settle_holdings, claimSender_holdings hclaim, hq]
  | entered claimed roomy h hnone hcount hclaim hroom =>
    left
    have hsame := claimSender_holdings hclaim
    show (roomy.holdings.insert tx isLocal).get? q.hash = some q
    rcases room_made (hsame ▸ ht.coherent) hroom with ⟨_, rfl⟩ | ⟨v, hfirst, _, hroomy⟩
    · rw [hsame]
      exact Holdings.Coherent.get?_insert_of_some h.fresh hq
    · rw [hsame] at hfirst hroomy
      rw [hroomy]
      apply Holdings.Coherent.get?_insert_of_some
      · exact (Holdings.Within.without s.holdings v).get?_eq_none h.fresh
      · rw [Holdings.get?_without, if_neg, hq]
        -- Whoever makes way is from outside.
        intro hhash
        have hheld := hfirst.held
        have hremote := hfirst.remote
        rw [hhash, hq] at hheld
        rw [← Option.some.inj hheld, hlocal] at hremote
        cases hremote

end

/-! ## A batch -/

section
variable {limits : NonceLimits} {seat : Nat} {b : Backend} {isLocal : Bool}

theorem Space.Tidy.respects_letInAll {s : Space} (ht : s.Tidy seat none)
    (hr : s.holdings.Respects limits) (b : Backend) (isLocal : Bool) (txs : List Transaction) :
    (NoncePool.letInAll limits seat b isLocal s txs).1.holdings.Respects limits := by
  induction txs generalizing s with
  | nil => exact hr
  | cons tx rest ih => exact ih (ht.letIn limits b tx isLocal).1 (ht.respects_letIn hr b tx isLocal)

theorem Space.Tidy.spares_letInAll {s : Space} (ht : s.Tidy seat none) {q : Pooled}
    (hq : s.holdings.get? q.hash = some q) (hlocal : q.isLocal = true) (limits : NonceLimits)
    (b : Backend) (isLocal : Bool) (txs : List Transaction) :
    (NoncePool.letInAll limits seat b isLocal s txs).1.holdings.get? q.hash = some q ∨
      ∃ tx ∈ accepted (NoncePool.letInAll limits seat b isLocal s txs).2,
        tx.sender = q.tx.sender ∧ tx.nonce = q.tx.nonce := by
  induction txs generalizing s with
  | nil => exact Or.inl hq
  | cons tx rest ih =>
    rcases ht.spares_letIn hq hlocal limits b tx isLocal with hstays | ⟨hok, hplace⟩
    · rcases ih (ht.letIn limits b tx isLocal).1 hstays with hstays' | ⟨tx', htx', hplace⟩
      · exact Or.inl hstays'
      · exact Or.inr ⟨tx', subset_accepted_cons _ _ htx', hplace⟩
    · refine Or.inr ⟨tx, ?_, hplace⟩
      show tx ∈ accepted ((tx, (NoncePool.letIn limits seat b s tx isLocal).2) :: _)
      rw [hok, accepted_cons_ok]
      exact List.mem_cons_self

theorem letInAll_append (s : Space) (txs txs' : List Transaction) :
    letInAll limits seat b isLocal s (txs ++ txs')
      = ((letInAll limits seat b isLocal (letInAll limits seat b isLocal s txs).1 txs').1,
          (letInAll limits seat b isLocal s txs).2 ++
            (letInAll limits seat b isLocal (letInAll limits seat b isLocal s txs).1 txs').2) := by
  induction txs generalizing s with
  | nil => rfl
  | cons tx rest ih =>
    rw [List.cons_append, letInAll, letInAll]
    simp only [ih, List.cons_append]

end

/-! ## A sub-pool at the table -/

section
variable {p : NoncePool} {seat : Nat} {c : Commons}

/-- **A batch is taken in piece by piece**: the sub-pool and the table come out
the same, and the outcomes stand one after the other. -/
theorem add_append (p : NoncePool) (b : Backend) (c : Commons) (txs txs' : List Transaction)
    (isLocal : Bool) :
    (p.add b c (txs ++ txs') isLocal).1
        = ((p.add b c txs isLocal).1.add b (p.add b c txs isLocal).2.1 txs' isLocal).1 ∧
      (p.add b c (txs ++ txs') isLocal).2.1.reservations
        = ((p.add b c txs isLocal).1.add b (p.add b c txs isLocal).2.1 txs' isLocal).2.1.reservations ∧
      (p.add b c (txs ++ txs') isLocal).2.2
        = (p.add b c txs isLocal).2.2 ++
            ((p.add b c txs isLocal).1.add b (p.add b c txs isLocal).2.1 txs' isLocal).2.2 := by
  cases hseat : p.seat with
  | none =>
    simp only [add_of_unseated hseat, List.map_append, and_self]
  | some seat =>
    have hbetween : (p.add b c txs isLocal).1.seat = some seat := by
      rw [add_of_seat hseat]
      exact hseat
    rw [add_of_seat hbetween, add_of_seat hseat, add_of_seat hseat, letInAll_append]
    exact ⟨rfl, rfl, List.map_append⟩

/-- The only outcome of a transaction that is offered alone. -/
theorem snd_add_singleton (hseat : p.seat = some seat) (b : Backend) (c : Commons)
    (tx : Transaction) (isLocal : Bool) :
    (p.add b c [tx] isLocal).2.2
      = [(letIn p.limits seat b (p.space c.reservations) tx isLocal).2] := by
  rw [add_of_seat hseat]
  rfl

theorem holdings_add_singleton (hseat : p.seat = some seat) (b : Backend) (c : Commons)
    (tx : Transaction) (isLocal : Bool) :
    (p.add b c [tx] isLocal).1.holdings
      = (letIn p.limits seat b (p.space c.reservations) tx isLocal).1.holdings := by
  rw [add_of_seat hseat]
  rfl

namespace InLine

theorem respects_add (h : p.InLine c.reservations) (hr : p.holdings.Respects p.limits) (b : Backend)
    (txs : List Transaction) (isLocal : Bool) :
    (p.add b c txs isLocal).1.holdings.Respects (p.add b c txs isLocal).1.limits := by
  cases hseat : p.seat with
  | none =>
    rw [add_of_unseated hseat]
    exact hr
  | some seat =>
    rw [add_of_seat hseat]
    exact (h.in_order seat hseat).tidy.respects_letInAll hr b isLocal txs

theorem displaces_add (h : p.InLine c.reservations) {b : Backend} {tx : Transaction} {isLocal : Bool}
    (hfull : p.holdings.size = p.limits.maxTransactions)
    (hfree : p.holdings.atNonce? tx.sender tx.nonce = none)
    (hok : (p.add b c [tx] isLocal).2.2 = [.ok ()]) :
    ∃ v, p.holdings.Displaces (p.add b c [tx] isLocal).1.holdings tx isLocal v := by
  cases hseat : p.seat with
  | none =>
    rw [add_of_unseated hseat] at hok
    cases hok
  | some seat =>
    rw [snd_add_singleton hseat] at hok
    rw [holdings_add_singleton hseat]
    exact (h.in_order seat hseat).tidy.displaces_letIn hfull hfree (List.head_eq_of_cons_eq hok)

theorem add_of_local (h : p.InLine c.reservations) (b : Backend) {tx : Transaction} (isLocal : Bool)
    (hfull : p.holdings.size = p.limits.maxTransactions)
    (hfree : p.holdings.atNonce? tx.sender tx.nonce = none)
    (hlocal : ∀ q, p.holdings.get? q.hash = some q → q.isLocal = true) :
    ∃ e, (p.add b c [tx] isLocal).2.2 = [.error e] := by
  cases hseat : p.seat with
  | none =>
    rw [add_of_unseated hseat]
    exact ⟨.closed, rfl⟩
  | some seat =>
    obtain ⟨e, he⟩ := (h.in_order seat hseat).tidy.letIn_of_local hfull hfree hlocal b isLocal
    rw [snd_add_singleton hseat, he]
    exact ⟨e, rfl⟩

theorem spares_add (h : p.InLine c.reservations) (b : Backend) (txs : List Transaction)
    (isLocal : Bool) {q : Pooled} (hq : p.holdings.get? q.hash = some q) (hlocal : q.isLocal = true) :
    (p.add b c txs isLocal).1.holdings.get? q.hash = some q ∨
      ∃ tx ∈ accepted (txs.zip (p.add b c txs isLocal).2.2),
        tx.sender = q.tx.sender ∧ tx.nonce = q.tx.nonce := by
  cases hseat : p.seat with
  | none =>
    rw [add_of_unseated hseat]
    exact Or.inl hq
  | some seat =>
    have hspared := (h.in_order seat hseat).tidy.spares_letInAll hq hlocal p.limits b isLocal
      txs
    have hfst := map_fst_letInAll p.limits seat b isLocal (p.space c.reservations) txs
    rw [add_of_seat hseat]
    unfold concluded
    dsimp only
    rw [zip_map_snd hfst]
    exact hspared

end InLine

/-! ## In the course of its life -/

/-- **Whatever happens to a sub-pool**, it keeps its limits. -/
theorem Reached.respects (h : Reached p c) : p.holdings.Respects p.limits := by
  induction h with
  | made name limits claims c => exact Holdings.Respects.clear limits Holdings.empty
  | attached h seat head hfree ih =>
    unfold attach
    split
    · exact ih
    · exact ih
  | tookIn h b txs isLocal ih => exact h.inLine.respects_add ih b txs isLocal
  | @caughtUp p c h b new ih =>
    unfold reset
    split
    · exact ih
    · next seat _ =>
      show ((stale b p.holdings).foldl (fun s hash => s.drop seat none hash)
        (p.space c.reservations)).holdings.Respects p.limits
      rw [foldl_drop_holdings]
      exact ih.foldl_remove _
  | @left p c h ih =>
    unfold detach
    split
    · exact ih
    · exact Holdings.Respects.clear p.limits p.holdings
  | meanwhile h c' hown ih => exact ih

/-- **How much a sub-pool holds, and who makes way** (`NoncePool::add_one`). -/
structure KeepsLimits (p : NoncePool) (c : Commons) : Prop where
  /-- It holds no more than it may, -/
  size_le : p.holdings.size ≤ p.limits.maxTransactions
  /-- and no more of one account than it may. -/
  account_le : ∀ (a : Address) (ps : List Pooled), ps.Nodup →
    (∀ q ∈ ps, p.holdings.get? q.hash = some q ∧ q.tx.sender = a) → ps.length ≤ p.limits.maxPerAccount
  /-- If it is full, a newcomer at a free nonce that is let in displaces the first
  to go, -/
  displaces : ∀ (b : Backend) (tx : Transaction) (isLocal : Bool),
    p.holdings.size = p.limits.maxTransactions → p.holdings.atNonce? tx.sender tx.nonce = none →
      (p.add b c [tx] isLocal).2.2 = [.ok ()] →
        ∃ v, p.holdings.Displaces (p.add b c [tx] isLocal).1.holdings tx isLocal v
  /-- and where everything came in through this node's own interface, every such
  newcomer is refused. -/
  refuses : ∀ (b : Backend) (tx : Transaction) (isLocal : Bool),
    p.holdings.size = p.limits.maxTransactions → p.holdings.atNonce? tx.sender tx.nonce = none →
      (∀ q, p.holdings.get? q.hash = some q → q.isLocal = true) →
        ∃ e, (p.add b c [tx] isLocal).2.2 = [.error e]
  /-- What came in through this node's own interface leaves only for a transaction
  that takes its place. -/
  spares : ∀ (b : Backend) (txs : List Transaction) (isLocal : Bool) (q : Pooled),
    p.holdings.get? q.hash = some q → q.isLocal = true →
      (p.add b c txs isLocal).1.holdings.get? q.hash = some q ∨
        ∃ tx ∈ accepted (txs.zip (p.add b c txs isLocal).2.2),
          tx.sender = q.tx.sender ∧ tx.nonce = q.tx.nonce
  /-- In a batch, each transaction meets what those before it have left. -/
  in_turn : ∀ (b : Backend) (txs : List Transaction) (tx : Transaction) (isLocal : Bool),
    ∃ p' c', Reached p' c' ∧ p' = (p.add b c txs isLocal).1 ∧
      (p.add b c (txs ++ [tx]) isLocal).1 = (p'.add b c' [tx] isLocal).1 ∧
      (p.add b c (txs ++ [tx]) isLocal).2.2
        = (p.add b c txs isLocal).2.2 ++ (p'.add b c' [tx] isLocal).2.2

/-- **The limits hold and the cheapest makes way**, whatever happened to a sub-pool
before: in every state that it can reach, with any limits. -/
theorem Reached.keepsLimits (h : Reached p c) : p.KeepsLimits c where
  size_le := h.respects.size_le
  account_le a ps hnodup hheld :=
    Nat.le_trans (h.inLine.coherent.length_le_senderCount hnodup hheld) (h.respects.senderCount_le a)
  displaces _ _ _ hfull hfree hok := h.inLine.displaces_add hfull hfree hok
  refuses b _ isLocal hfull hfree hlocal := h.inLine.add_of_local b isLocal hfull hfree hlocal
  spares b txs isLocal _ hq hlocal := h.inLine.spares_add b txs isLocal hq hlocal
  in_turn b txs tx isLocal := by
    obtain ⟨hpool, _, houtcomes⟩ := p.add_append b c txs [tx] isLocal
    exact ⟨_, _, h.tookIn b txs isLocal, rfl, hpool, houtcomes⟩

end

/-! ## One that is full -/

/-- A sub-pool with room for one transaction, which is at a price of ten. -/
def full : NoncePool × Commons :=
  alone ⟨1, 4, 10⟩ (PoolSet.answering 0 0) [Coordinator.paying (Amount.ofNat 10) []]

/-- A transaction that is next, at a price of eleven. -/
def dearer : Transaction := { Coordinator.paying (Amount.ofNat 11) [] with nonce := 1 }

theorem taken_in_full :
    (full.1.holdings.size, full.1.limits.maxTransactions,
      (full.1.holdings.atNonce? dearer.sender dearer.nonce).isNone,
      (full.1.add (PoolSet.answering 0 0) full.2 [dearer] false).2.2.map Except.toOption)
    = (1, 1, true, [some ()]) := by
  -- The least of a set does not evaluate, the first of its list does.
  simp only [add, letInAll, letIn, makeRoom, victim?, Holdings.cheapest?,
    Std.ExtTreeSet.min?_eq_head?_toList]
  decide +kernel

/-- The one at eleven comes in for the one at ten. -/
theorem displaces_of_dearer :
    Reached full.1 full.2 ∧ full.1.KeepsLimits full.2 ∧
      ∃ v, full.1.holdings.Displaces
        (full.1.add (PoolSet.answering 0 0) full.2 [dearer] false).1.holdings dearer false v := by
  obtain ⟨hsize, hlimit, hfree, houtcome⟩ := by
    simpa only [Prod.mk.injEq] using taken_in_full
  have hok : (full.1.add (PoolSet.answering 0 0) full.2 [dearer] false).2.2 = [.ok ()] := by
    obtain ⟨r, hr, hvalue⟩ := List.map_eq_singleton_iff.mp houtcome
    cases r with
    | ok _ => exact hr
    | error e => cases hvalue
  have hreached : Reached full.1 full.2 := reached_alone _ _ _
  have hkeeps := Reached.keepsLimits hreached
  exact ⟨hreached, hkeeps, hkeeps.displaces _ dearer false (hsize.trans hlimit.symm)
    (Option.isNone_iff_eq_none.mp hfree) hok⟩

end NoncePool

end TxRelay
