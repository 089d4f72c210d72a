/-
What a sub-pool keeps on a reset.

The transactions to drop are collected over all accounts first and dropped one
by one afterwards, and with the last one of an account the account is given up.
What is left is determined all the same: a transaction stays with its mark and
its time of arrival if it is acceptable and not behind its sender, an account
stays claimed if something of it stays, and there is nothing left to drop.
-/
import Mathlib.Data.List.Sort
import TxRelay.Proofs.Halves
import TxRelay.Proofs.PoolFilter
import TxRelay.Proofs.Seating

set_option autoImplicit false

namespace TxRelay

/-- **Dropping transactions leaves the others in order**: what is listed as newest
first depends only on what is held. -/
theorem Holdings.newestFirst_eq_filter {h h' : Holdings} (hc : h.Coherent) (hc' : h'.Coherent)
    {keep : Pooled → Bool}
    (hkept : ∀ hash q, h'.get? hash = some q ↔ h.get? hash = some q ∧ keep q = true) :
    h'.newestFirst = h.newestFirst.filter keep := by
  have : Std.Irrefl fun q q' : Pooled => q'.seq < q.seq := ⟨fun q => Nat.lt_irrefl q.seq⟩
  have : Std.Antisymm fun q q' : Pooled => q'.seq < q.seq :=
    ⟨fun _ _ hlt hgt => absurd hgt (Nat.lt_asymm hlt)⟩
  apply (pairwise_newestFirst hc').eq_of_mem_iff ((pairwise_newestFirst hc).filter keep)
  intro q
  rw [List.mem_filter, mem_newestFirst hc', mem_newestFirst hc]
  exact hkept q.hash q

namespace NoncePool

variable {b : Backend}

theorem isStale_eq_true_iff {next : UInt64} {tx : Transaction} :
    isStale b next tx = true ↔ ¬(b.validate tx = .ok () ∧ ¬tx.nonce < next) := by
  rw [← isStale_eq_false_iff, Bool.not_eq_false]

/-- Nothing is stale where everything is acceptable and not behind its sender. -/
theorem stale_eq_nil {h : Holdings} (hc : h.Coherent)
    (hfresh : ∀ hash q, h.get? hash = some q →
      b.validate q.tx = .ok () ∧ ¬q.tx.nonce < b.nonce q.tx.sender) : stale b h = [] := by
  apply List.eq_nil_iff_forall_not_mem.mpr
  intro hash hmem
  obtain ⟨q, hq, hstale⟩ := (mem_stale hc).mp hmem
  exact isStale_eq_true_iff.mp hstale (hfresh hash q hq)

/-- A sub-pool without anything stale, at the same head, stays as it is. -/
theorem reset_of_fresh {p : NoncePool} {seat : Nat} {c : Commons} {head : Header}
    (hseat : p.seat = some seat) (hhead : p.head = some head) (hstale : stale b p.holdings = []) :
    p.reset b c head = (p, c) := by
  rw [reset, hseat, hstale, ← hhead]
  rfl

/-- **A sub-pool has caught up with a head** (`NoncePool::reset`). -/
structure CaughtUp (seat : Nat) (b : Backend) (head : Header) (p p' : NoncePool) (c c' : Commons) :
    Prop where
  /-- It holds what it held before, as far as it is not behind its sender and still
  acceptable, with its mark and its time of arrival, -/
  get?_iff : ∀ hash q, p'.holdings.get? hash = some q ↔
    p.holdings.get? hash = some q ∧ b.nonce q.tx.sender ≤ q.tx.nonce ∧ b.validate q.tx = .ok ()
  /-- in the order in which it arrived. -/
  newestFirst_eq : p'.holdings.newestFirst = p.holdings.newestFirst.filter fun q =>
    !isStale b (b.nonce q.tx.sender) q.tx
  /-- It claims the accounts of which it holds something, -/
  owner_iff : ∀ a, c'.reservations.owner? a = some seat ↔
    ∃ hash q, p'.holdings.get? hash = some q ∧ q.tx.sender = a
  /-- and failed to give up none. -/
  unreleased_eq : p'.unreleased = []
  head_eq : p'.head = some head
  /-- Other sub-pools claim what they claimed, -/
  others : ∀ a seat', seat' ≠ seat →
    (c'.reservations.owner? a = some seat' ↔ c.reservations.owner? a = some seat')
  /-- and nothing is announced. -/
  bus_eq : c'.bus = c.bus
  /-- The sub-pool is the same otherwise. -/
  same : p'.name = p.name ∧ p'.limits = p.limits ∧ p'.claims = p.claims ∧ p'.seat = p.seat
  /-- Doing it again changes nothing. -/
  again : ∀ old, SubPool.reset p' b c' old head = some (p', c')

/-- A reset of a sub-pool in order on its seat. -/
theorem InOrder.caughtUp_reset {p : NoncePool} {c : Commons} {seat : Nat}
    (hin : p.InOrder seat c.reservations) (hseat : p.seat = some seat) (b : Backend) (new : Header) :
    CaughtUp seat b new p (p.reset b c new).1 c (p.reset b c new).2 := by
  have hcoherent : p.holdings.Coherent := hin.tidy.coherent
  obtain ⟨hin', hagree⟩ := hin.reset b new
  have hcoherent' : (p.reset b c new).1.holdings.Coherent := hin'.tidy.coherent
  have hkept : ∀ hash q, (p.reset b c new).1.holdings.get? hash = some q ↔
      p.holdings.get? hash = some q ∧ b.validate q.tx = .ok () ∧ ¬q.tx.nonce < b.nonce q.tx.sender :=
    fun hash q => get?_reset_iff hcoherent hseat
  have hsame : (p.reset b c new).1.head = some new ∧ (p.reset b c new).2.bus = c.bus ∧
      (p.reset b c new).1.name = p.name ∧ (p.reset b c new).1.limits = p.limits ∧
      (p.reset b c new).1.claims = p.claims ∧ (p.reset b c new).1.seat = p.seat := by
    rw [NoncePool.reset, hseat]
    exact ⟨rfl, rfl, rfl, rfl, rfl, hseat⟩
  obtain ⟨hhead, hbus, hname, hlimits, hclaims, hseat'⟩ := hsame
  exact {
    get?_iff := fun hash q => by
      rw [hkept, UInt64.not_lt, and_comm (a := b.validate q.tx = .ok ())]
    newestFirst_eq := by
      apply Holdings.newestFirst_eq_filter hcoherent hcoherent'
      intro hash q
      rw [hkept, Bool.not_eq_true', isStale_eq_false_iff]
    owner_iff := fun a => by
      apply (hin'.tidy.owner_iff a).trans
      simp only [reduceCtorEq, or_false]
      rfl
    unreleased_eq := hin'.tidy.unreleased
    head_eq := hhead
    others := hagree.owner_iff
    bus_eq := hbus
    same := ⟨hname, hlimits, hclaims, hseat'⟩
    again := fun _ => by
      apply congrArg some
      apply reset_of_fresh (hseat'.trans hseat) hhead
      apply stale_eq_nil hcoherent'
      intro hash q hq
      exact ((hkept hash q).mp hq).2 }

/-- **A reset keeps exactly what is still valid**, whatever happened to a sub-pool
before: on its seat it catches up with every head, by what the execution layer
says at the time. -/
theorem Reached.exists_caughtUp {p : NoncePool} {c : Commons} {seat : Nat} (h : Reached p c)
    (hseat : p.seat = some seat) (b : Backend) (old new : Header) :
    ∃ p' c', SubPool.reset p b c old new = some (p', c') ∧ CaughtUp seat b new p p' c c' :=
  ⟨_, _, rfl, (h.inLine.in_order seat hseat).caughtUp_reset hseat b new⟩

/-- A sub-pool that holds the first two transactions of an account. -/
def holdingTwo : NoncePool × Commons := alone .small (PoolSet.answering 0 0) [default, PoolSet.second]

theorem holds_holdingTwo :
    holdingTwo.1.seat = some 0 ∧
      (holdingTwo.1.holdings.get? (default : Transaction).hash).map Pooled.tx = some default ∧
      (holdingTwo.1.holdings.get? PoolSet.second.hash).map Pooled.tx = some PoolSet.second := by
  decide +kernel

/-- Once it is the turn of the second, a reset drops the first and keeps the second. -/
theorem caughtUp_holdingTwo :
    ∃ p' c', SubPool.reset holdingTwo.1 (PoolSet.answering 1 0) holdingTwo.2 default default
        = some (p', c') ∧
      CaughtUp 0 (PoolSet.answering 1 0) default holdingTwo.1 p' holdingTwo.2 c' ∧
      p'.holdings.get? (default : Transaction).hash = none ∧
      (p'.holdings.get? PoolSet.second.hash).map Pooled.tx = some PoolSet.second := by
  obtain ⟨hseat, hfirst, hsecond⟩ := holds_holdingTwo
  have hreached : Reached holdingTwo.1 holdingTwo.2 := reached_alone _ _ _
  obtain ⟨p', c', hreset, hcaught⟩ :=
    Reached.exists_caughtUp hreached hseat (PoolSet.answering 1 0) default default
  refine ⟨p', c', hreset, hcaught, ?_, ?_⟩
  · obtain ⟨q, hq, htx⟩ := Option.map_eq_some_iff.mp hfirst
    apply Option.eq_none_iff_forall_ne_some.mpr
    intro q' hq'
    obtain ⟨hbefore, hahead, _⟩ := (hcaught.get?_iff _ _).mp hq'
    rw [hq] at hbefore
    rw [← Option.some.inj hbefore, htx] at hahead
    exact absurd hahead (by decide)
  · obtain ⟨q, hq, htx⟩ := Option.map_eq_some_iff.mp hsecond
    rw [(hcaught.get?_iff _ q).mpr ⟨hq, ?_, rfl⟩, Option.map_some, htx]
    rw [htx]
    decide

end NoncePool

end TxRelay
