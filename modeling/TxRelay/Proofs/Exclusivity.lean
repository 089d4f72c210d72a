/-
An account belongs to the one sub-pool that holds transactions of it.

The table of claimed accounts is shared, and claims are made and given up in
many places: before a first transaction, when there is no room after all, when
another sender's last transaction is evicted, on resets and in the end. Each
sub-pool keeps its own part of the table in step with its transactions and does
not touch the rest, so an invariant with one clause for each seat survives
whatever the sub-pools do, in whichever order they do it.
-/
import TxRelay.Pool.Coordinator
import TxRelay.Proofs.NoncePool

set_option autoImplicit false

namespace TxRelay

open Reservations (AgreeOn)

/-! ## One sub-pool -/

namespace NoncePool

/-- **A sub-pool is in order on its seat** at a table of claimed accounts. It
may have left the seat, with nothing. -/
structure InOrder (seat : Nat) (r : Reservations) (p : NoncePool) : Prop where
  seated : p.seat = some seat ∨ (p.seat = none ∧ ∀ hash, p.holdings.get? hash = none)
  tidy : (p.space r).Tidy seat none

namespace InOrder

variable {p : NoncePool} {seat : Nat} {r r' : Reservations} {c : Commons}

/-- What happens on other seats is no concern of a sub-pool. -/
theorem of_agreeOn {seats : Nat → Prop} (h : p.InOrder seat r) (hagree : AgreeOn seats r r')
    (hseat : seats seat) : p.InOrder seat r' :=
  ⟨h.seated, h.tidy.coherent, fun a => (hagree.owner_iff a seat hseat).trans (h.tidy.owner_iff a),
    h.tidy.unreleased⟩

/-- Taking in a batch. -/
theorem add (h : p.InOrder seat c.reservations) (b : Backend) (txs : List Transaction)
    (isLocal : Bool) :
    (p.add b c txs isLocal).1.InOrder seat (p.add b c txs isLocal).2.1.reservations ∧
      AgreeOn (· ≠ seat) c.reservations (p.add b c txs isLocal).2.1.reservations := by
  rw [NoncePool.add]
  rcases h.seated with hseat | ⟨hseat, _⟩
  · rw [hseat]
    obtain ⟨ht, hagree⟩ := h.tidy.letInAll p.limits b isLocal txs
    exact ⟨⟨Or.inl hseat, ht⟩, hagree⟩
  · rw [hseat]
    exact ⟨h, AgreeOn.refl _ _⟩

/-- Catching up with a new head. -/
theorem reset (h : p.InOrder seat c.reservations) (b : Backend) (new : Header) :
    (p.reset b c new).1.InOrder seat (p.reset b c new).2.reservations ∧
      AgreeOn (· ≠ seat) c.reservations (p.reset b c new).2.reservations := by
  rw [NoncePool.reset]
  rcases h.seated with hseat | ⟨hseat, _⟩
  · rw [hseat]
    obtain ⟨ht, hagree⟩ := h.tidy.dropAll (stale b p.holdings)
    exact ⟨⟨Or.inl hseat, ht⟩, hagree⟩
  · rw [hseat]
    exact ⟨h, AgreeOn.refl _ _⟩

/-- Leaving the seat. -/
theorem detach (h : p.InOrder seat c.reservations) :
    (p.detach c).1.InOrder seat (p.detach c).2.1.reservations ∧
      AgreeOn (· ≠ seat) c.reservations (p.detach c).2.1.reservations := by
  rw [NoncePool.detach]
  rcases h.seated with hseat | ⟨hseat, _⟩
  · rw [hseat]
    -- The listed senders are the accounts of the seat, so all of them are given up.
    have hmem := h.tidy.coherent.mem_senders_iff
    have hown : ∀ a ∈ p.holdings.senders, c.reservations.owner? a = some seat :=
      fun a ha => (h.tidy.owner_iff a).mpr (Or.inl ((hmem a).mp ha))
    obtain ⟨herrors, howners, hagree⟩ :=
      Reservations.releaseAll_of_owner p.holdings.nodup_senders hown
    refine ⟨⟨Or.inr ⟨rfl, fun hash => p.holdings.get?_clear hash⟩, ?_, fun a => ?_, ?_⟩, hagree⟩
    · exact Holdings.Coherent.clear p.holdings
    · show (c.reservations.releaseAll seat p.holdings.senders).1.owner? a = some seat ↔ _
      rw [howners a]
      constructor
      · intro howner
        split at howner
        · cases howner
        · next hnot =>
          rcases (h.tidy.owner_iff a).mp howner with hheld | hfalse
          · exact absurd ((hmem a).mpr hheld) hnot
          · cases hfalse
      · rintro (⟨hash, q, hq, _⟩ | hfalse)
        · have hnone : (p.holdings.clear).get? hash = some q := hq
          rw [Holdings.get?_clear] at hnone
          cases hnone
        · cases hfalse
    · show p.unreleased ++ (c.reservations.releaseAll seat p.holdings.senders).2 = []
      rw [herrors, List.append_nil]
      exact h.tidy.unreleased
  · rw [hseat]
    exact ⟨h, AgreeOn.refl _ _⟩

end InOrder

/-! ## Sub-pools at one table -/

/-- **The sub-pools at a table are exclusive**: each is in order on the seat of
its index, and nobody else has accounts. -/
structure Exclusive (pools : List NoncePool) (r : Reservations) : Prop where
  in_order : ∀ (i : Nat) (p : NoncePool), pools[i]? = some p → p.InOrder i r
  owner_lt : ∀ a i, r.owner? a = some i → i < pools.length
  /-- Nobody claimed what it had. -/
  anomalies_eq : r.anomalies = 0

/-- Something that a sub-pool does on its seat keeps the sub-pool in order and
leaves the other seats alone. -/
def KeepsSeats (op : Nat → NoncePool → Commons → NoncePool × Commons) : Prop :=
  ∀ i p c, p.InOrder i c.reservations →
    (op i p c).1.InOrder i (op i p c).2.reservations ∧
      AgreeOn (· ≠ i) c.reservations (op i p c).2.reservations

/-- The sub-pools from index `i` on do something, one after the other. -/
def sweep (op : Nat → NoncePool → Commons → NoncePool × Commons) :
    Nat → Commons → List NoncePool → List NoncePool × Commons
  | _, c, [] => ([], c)
  | i, c, p :: rest =>
    let (p, c) := op i p c
    let (rest, c) := sweep op (i + 1) c rest
    (p :: rest, c)

section
variable {op : Nat → NoncePool → Commons → NoncePool × Commons}

theorem length_sweep (k : Nat) (c : Commons) (pools : List NoncePool) :
    (sweep op k c pools).1.length = pools.length := by
  induction pools generalizing k c with
  | nil => rfl
  | cons p rest ih => exact congrArg (· + 1) (ih (k + 1) (op k p c).2)

/-- What the first one does on its seat does not concern the rest. -/
theorem KeepsSeats.rest (hop : KeepsSeats op) {k : Nat} {c : Commons} {p : NoncePool}
    {rest : List NoncePool}
    (hin : ∀ (j : Nat) (q : NoncePool), (p :: rest)[j]? = some q → q.InOrder (k + j) c.reservations)
    (j : Nat) (q : NoncePool) (hq : rest[j]? = some q) :
    q.InOrder (k + 1 + j) (op k p c).2.reservations := by
  have hq' := hin (j + 1) q (by rw [List.getElem?_cons_succ]; exact hq)
  rw [show k + (j + 1) = k + 1 + j by omega] at hq'
  exact hq'.of_agreeOn (hop k p c (hin 0 p rfl)).2 (by omega)

/-- What one sub-pool after the other does keeps each of them in order. -/
theorem KeepsSeats.sweep (hop : KeepsSeats op) (k : Nat) (c : Commons) (pools : List NoncePool)
    (hin : ∀ (j : Nat) (p : NoncePool), pools[j]? = some p → p.InOrder (k + j) c.reservations) :
    (∀ (j : Nat) (p : NoncePool), (sweep op k c pools).1[j]? = some p →
        p.InOrder (k + j) (sweep op k c pools).2.reservations) ∧
      AgreeOn (fun i => i < k ∨ k + pools.length ≤ i) c.reservations (sweep op k c pools).2.reservations := by
  induction pools generalizing k c with
  | nil => exact ⟨hin, AgreeOn.refl _ _⟩
  | cons p rest ih =>
    obtain ⟨hp, hagree⟩ := hop k p c (hin 0 p rfl)
    obtain ⟨hin', hagree'⟩ := ih (k + 1) (op k p c).2 (hop.rest hin)
    refine ⟨fun j q hq => ?_, ?_⟩
    · cases j with
      | zero =>
        -- The later sub-pools leave this one's seat alone.
        rw [← Option.some.inj hq]
        exact hp.of_agreeOn hagree' (Or.inl (Nat.lt_succ_self k))
      | succ j =>
        have hq' := hin' j q hq
        rw [show k + 1 + j = k + (j + 1) by omega] at hq'
        exact hq'
    · refine (hagree.mono fun i hi => ?_).trans (hagree'.mono fun i hi => ?_)
      · rw [List.length_cons] at hi
        omega
      · rw [List.length_cons] at hi
        omega

namespace Exclusive

variable {pools : List NoncePool} {c : Commons}

/-- All sub-pools do something. -/
theorem sweep (h : Exclusive pools c.reservations) (hop : KeepsSeats op) :
    Exclusive (NoncePool.sweep op 0 c pools).1 (NoncePool.sweep op 0 c pools).2.reservations := by
  obtain ⟨hin, hagree⟩ := hop.sweep 0 c pools fun j p hp => by
    rw [Nat.zero_add]
    exact h.in_order j p hp
  refine ⟨fun i p hp => ?_, fun a i howner => ?_, hagree.anomalies_eq.trans h.anomalies_eq⟩
  · have hp' := hin i p hp
    rw [Nat.zero_add] at hp'
    exact hp'
  · rw [length_sweep]
    -- A seat beyond the sub-pools had no accounts, and nobody has acted on it.
    refine Nat.lt_of_not_le fun hle => ?_
    have hbefore := (hagree.owner_iff a i (Or.inr (by omega))).mp howner
    exact absurd (h.owner_lt a i hbefore) (Nat.not_lt_of_le hle)

/-- One sub-pool does something, and the others wait. -/
theorem set (h : Exclusive pools c.reservations) (hop : KeepsSeats op) {k : Nat} {p : NoncePool}
    (hp : pools[k]? = some p) :
    Exclusive (pools.set k (op k p c).1) (op k p c).2.reservations := by
  obtain ⟨hin, hagree⟩ := hop k p c (h.in_order k p hp)
  have hk : k < pools.length := (List.getElem?_eq_some_iff.mp hp).1
  refine ⟨fun i q hq => ?_, fun a i howner => ?_, hagree.anomalies_eq.trans h.anomalies_eq⟩
  · by_cases hik : k = i
    · subst hik
      rw [List.getElem?_set_self hk] at hq
      rw [← Option.some.inj hq]
      exact hin
    · rw [List.getElem?_set_ne hik] at hq
      exact (h.in_order i q hq).of_agreeOn hagree (Ne.symm hik)
  · rw [List.length_set]
    by_cases hik : i = k
    · rw [hik]
      exact hk
    · exact h.owner_lt a i ((hagree.owner_iff a i hik).mp howner)

/-- **An account belongs to a sub-pool exactly if the sub-pool holds something
of it.** -/
theorem owner_iff (h : Exclusive pools c.reservations) (a : Address) (i : Nat) :
    c.reservations.owner? a = some i ↔ ∃ p, pools[i]? = some p ∧ p.holdings.HoldsFrom a := by
  constructor
  · intro howner
    have hi := h.owner_lt a i howner
    refine ⟨pools[i], List.getElem?_eq_getElem hi, ?_⟩
    rcases ((h.in_order i _ (List.getElem?_eq_getElem hi)).tidy.owner_iff a).mp howner with hheld | hfalse
    · exact hheld
    · cases hfalse
  · rintro ⟨p, hp, hheld⟩
    exact ((h.in_order i p hp).tidy.owner_iff a).mpr (Or.inl hheld)

end Exclusive

end

end NoncePool

/-! ## The coordinator -/

namespace Coordinator

open NoncePool (Exclusive KeepsSeats InOrder)

/-- A sub-pool takes in its share of a batch, if it has any. -/
def takeIn (views : Nat → Backend) (shares : Nat → List Transaction) (isLocal : Bool) (i : Nat)
    (p : NoncePool) (c : Commons) : NoncePool × Commons :=
  if (shares i).isEmpty then (p, c)
  else ((p.add (views i) c (shares i) isLocal).1, (p.add (views i) c (shares i) isLocal).2.1)

/-- A sub-pool catches up with a head. -/
def catchUp (views : Nat → Backend) (new : Header) (i : Nat) (p : NoncePool) (c : Commons) :
    NoncePool × Commons :=
  p.reset (views i) c new

/-- A sub-pool leaves its seat. -/
def leave (_ : Nat) (p : NoncePool) (c : Commons) : NoncePool × Commons :=
  ((p.detach c).1, (p.detach c).2.1)

theorem keepsSeats_takeIn (views : Nat → Backend) (shares : Nat → List Transaction)
    (isLocal : Bool) : KeepsSeats (takeIn views shares isLocal) := by
  intro i p c h
  rw [takeIn]
  split
  · exact ⟨h, AgreeOn.refl _ _⟩
  · exact h.add (views i) (shares i) isLocal

theorem keepsSeats_catchUp (views : Nat → Backend) (new : Header) :
    KeepsSeats (catchUp views new) := by
  intro i p c h
  exact h.reset (views i) new

theorem keepsSeats_leave : KeepsSeats leave := by
  intro i p c h
  exact h.detach

/-! A coordinator that asks its sub-pools one after the other makes a sweep. -/

theorem addFrom_eq_sweep (views : Nat → Backend) (shares : Nat → List Transaction)
    (isLocal sync : Bool) (i : Nat) (c : Commons) (pools : List NoncePool) :
    ((addFrom views shares isLocal sync i c pools).1, (addFrom views shares isLocal sync i c pools).2.1)
      = NoncePool.sweep (takeIn views shares isLocal) i c pools := by
  induction pools generalizing i c with
  | nil => rfl
  | cons p rest ih =>
    rw [addFrom, NoncePool.sweep, takeIn]
    split
    · dsimp only
      rw [← ih]
    · dsimp only
      rw [← ih]
      rfl

theorem resetFrom_eq_sweep (views : Nat → Backend) (old new : Header) (i : Nat) (c : Commons)
    (pools : List NoncePool) :
    ((resetFrom views old new i c pools).1, (resetFrom views old new i c pools).2.1)
      = NoncePool.sweep (catchUp views new) i c pools := by
  induction pools generalizing i c with
  | nil => rfl
  | cons p rest ih =>
    rw [NoncePool.sweep]
    dsimp only
    rw [← ih]
    rfl

theorem detachAll_eq_sweep (i : Nat) (c : Commons) (pools : List NoncePool) :
    ((detachAll c pools).1, (detachAll c pools).2.1) = NoncePool.sweep leave i c pools := by
  induction pools generalizing i c with
  | nil => rfl
  | cons p rest ih =>
    rw [NoncePool.sweep]
    dsimp only
    rw [← ih]
    rfl

/-- Something that happens to the pool (`PoolCoordinator`). A batch, a reset and the end go
from one sub-pool to the next, and other calls may come in between; so a single sub-pool can
act as well, and a batch during which the execution layer changes its mind is one in which
single sub-pools take in single transactions. -/
inductive Action where
  | add (views : Nat → Backend) (txs : List Transaction) (isLocal sync : Bool)
  | notify (head : Header)
  | finishReset (views : Nat → Backend)
  | close (views : Nat → Backend)
  | offer (pool : Nat) (b : Backend) (txs : List Transaction) (isLocal : Bool)
  | reset (pool : Nat) (b : Backend) (new : Header)
  | leave (pool : Nat)

variable (c : Coordinator NoncePool)

/-- One sub-pool does something. -/
def alone (pool : Nat) (op : Nat → NoncePool → Commons → NoncePool × Commons) :
    Coordinator NoncePool :=
  match c.pools[pool]? with
  | none => c
  | some p =>
    { c with pools := c.pools.set pool (op pool p c.commons).1, commons := (op pool p c.commons).2 }

/-- The pool after an action. -/
def act : Action → Coordinator NoncePool
  | .add views txs isLocal sync => (c.add views txs isLocal sync).1
  | .notify head => c.notify head
  | .finishReset views => c.finishReset views
  | .close views => (c.close views).1
  | .offer pool b txs isLocal => c.alone pool (takeIn (fun _ => b) (fun _ => txs) isLocal)
  | .reset pool b new => c.alone pool (catchUp (fun _ => b) new)
  | .leave pool => c.alone pool Coordinator.leave

/-- The pool after several actions. -/
def run (actions : List Action) : Coordinator NoncePool := actions.foldl act c

/-- The sub-pools of a coordinator are exclusive. -/
def Orderly : Prop := Exclusive c.pools c.commons.reservations

variable {c}

theorem Orderly.coherent (h : c.Orderly) {p : NoncePool} (hp : p ∈ c.pools) : p.holdings.Coherent := by
  obtain ⟨i, hi⟩ := List.mem_iff_getElem?.mp hp
  exact (h.in_order i p hi).tidy.coherent

theorem Orderly.alone (h : c.Orderly) (pool : Nat)
    {op : Nat → NoncePool → Commons → NoncePool × Commons} (hop : KeepsSeats op) :
    (c.alone pool op).Orderly := by
  rw [Coordinator.alone]
  cases hp : c.pools[pool]? with
  | none => exact h
  | some p => exact NoncePool.Exclusive.set h hop hp

theorem Orderly.add (h : c.Orderly) (views : Nat → Backend) (txs : List Transaction)
    (isLocal sync : Bool) : (c.add views txs isLocal sync).1.Orderly := by
  have hs := NoncePool.Exclusive.sweep h (keepsSeats_takeIn views (share c.pools txs) isLocal)
  rw [← addFrom_eq_sweep views (share c.pools txs) isLocal sync] at hs
  exact hs

theorem Orderly.finishReset (h : c.Orderly) (views : Nat → Backend) :
    (c.finishReset views).Orderly := by
  rw [Coordinator.finishReset]
  cases c.loop.running with
  | none => exact h
  | some heads =>
    have hs := NoncePool.Exclusive.sweep h (keepsSeats_catchUp views heads.2)
    rw [← resetFrom_eq_sweep views heads.1 heads.2] at hs
    dsimp only
    split
    · exact hs
    · exact hs

theorem Orderly.close (h : c.Orderly) (views : Nat → Backend) : (c.close views).1.Orderly := by
  rw [Coordinator.close]
  split
  · exact h
  · -- Neither the request to stop nor the end of the bus concerns the sub-pools.
    have hstop : ({ c with loop := c.loop.step .stop } : Coordinator NoncePool).Orderly := h
    generalize hc' : ({ c with loop := c.loop.step .stop } : Coordinator NoncePool).finishReset views = c'
    have hbus : Exclusive c'.pools ({ c'.commons with bus := c'.commons.bus.close } : Commons).reservations := by
      rw [← hc']
      exact hstop.finishReset views
    have hs := hbus.sweep keepsSeats_leave
    rw [← detachAll_eq_sweep] at hs
    exact hs

/-- Whatever happens next, the sub-pools are exclusive afterwards. -/
theorem Orderly.act (h : c.Orderly) (action : Action) : (c.act action).Orderly := by
  cases action with
  | add views txs isLocal sync => exact h.add views txs isLocal sync
  | notify head => exact h
  | finishReset views => exact h.finishReset views
  | close views => exact h.close views
  | offer pool b txs isLocal => exact h.alone pool (keepsSeats_takeIn _ _ isLocal)
  | reset pool b new => exact h.alone pool (keepsSeats_catchUp _ new)
  | leave pool => exact h.alone pool keepsSeats_leave

theorem Orderly.run (h : c.Orderly) (actions : List Action) : (c.run actions).Orderly := by
  induction actions generalizing c with
  | nil => exact h
  | cons action rest ih => exact ih (h.act action)

/-! ## From the start on -/

/-- New sub-pools with given names, limits and kinds of transaction. -/
def freshPools (specs : List (String × NonceLimits × (Transaction → Bool))) : List NoncePool :=
  specs.map fun s => NoncePool.new s.1 s.2.1 s.2.2

/-- New sub-pools take their seats, and have nothing yet. -/
theorem attachFrom_freshPools (head : Header)
    (specs : List (String × NonceLimits × (Transaction → Bool))) (k : Nat) :
    (attachFrom head k (freshPools specs)).2 = .ok () ∧
      ∀ (j : Nat) (p : NoncePool), (attachFrom head k (freshPools specs)).1[j]? = some p →
        p.seat = some (k + j) ∧ p.holdings = Holdings.empty ∧ p.unreleased = [] := by
  induction specs generalizing k with
  | nil => exact ⟨rfl, fun j p hp => by cases hp⟩
  | cons s rest ih =>
    obtain ⟨hok, hpools⟩ := ih (k + 1)
    refine ⟨hok, fun j p hp => ?_⟩
    cases j with
    | zero =>
      rw [← Option.some.inj hp]
      exact ⟨rfl, rfl, rfl⟩
    | succ j =>
      rw [show k + (j + 1) = k + 1 + j by omega]
      exact hpools j p hp

/-- A coordinator of new sub-pools starts with nothing, and its sub-pools are
exclusive. -/
theorem start_freshPools (head : Header)
    (specs : List (String × NonceLimits × (Transaction → Bool))) :
    ∃ c : Coordinator NoncePool, start head (freshPools specs) = .running c ∧ c.Orderly ∧
      c.loop = ResetLoop.start head ∧ ∀ p ∈ c.pools, p.holdings = Holdings.empty := by
  obtain ⟨hok, hpools⟩ := attachFrom_freshPools head specs 0
  generalize hattach : attachFrom head 0 (freshPools specs) = attached at hok hpools
  obtain ⟨pools, outcome⟩ := attached
  obtain rfl : outcome = .ok () := hok
  rw [start, hattach]
  refine ⟨_, rfl, ⟨fun i p hp => ?_, fun a i howner => ?_, rfl⟩, rfl, fun p hp => ?_⟩
  · obtain ⟨hseat, hholdings, hunreleased⟩ := hpools i p hp
    rw [Nat.zero_add] at hseat
    refine ⟨Or.inl hseat, ?_, fun a => ?_, hunreleased⟩
    · show p.holdings.Coherent
      rw [hholdings]
      exact Holdings.Coherent.empty
    · show (Reservations.new _).owner? a = some i ↔ p.holdings.HoldsFrom a ∨ none = some a
      -- Nothing is claimed, and nothing is held.
      rw [hholdings]
      constructor
      · intro howner
        cases howner
      · rintro (⟨hash, q, hq, _⟩ | hfalse)
        · cases hq
        · cases hfalse
  · cases howner
  · obtain ⟨i, hi⟩ := List.mem_iff_getElem?.mp hp
    exact (hpools i p hi).2.1

/-- **Accounts are exclusive.** Whatever happens to a coordinator of new
sub-pools and whatever the execution layer answers meanwhile, an account
belongs to a sub-pool exactly if the sub-pool holds a transaction of it. So no
two sub-pools hold transactions of one account, no sub-pool claims what it has,
and none fails to give something up. -/
theorem owner_iff_holdsFrom_of_run (head : Header)
    (specs : List (String × NonceLimits × (Transaction → Bool))) :
    ∃ c₀ : Coordinator NoncePool, start head (freshPools specs) = .running c₀ ∧
      ∀ actions : List Action,
        (∀ (a : Address) (i : Nat), (c₀.run actions).commons.reservations.owner? a = some i ↔
          ∃ p, (c₀.run actions).pools[i]? = some p ∧ p.holdings.HoldsFrom a) ∧
        (∀ (a : Address) (i j : Nat) (p q : NoncePool), (c₀.run actions).pools[i]? = some p →
          (c₀.run actions).pools[j]? = some q → p.holdings.HoldsFrom a → q.holdings.HoldsFrom a →
            i = j) ∧
        (c₀.run actions).commons.reservations.anomalies = 0 ∧
        ∀ p ∈ (c₀.run actions).pools, p.unreleased = [] := by
  obtain ⟨c₀, hstart, horderly, _⟩ := start_freshPools head specs
  refine ⟨c₀, hstart, fun actions => ?_⟩
  have h := horderly.run actions
  have howner := NoncePool.Exclusive.owner_iff h
  refine ⟨howner, fun a i j p q hp hq hpa hqa => ?_, h.anomalies_eq, fun p hp => ?_⟩
  · -- An account has one entry in the table.
    have hi := (howner a i).mpr ⟨p, hp, hpa⟩
    have hj := (howner a j).mpr ⟨q, hq, hqa⟩
    exact Option.some.inj (hi.symm.trans hj)
  · obtain ⟨i, hi⟩ := List.mem_iff_getElem?.mp hp
    exact (h.in_order i p hi).tidy.unreleased

end Coordinator

end TxRelay
