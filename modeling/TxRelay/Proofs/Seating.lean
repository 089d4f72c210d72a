/-
A sub-pool among strangers.

What a sub-pool guarantees does not depend on who else sits at its table. All
it needs is a seat without accounts to begin with, and that nobody else claims
or gives up accounts on its seat while it is there. So the states of one
sub-pool and its table are described here without a coordinator: what it does
itself happens as it is defined, and in between the rest may change in any way
that leaves the accounts of its seat alone. That it keeps its own part of the
table in step with what it holds then carries over to all of these states.

A sub-pool of a coordinator is never in any other state: what the others do in
a sweep happens on their own seats.
-/
import TxRelay.Proofs.Following

set_option autoImplicit false

namespace TxRelay

namespace NoncePool

/-- **What a sub-pool and its table can come to** (`NoncePool`). It is made, takes a seat that
has no accounts, takes in batches, catches up with heads and leaves, any number of times, and
the execution layer may answer differently each time. Meanwhile others do what they like on
their own seats, and on the bus. -/
inductive Reached : NoncePool → Commons → Prop where
  | made (name : String) (limits : NonceLimits) (claims : Transaction → Bool) (c : Commons) :
      Reached (new name limits claims) c
  | attached {p : NoncePool} {c : Commons} (h : Reached p c) (seat : Nat) (head : Header)
      (hfree : ∀ a, c.reservations.owner? a ≠ some seat) : Reached (p.attach seat head).1 c
  | tookIn {p : NoncePool} {c : Commons} (h : Reached p c) (b : Backend) (txs : List Transaction)
      (isLocal : Bool) : Reached (p.add b c txs isLocal).1 (p.add b c txs isLocal).2.1
  | caughtUp {p : NoncePool} {c : Commons} (h : Reached p c) (b : Backend) (new : Header) :
      Reached (p.reset b c new).1 (p.reset b c new).2
  | left {p : NoncePool} {c : Commons} (h : Reached p c) :
      Reached (p.detach c).1 (p.detach c).2.1
  | meanwhile {p : NoncePool} {c : Commons} (h : Reached p c) (c' : Commons)
      (hown : ∀ seat, p.seat = some seat → ∀ a,
        c'.reservations.owner? a = some seat ↔ c.reservations.owner? a = some seat) :
      Reached p c'

/-- **A sub-pool is in line with its table**: in order on its seat, if it has
one, and else with nothing. -/
structure InLine (p : NoncePool) (r : Reservations) : Prop where
  coherent : p.holdings.Coherent
  unreleased : p.unreleased = []
  in_order : ∀ seat, p.seat = some seat → p.InOrder seat r
  idle : p.seat = none → ∀ hash, p.holdings.get? hash = none

namespace InLine

variable {p p' : NoncePool} {c : Commons} {r : Reservations} {seat : Nat}

/-- A sub-pool that is in order on its seat is in line. -/
theorem of_inOrder (h : p.InOrder seat r) (hseat : ∀ seat', p.seat = some seat' → seat' = seat) :
    p.InLine r where
  coherent := h.tidy.coherent
  unreleased := h.tidy.unreleased
  in_order seat' hseat' := by
    rw [hseat seat' hseat']
    exact h
  idle hnone := by
    rcases h.seated with hsome | ⟨_, hempty⟩
    · rw [hsome] at hnone
      cases hnone
    · exact hempty

theorem made (name : String) (limits : NonceLimits) (claims : Transaction → Bool) (r : Reservations) :
    (new name limits claims).InLine r where
  coherent := Holdings.Coherent.empty
  unreleased := rfl
  in_order := nofun
  idle _ _ := rfl

/-- Taking a seat that has no accounts, with nothing to show for any. -/
theorem attached (h : p.InLine r) (head : Header) (hfree : ∀ a, r.owner? a ≠ some seat) :
    (p.attach seat head).1.InLine r := by
  unfold attach
  split
  · exact h
  · next hnone =>
    have hin : (({ p with seat := some seat, head := some head } : NoncePool)).InOrder seat r := by
      refine ⟨Or.inl rfl, h.coherent, fun a => ?_, h.unreleased⟩
      constructor
      · intro howner
        exact absurd howner (hfree a)
      · rintro (⟨hash, q, hq, _⟩ | hfalse)
        · rw [space, h.idle hnone hash] at hq
          cases hq
        · cases hfalse
    apply of_inOrder hin
    intro seat' hseat'
    exact (Option.some.inj hseat').symm

theorem tookIn (h : p.InLine c.reservations) (b : Backend) (txs : List Transaction)
    (isLocal : Bool) :
    (p.add b c txs isLocal).1.InLine (p.add b c txs isLocal).2.1.reservations := by
  cases hseat : p.seat with
  | none =>
    rw [add_of_unseated hseat]
    exact h
  | some seat =>
    apply of_inOrder ((h.in_order seat hseat).add b txs isLocal).1
    intro seat' hseat'
    rw [add_of_seat hseat] at hseat'
    exact Option.some.inj (hseat'.symm.trans hseat)

theorem caughtUp (h : p.InLine c.reservations) (b : Backend) (new : Header) :
    (p.reset b c new).1.InLine (p.reset b c new).2.reservations := by
  cases hseat : p.seat with
  | none =>
    have hsame : p.reset b c new = (p, c) := by rw [reset, hseat]
    rw [hsame]
    exact h
  | some seat =>
    apply of_inOrder ((h.in_order seat hseat).reset b new).1
    intro seat' hseat'
    rw [reset, hseat] at hseat'
    exact Option.some.inj (hseat'.symm.trans hseat)

theorem left (h : p.InLine c.reservations) :
    (p.detach c).1.InLine (p.detach c).2.1.reservations := by
  cases hseat : p.seat with
  | none =>
    have hsame : p.detach c = (p, c, .ok ()) := by rw [detach, hseat]
    rw [hsame]
    exact h
  | some seat =>
    apply of_inOrder (h.in_order seat hseat).detach.1
    intro seat' hseat'
    rw [detach, hseat] at hseat'
    cases hseat'

/-- What happens on other seats is no concern of a sub-pool. -/
theorem meanwhile {r' : Reservations} (h : p.InLine r)
    (hown : ∀ seat, p.seat = some seat → ∀ a, r'.owner? a = some seat ↔ r.owner? a = some seat) :
    p.InLine r' where
  coherent := h.coherent
  unreleased := h.unreleased
  in_order seat hseat := by
    have hin := h.in_order seat hseat
    refine ⟨hin.seated, hin.tidy.coherent, fun a => ?_, hin.tidy.unreleased⟩
    exact (hown seat hseat a).trans (hin.tidy.owner_iff a)
  idle := h.idle

end InLine

/-- **Whatever happens to a sub-pool**, it is in line with its table. -/
theorem Reached.inLine {p : NoncePool} {c : Commons} (h : Reached p c) :
    p.InLine c.reservations := by
  induction h with
  | made name limits claims c => exact InLine.made name limits claims c.reservations
  | attached h seat head hfree ih => exact ih.attached head hfree
  | tookIn h b txs isLocal ih => exact ih.tookIn b txs isLocal
  | caughtUp h b new ih => exact ih.caughtUp b new
  | left h ih => exact ih.left
  | meanwhile h c' hown ih => exact ih.meanwhile hown

/-- A sub-pool alone at its table that has taken in a batch from outside. -/
def alone (limits : NonceLimits) (b : Backend) (txs : List Transaction) : NoncePool × Commons :=
  let seated := ((new "" limits fun _ => true).attach 0 default).1
  let added := seated.add b ⟨Reservations.new 1, Bus.new Bus.standardCapacity⟩ txs false
  (added.1, added.2.1)

theorem reached_alone (limits : NonceLimits) (b : Backend) (txs : List Transaction) :
    Reached (alone limits b txs).1 (alone limits b txs).2 :=
  ((Reached.made "" limits (fun _ => true)
    ⟨Reservations.new 1, Bus.new Bus.standardCapacity⟩).attached 0 default nofun).tookIn b txs false

/-! ## At one table -/

section
variable {p : NoncePool} {c c' : Commons} {op : Nat → NoncePool → Commons → NoncePool × Commons}

/-- What happens on other seats happens meanwhile. -/
theorem Reached.of_agreeOn {seat : Nat} {seats : Nat → Prop} (h : Reached p c)
    (hin : p.InOrder seat c.reservations)
    (hagree : Reservations.AgreeOn seats c.reservations c'.reservations) (hseat : seats seat) :
    Reached p c' := by
  refine h.meanwhile c' fun seat' hseat' a => ?_
  rcases hin.seated with hsome | ⟨hnone, _⟩
  · obtain rfl : seat = seat' := Option.some.inj (hsome.symm.trans hseat')
    exact hagree.owner_iff a seat hseat
  · rw [hnone] at hseat'
    cases hseat'

/-- The bus is no concern of a sub-pool. -/
theorem Reached.with_bus (h : Reached p c) (bus : Bus) : Reached p { c with bus } :=
  h.meanwhile _ fun _ _ _ => Iff.rfl

/-- Something that a sub-pool does is one of the things that can happen to it. -/
def KeepsReached (op : Nat → NoncePool → Commons → NoncePool × Commons) : Prop :=
  ∀ i p c, Reached p c → Reached (op i p c).1 (op i p c).2

/-- What one sub-pool after the other does happens to each of them, in its turn or
meanwhile. -/
theorem KeepsReached.sweep (hown : KeepsReached op) (hop : KeepsSeats op) (k : Nat) (c : Commons)
    (pools : List NoncePool)
    (hin : ∀ (j : Nat) (p : NoncePool), pools[j]? = some p → p.InOrder (k + j) c.reservations)
    (hreached : ∀ p ∈ pools, Reached p c) :
    ∀ p ∈ (NoncePool.sweep op k c pools).1, Reached p (NoncePool.sweep op k c pools).2 := by
  induction pools generalizing k c with
  | nil => exact hreached
  | cons p rest ih =>
    obtain ⟨hp, hagree⟩ := hop k p c (hin 0 p rfl)
    obtain ⟨_, hagree'⟩ := hop.sweep (k + 1) (op k p c).2 rest (hop.rest hin)
    have hwaiting : ∀ q ∈ rest, Reached q (op k p c).2 := by
      intro q hq
      obtain ⟨j, hj⟩ := List.mem_iff_getElem?.mp hq
      have hother : k + (j + 1) ≠ k := by omega
      exact (hreached q (List.mem_cons_of_mem p hq)).of_agreeOn (hin (j + 1) q hj) hagree hother
    intro q hq
    rcases List.mem_cons.mp hq with rfl | hq
    · have hdone := hown k p c (hreached p List.mem_cons_self)
      exact hdone.of_agreeOn hp hagree' (Or.inl (Nat.lt_succ_self k))
    · exact ih (k + 1) (op k p c).2 (hop.rest hin) hwaiting q hq

end

end NoncePool

namespace Coordinator

open NoncePool (Reached KeepsReached KeepsSeats)

theorem keepsReached_takeIn (views : Nat → Backend) (shares : Nat → List Transaction)
    (isLocal : Bool) : KeepsReached (takeIn views shares isLocal) := by
  intro i p c h
  rw [takeIn]
  split
  · exact h
  · exact h.tookIn (views i) (shares i) isLocal

theorem keepsReached_catchUp (views : Nat → Backend) (new : Header) :
    KeepsReached (catchUp views new) := fun i _ _ h => h.caughtUp (views i) new

theorem keepsReached_leave : KeepsReached leave := fun _ _ _ h => h.left

/-- **The sub-pools of a coordinator live among each other**: they are exclusive, and
each is in a state that it can come to by itself. -/
structure Lively (c : Coordinator NoncePool) : Prop where
  orderly : c.Orderly
  reached : ∀ p ∈ c.pools, Reached p c.commons

namespace Lively

variable {c : Coordinator NoncePool} {op : Nat → NoncePool → Commons → NoncePool × Commons}

theorem reached_sweep (h : c.Lively) (hown : KeepsReached op) (hop : KeepsSeats op) :
    ∀ p ∈ (NoncePool.sweep op 0 c.commons c.pools).1,
      Reached p (NoncePool.sweep op 0 c.commons c.pools).2 := by
  refine hown.sweep hop 0 c.commons c.pools (fun j p hp => ?_) h.reached
  rw [Nat.zero_add]
  exact h.orderly.in_order j p hp

theorem alone (h : c.Lively) (pool : Nat) (hown : KeepsReached op) (hop : KeepsSeats op) :
    (c.alone pool op).Lively := by
  refine ⟨h.orderly.alone pool hop, ?_⟩
  rw [Coordinator.alone]
  cases hp : c.pools[pool]? with
  | none => exact h.reached
  | some p =>
    obtain ⟨_, hagree⟩ := hop pool p c.commons (h.orderly.in_order pool p hp)
    intro q hq
    obtain ⟨i, hi⟩ := List.mem_iff_getElem?.mp hq
    by_cases hpool : pool = i
    · subst hpool
      rw [List.getElem?_set_self (List.getElem?_eq_some_iff.mp hp).1] at hi
      rw [← Option.some.inj hi]
      exact hown pool p c.commons (h.reached p (List.mem_of_getElem? hp))
    · rw [List.getElem?_set_ne hpool] at hi
      have hwaiting := h.reached q (List.mem_of_getElem? hi)
      exact hwaiting.of_agreeOn (h.orderly.in_order i q hi) hagree (Ne.symm hpool)

theorem add (h : c.Lively) (views : Nat → Backend) (txs : List Transaction) (isLocal sync : Bool) :
    (c.add views txs isLocal sync).1.Lively := by
  have hs := h.reached_sweep (keepsReached_takeIn views (share c.pools txs) isLocal)
    (keepsSeats_takeIn views (share c.pools txs) isLocal)
  rw [← addFrom_eq_sweep views (share c.pools txs) isLocal sync] at hs
  exact ⟨h.orderly.add views txs isLocal sync, hs⟩

theorem finishReset (h : c.Lively) (views : Nat → Backend) : (c.finishReset views).Lively := by
  refine ⟨h.orderly.finishReset views, ?_⟩
  rw [Coordinator.finishReset]
  cases c.loop.running with
  | none => exact h.reached
  | some heads =>
    have hs := h.reached_sweep (keepsReached_catchUp views heads.2) (keepsSeats_catchUp views heads.2)
    rw [← resetFrom_eq_sweep views heads.1 heads.2] at hs
    dsimp only
    split
    · exact fun p hp => (hs p hp).with_bus _
    · exact hs

theorem close (h : c.Lively) (views : Nat → Backend) : (c.close views).1.Lively := by
  refine ⟨h.orderly.close views, ?_⟩
  rw [Coordinator.close]
  split
  · exact h.reached
  · have hstop : ({ c with loop := c.loop.step .stop } : Coordinator NoncePool).Lively :=
      ⟨h.orderly, h.reached⟩
    have hreset := hstop.finishReset views
    generalize ({ c with loop := c.loop.step .stop } : Coordinator NoncePool).finishReset views = c'
      at hreset ⊢
    have hbus : ({ c' with commons := { c'.commons with bus := c'.commons.bus.close } } :
        Coordinator NoncePool).Lively :=
      ⟨hreset.orderly, fun p hp => (hreset.reached p hp).with_bus _⟩
    have hs := hbus.reached_sweep keepsReached_leave keepsSeats_leave
    rw [← detachAll_eq_sweep] at hs
    exact hs

theorem act (h : c.Lively) (action : Action) : (c.act action).Lively := by
  cases action with
  | add views txs isLocal sync => exact h.add views txs isLocal sync
  | notify head => exact ⟨h.orderly, h.reached⟩
  | finishReset views => exact h.finishReset views
  | close views => exact h.close views
  | offer pool b txs isLocal =>
    exact h.alone pool (keepsReached_takeIn _ _ isLocal) (keepsSeats_takeIn _ _ isLocal)
  | reset pool b new => exact h.alone pool (keepsReached_catchUp _ new) (keepsSeats_catchUp _ new)
  | leave pool => exact h.alone pool keepsReached_leave keepsSeats_leave

theorem run (h : c.Lively) (actions : List Action) : (c.run actions).Lively := by
  induction actions generalizing c with
  | nil => exact h
  | cons action rest ih => exact ih (h.act action)

end Lively

/-- New sub-pools take their seats at a new table. -/
theorem reached_attachFrom (head : Header)
    (specs : List (String × NonceLimits × (Transaction → Bool))) (k seats : Nat) :
    ∀ p ∈ (attachFrom head k (freshPools specs)).1,
      Reached p ⟨Reservations.new seats, Bus.new Bus.standardCapacity⟩ := by
  induction specs generalizing k with
  | nil => exact nofun
  | cons s rest ih =>
    intro p hp
    rcases List.mem_cons.mp hp with rfl | hp
    · exact (Reached.made s.1 s.2.1 s.2.2 _).attached k head nofun
    · exact ih (k + 1) p hp

/-- **Whatever happens to a coordinator** of new sub-pools, each of them is in a state
that it can come to by itself. -/
theorem reached_of_run (head : Header) (specs : List (String × NonceLimits × (Transaction → Bool))) :
    ∃ c₀ : Coordinator NoncePool, start head (freshPools specs) = .running c₀ ∧
      ∀ actions : List Action, ∀ p ∈ (c₀.run actions).pools, Reached p (c₀.run actions).commons := by
  obtain ⟨c₀, hstart, horderly, _⟩ := start_freshPools head specs
  have hreached : ∀ p ∈ c₀.pools, Reached p c₀.commons := by
    have hfresh := reached_attachFrom head specs 0 (freshPools specs).length
    obtain ⟨hok, _⟩ := attachFrom_freshPools head specs 0
    generalize hattach : attachFrom head 0 (freshPools specs) = attached at hok hfresh
    obtain ⟨pools, outcome⟩ := attached
    obtain rfl : outcome = .ok () := hok
    rw [start, hattach] at hstart
    obtain rfl := Started.running.inj hstart
    exact hfresh
  exact ⟨c₀, hstart, fun actions => (Lively.run ⟨horderly, hreached⟩ actions).reached⟩

end Coordinator

end TxRelay
