/-
What a sub-pool is for never changes.

A sub-pool gets its name, its limits and what it claims when it is made, and
nothing that happens to it touches them. So the sub-pool that a transaction
goes to is settled from the start, and what a batch brings is held there or
nowhere, whatever other batches, resets and closing do in between.

Both are read off from one list of what an action can make of a sub-pool.
-/
import TxRelay.Proofs.Admission
import TxRelay.Proofs.Batch
import TxRelay.Proofs.Following

set_option autoImplicit false

namespace TxRelay

namespace NoncePool

/-! ## One sub-pool -/

/-- **What can become of a sub-pool**: it takes in some of what it may be
offered, catches up with a head, leaves its seat, or does one after the other. -/
inductive Becomes (offered : Transaction → Prop) : NoncePool → NoncePool → Prop where
  | rests (p : NoncePool) : Becomes offered p p
  | takesIn (p : NoncePool) (b : Backend) (c : Commons) (txs : List Transaction) (isLocal : Bool)
      (h : ∀ tx ∈ txs, offered tx) : Becomes offered p (p.add b c txs isLocal).1
  | catchesUp (p : NoncePool) (b : Backend) (c : Commons) (new : Header) :
      Becomes offered p (p.reset b c new).1
  | leaves (p : NoncePool) (c : Commons) : Becomes offered p (p.detach c).1
  | trans {p q r : NoncePool} (hpq : Becomes offered p q) (hqr : Becomes offered q r) :
      Becomes offered p r

/-- What a sub-pool was made with: its name, its limits and what it claims. -/
def charter (p : NoncePool) : String × NonceLimits × (Transaction → Bool) :=
  (p.name, p.limits, p.claims)

namespace Becomes

variable {offered : Transaction → Prop} {p p' : NoncePool}

theorem charter_eq (h : Becomes offered p p') : p'.charter = p.charter := by
  induction h with
  | rests p => rfl
  | takesIn p b c txs isLocal h =>
    rw [NoncePool.add]
    split <;> rfl
  | catchesUp p b c new =>
    rw [NoncePool.reset]
    split <;> rfl
  | leaves p c =>
    rw [NoncePool.detach]
    split <;> rfl
  | trans hpq hqr ihpq ihqr => exact ihqr.trans ihpq

/-- What is true of all that was held and of all that may be offered stays true
of all that is held. -/
theorem all (h : Becomes offered p p') {Q : Transaction → Prop} (ha : p.holdings.All Q)
    (hQ : ∀ tx, offered tx → Q tx) : p'.holdings.All Q := by
  induction h with
  | rests p => exact ha
  | takesIn p b c txs isLocal h => exact all_add ha (fun tx htx _ _ => hQ tx (h tx htx)) c isLocal
  | catchesUp p b c new => exact (p.within_reset b c new).all ha
  | leaves p c => exact (p.within_detach c).all ha
  | trans hpq hqr ihpq ihqr => exact ihqr (ihpq ha)

/-- If nothing is offered then nothing new is held. -/
theorem within (h : Becomes (fun _ => False) p p') : p'.holdings.Within p.holdings := by
  induction h with
  | rests p => exact Holdings.Within.refl _
  | takesIn p b c txs isLocal h =>
    obtain rfl : txs = [] := List.eq_nil_iff_forall_not_mem.mpr h
    rw [NoncePool.add]
    split
    · exact Holdings.Within.refl _
    · exact Holdings.Within.refl _
  | catchesUp p b c new => exact p.within_reset b c new
  | leaves p c => exact p.within_detach c
  | trans hpq hqr ihpq ihqr => exact fun hash q hq => ihpq hash q (ihqr hash q hq)

end Becomes

/-! ## All sub-pools -/

/-- Sub-pools become others, each in its place. -/
structure BecomeEach (offered : Nat → Transaction → Prop) (pools pools' : List NoncePool) : Prop where
  length_eq : pools'.length = pools.length
  becomes : ∀ (k : Nat) (p p' : NoncePool), pools[k]? = some p → pools'[k]? = some p' →
    Becomes (offered k) p p'

namespace BecomeEach

variable {offered : Nat → Transaction → Prop} {pools pools' pools'' : List NoncePool}
  {op : Nat → NoncePool → Commons → NoncePool × Commons}

theorem refl (offered : Nat → Transaction → Prop) (pools : List NoncePool) :
    BecomeEach offered pools pools := by
  refine ⟨rfl, fun k p p' hp hp' => ?_⟩
  rw [hp] at hp'
  rw [← Option.some.inj hp']
  exact .rests p

/-- Every sub-pool becomes something. -/
theorem exists_after (h : BecomeEach offered pools pools') {k : Nat} {p : NoncePool}
    (hp : pools[k]? = some p) : ∃ p', pools'[k]? = some p' ∧ Becomes (offered k) p p' := by
  have hk : k < pools'.length := by
    rw [h.length_eq]
    exact (List.getElem?_eq_some_iff.mp hp).1
  have hp' := List.getElem?_eq_getElem hk
  exact ⟨_, hp', h.becomes k p _ hp hp'⟩

/-- Every sub-pool was something before. -/
theorem exists_before (h : BecomeEach offered pools pools') {k : Nat} {p' : NoncePool}
    (hp' : pools'[k]? = some p') : ∃ p, pools[k]? = some p ∧ Becomes (offered k) p p' := by
  have hk : k < pools.length := by
    rw [← h.length_eq]
    exact (List.getElem?_eq_some_iff.mp hp').1
  have hp := List.getElem?_eq_getElem hk
  exact ⟨_, hp, h.becomes k _ p' hp hp'⟩

theorem trans (h : BecomeEach offered pools pools') (h' : BecomeEach offered pools' pools'') :
    BecomeEach offered pools pools'' := by
  refine ⟨h'.length_eq.trans h.length_eq, fun k p p'' hp hp'' => ?_⟩
  obtain ⟨p', hp', hbecomes⟩ := h.exists_after hp
  exact hbecomes.trans (h'.becomes k p' p'' hp' hp'')

/-- One sub-pool after the other does something. -/
theorem sweep (hop : ∀ k p c, Becomes (offered k) p (op k p c).1) (c : Commons) :
    BecomeEach offered pools (NoncePool.sweep op 0 c pools).1 := by
  refine ⟨length_sweep 0 c pools, fun k p p' hp hp' => ?_⟩
  obtain ⟨q, c', hq, rfl⟩ := getElem?_sweep hp'
  rw [hp] at hq
  rw [← Option.some.inj hq, Nat.zero_add]
  exact hop k p c'

/-- A single sub-pool does something. -/
theorem set {k : Nat} {p : NoncePool} {c : Commons} (hp : pools[k]? = some p)
    (hop : Becomes (offered k) p (op k p c).1) :
    BecomeEach offered pools (pools.set k (op k p c).1) := by
  refine ⟨List.length_set, fun i q q' hq hq' => ?_⟩
  rw [List.getElem?_set] at hq'
  split at hq'
  · next hki =>
    subst hki
    rw [hp] at hq
    rw [if_pos (List.getElem?_eq_some_iff.mp hp).1] at hq'
    rw [← Option.some.inj hq, ← Option.some.inj hq']
    exact hop
  · exact (refl offered pools).becomes i q q' hq hq'

theorem map_charter_eq (h : BecomeEach offered pools pools') :
    pools'.map charter = pools.map charter := by
  refine List.ext_getElem (by simp only [List.length_map, h.length_eq]) fun k hk hk' => ?_
  rw [List.length_map] at hk hk'
  rw [List.getElem_map, List.getElem_map]
  exact (h.becomes k _ _ (List.getElem?_eq_getElem hk') (List.getElem?_eq_getElem hk)).charter_eq

end BecomeEach

end NoncePool

namespace Coordinator

open NoncePool (charter Becomes BecomeEach)

/-! ## Actions -/

/-- **What an action may offer to a sub-pool**: a batch is sorted by what the
sub-pools claim, and a single sub-pool is offered what it is offered. -/
def Action.Offers (pools : List NoncePool) : Action → Nat → Transaction → Prop
  | .add _ txs _ _, k, tx => tx ∈ txs ∧ route? pools tx = some k
  | .offer pool _ txs _, k, tx => pool = k ∧ tx ∈ txs
  | _, _, _ => False

theorem becomes_takeIn {offered : Transaction → Prop} {shares : Nat → List Transaction} {k : Nat}
    (h : ∀ tx ∈ shares k, offered tx) (views : Nat → Backend) (isLocal : Bool) (p : NoncePool)
    (c : Commons) : Becomes offered p (takeIn views shares isLocal k p c).1 := by
  rw [takeIn]
  split
  · exact .rests p
  · exact .takesIn p _ c _ isLocal h

variable {c : Coordinator NoncePool}

theorem becomeEach_alone {offered : Nat → Transaction → Prop}
    {op : Nat → NoncePool → Commons → NoncePool × Commons} {k : Nat}
    (hop : ∀ p c, Becomes (offered k) p (op k p c).1) :
    BecomeEach offered c.pools (c.alone k op).pools := by
  rw [alone]
  cases hp : c.pools[k]? with
  | none => exact BecomeEach.refl _ _
  | some p => exact BecomeEach.set hp (hop p c.commons)

theorem pools_add (c : Coordinator NoncePool) (views : Nat → Backend) (txs : List Transaction)
    (isLocal sync : Bool) :
    (c.add views txs isLocal sync).1.pools
      = (NoncePool.sweep (takeIn views (share c.pools txs) isLocal) 0 c.commons c.pools).1 :=
  congrArg Prod.fst (addFrom_eq_sweep views (share c.pools txs) isLocal sync 0 c.commons c.pools)

theorem becomeEach_finishReset (offered : Nat → Transaction → Prop) (c : Coordinator NoncePool)
    (views : Nat → Backend) : BecomeEach offered c.pools (c.finishReset views).pools := by
  cases hrunning : c.loop.running with
  | none =>
    rw [finishReset, hrunning]
    exact BecomeEach.refl _ _
  | some heads =>
    rw [(finishReset_of_running views hrunning).1]
    exact BecomeEach.sweep (fun k p c => .catchesUp p (views k) c heads.2) c.commons

theorem becomeEach_close (offered : Nat → Transaction → Prop) (c : Coordinator NoncePool)
    (views : Nat → Backend) : BecomeEach offered c.pools (c.close views).1.pools := by
  rw [close]
  split
  · exact BecomeEach.refl _ _
  · have hreset := becomeEach_finishReset offered { c with loop := c.loop.step .stop } views
    generalize ({ c with loop := c.loop.step .stop } : Coordinator NoncePool).finishReset views = c'
      at hreset ⊢
    have hleft : BecomeEach offered c'.pools
        (NoncePool.sweep leave 0 { c'.commons with bus := c'.commons.bus.close } c'.pools).1 :=
      BecomeEach.sweep (fun _ p c => .leaves p c) _
    rw [← detachAll_eq_sweep] at hleft
    exact hreset.trans hleft

/-- **What an action makes of the sub-pools.** -/
theorem becomeEach_act (c : Coordinator NoncePool) (action : Action) :
    BecomeEach (action.Offers c.pools) c.pools (c.act action).pools := by
  cases action with
  | add views txs isLocal sync =>
    show BecomeEach _ c.pools (c.add views txs isLocal sync).1.pools
    rw [pools_add]
    refine BecomeEach.sweep (fun k p commons => becomes_takeIn (fun tx htx => ?_) views isLocal p commons) _
    obtain ⟨hmem, hfirst⟩ := mem_share_iff.mp htx
    exact ⟨hmem, route?_eq_some_iff.mpr hfirst⟩
  | notify head => exact BecomeEach.refl _ _
  | finishReset views => exact becomeEach_finishReset _ c views
  | close views => exact becomeEach_close _ c views
  | offer pool b txs isLocal =>
    exact becomeEach_alone fun p commons =>
      becomes_takeIn (fun tx htx => ⟨rfl, htx⟩) _ isLocal p commons
  | reset pool b new => exact becomeEach_alone fun p commons => .catchesUp p b commons new
  | leave pool => exact becomeEach_alone fun p commons => .leaves p commons

/-- **Whatever happens, every sub-pool is for the same** as before. -/
theorem charters_run (c : Coordinator NoncePool) (actions : List Action) :
    (c.run actions).pools.map charter = c.pools.map charter := by
  induction actions generalizing c with
  | nil => rfl
  | cons action rest ih => exact (ih (c.act action)).trans (c.becomeEach_act action).map_charter_eq

/-! ## What is held is where it belongs -/

/-- Where a transaction goes is a matter of what the sub-pools are for. -/
theorem route?_congr {pools pools' : List NoncePool}
    (h : pools.map charter = pools'.map charter) (tx : Transaction) :
    route? pools tx = route? pools' tx := by
  have hroute (pools : List NoncePool) :
      route? pools tx = (pools.map charter).findIdx? fun s => s.2.2 tx := by
    rw [List.findIdx?_map]
    rfl
  rw [hroute, hroute, h]

/-- **A call goes where it should**: what a single sub-pool is offered belongs
to it. A batch is sorted by the coordinator itself. -/
def Action.Routed (pools : List NoncePool) : Action → Prop
  | .offer pool _ txs _ => ∀ tx ∈ txs, route? pools tx = some pool
  | _ => True

theorem Action.Routed.congr {pools pools' : List NoncePool} {action : Action}
    (h : action.Routed pools) (hsame : pools.map charter = pools'.map charter) :
    action.Routed pools' := by
  cases action with
  | offer pool b txs isLocal =>
    intro tx htx
    rw [← route?_congr hsame]
    exact h tx htx
  | add | notify | finishReset | close | reset | leave => trivial

theorem Action.Routed.of_offers {pools : List NoncePool} {action : Action} (h : action.Routed pools)
    {k : Nat} {tx : Transaction} (hoffers : action.Offers pools k tx) : route? pools tx = some k := by
  cases action with
  | add views txs isLocal sync => exact hoffers.2
  | offer pool b txs isLocal =>
    obtain ⟨rfl, hmem⟩ := hoffers
    exact h tx hmem
  | notify | finishReset | close | reset | leave => cases hoffers

/-- **What is held is where it belongs**: in the sub-pool that it goes to. -/
def InPlace (c : Coordinator NoncePool) : Prop :=
  ∀ (k : Nat) (p : NoncePool), c.pools[k]? = some p →
    p.holdings.All fun tx => route? c.pools tx = some k

/-- Where nothing is held nothing is out of place. -/
theorem inPlace_of_empty (hempty : ∀ p ∈ c.pools, p.holdings = Holdings.empty) : c.InPlace := by
  intro k p hp hash q hq
  rw [hempty p (List.mem_of_getElem? hp)] at hq
  cases hq

/-- **What is held stays where it belongs** if calls go where they should. -/
theorem InPlace.act (h : c.InPlace) {action : Action} (hrouted : action.Routed c.pools) :
    (c.act action).InPlace := by
  have heach := c.becomeEach_act action
  intro k p' hp'
  obtain ⟨p, hp, hbecomes⟩ := heach.exists_before hp'
  have hall := hbecomes.all (h k p hp) fun tx => hrouted.of_offers
  exact hall.mono fun tx htx => (route?_congr heach.map_charter_eq tx).trans htx

theorem InPlace.run (h : c.InPlace) {actions : List Action}
    (hrouted : ∀ action ∈ actions, action.Routed c.pools) : (c.run actions).InPlace := by
  induction actions generalizing c with
  | nil => exact h
  | cons action rest ih =>
    refine ih (h.act (hrouted action List.mem_cons_self)) fun action' haction' => ?_
    exact (hrouted action' (List.mem_cons_of_mem action haction')).congr
      (c.becomeEach_act action).map_charter_eq.symm

end Coordinator

end TxRelay
