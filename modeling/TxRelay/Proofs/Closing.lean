/-
The end of a pool of nonce-ordered sub-pools.

A sub-pool that leaves its seat gives up the accounts of the transactions that it
holds. Since these are the accounts that it has, nothing is refused, and when the
last sub-pool has left the table of claimed accounts is empty. From then on the seats
are what everything turns on: without a seat a sub-pool neither takes in nor claims
nor announces, and leaving once more is nothing.

The bus is closed before the first sub-pool leaves. In any state that can be reached
every subscriber has a backlog, so every subscription ends with it.
-/
import TxRelay.Proofs.Announcing
import TxRelay.Proofs.Following
import TxRelay.Proofs.Subscriptions

set_option autoImplicit false

namespace TxRelay

/-! ## Nonce-ordered sub-pools that have left -/

/-- **A sub-pool is empty**, whatever the execution layer says. -/
structure SubPool.IsEmpty {σ : Type} [SubPool σ] (p : σ) : Prop where
  get?_eq : ∀ hash, SubPool.get? p hash = none
  stats_eq : ∀ b, SubPool.stats p b = ⟨0, 0⟩
  pending_eq : ∀ b accounts, SubPool.pending p b accounts = ∅
  content_eq : ∀ b, SubPool.content p b = PoolContent.empty

namespace NoncePool

section
variable {p : NoncePool} {seat : Nat} {c : Commons}

/-- Where nothing is held, nothing is found and nothing is listed. -/
theorem isEmpty_of_get? (hc : p.holdings.Coherent) (hnone : ∀ hash, p.holdings.get? hash = none) :
    SubPool.IsEmpty p := by
  have hbyHash : p.holdings.byHash = ∅ := Std.ExtTreeMap.ext_getElem? fun {hash} => by
    rw [Std.ExtTreeMap.getElem?_empty]
    exact hnone hash
  have hsenders : p.holdings.senders = [] := by
    refine List.eq_nil_iff_forall_not_mem.mpr fun a ha => ?_
    obtain ⟨hash, q, hq, _⟩ := (hc.mem_senders_iff a).mp ha
    rw [hnone] at hq
    cases hq
  have hsplit : ∀ b a, p.split b a = ([], []) := fun b a => by
    have hnothing : p.holdings.ofSender a = [] := by
      refine List.eq_nil_iff_forall_not_mem.mpr fun q hq => ?_
      have hget := (Holdings.mem_ofSender hc).mp hq
      rw [hnone] at hget
      cases hget.1
    rw [split, Holdings.split, hnothing]
    rfl
  have hcollect : ∀ b accounts, p.collect b accounts = PoolContent.empty := fun b accounts => by
    rw [collect]
    induction accounts with
    | nil => rfl
    | cons a rest ih =>
      rw [List.foldl_cons, hsplit]
      exact ih
  exact {
    get?_eq := fun hash => congrArg (Option.map Pooled.tx) (hnone hash)
    stats_eq := fun b => by
      show stats p b = _
      rw [stats, pendingHashes, hsenders, Holdings.size, hbyHash]
      rfl
    pending_eq := fun b accounts => congrArg PoolContent.pending (hcollect b _)
    content_eq := fun b => hcollect b _ }

/-- A sub-pool in order refuses nothing when it is told to leave. -/
theorem InOrder.detach_ok (h : p.InOrder seat c.reservations) : (p.detach c).2.2 = .ok () := by
  rw [NoncePool.detach]
  rcases h.seated with hseat | ⟨hseat, _⟩
  · rw [hseat]
    have hown : ∀ a ∈ p.holdings.senders, c.reservations.owner? a = some seat := fun a ha =>
      (h.tidy.owner_iff a).mpr (Or.inl ((h.tidy.coherent.mem_senders_iff a).mp ha))
    obtain ⟨herrors, _⟩ := Reservations.releaseAll_of_owner p.holdings.nodup_senders hown
    dsimp only
    rw [herrors]
  · rw [hseat]

theorem seat_detach (p : NoncePool) (c : Commons) : (p.detach c).1.seat = none := by
  rw [NoncePool.detach]
  cases hseat : p.seat with
  | none => exact hseat
  | some seat => rfl

/-! Without a seat a sub-pool does nothing. -/

theorem reset_of_unseated (hseat : p.seat = none) (b : Backend) (c : Commons) (new : Header) :
    p.reset b c new = (p, c) := by
  rw [NoncePool.reset, hseat]

theorem detach_of_unseated (hseat : p.seat = none) (c : Commons) : p.detach c = (p, c, .ok ()) := by
  rw [NoncePool.detach, hseat]

end

end NoncePool

namespace Coordinator

/-! ## After the end -/

/-- Something that happens to a pool or on its bus (`PoolCoordinator`). -/
inductive Step where
  | pool (action : Action)
  | bus (action : Bus.Action)

/-- What happens on the bus. -/
def heard (steps : List Step) : List Bus.Action :=
  steps.filterMap fun
    | .pool _ => none
    | .bus action => some action

/-- What a closed pool says of a transaction. -/
def refusal {σ : Type} [SubPool σ] (pools : List σ) (tx : Transaction) : Outcome :=
  .error (if pools.any fun p => SubPool.claims p tx then .closed else .unsupportedType)

section
variable (c : Coordinator NoncePool)

/-- The pool on another bus. -/
def onBus (bus : Bus) : Coordinator NoncePool := { c with commons := { c.commons with bus } }

/-- The pool with more calls in its journal. -/
def noted (calls : List PoolCall) : Coordinator NoncePool := { c with journal := c.journal ++ calls }

/-- The pool after a step. -/
def next : Step → Coordinator NoncePool
  | .pool action => c.act action
  | .bus action => c.onBus (c.commons.bus.act action)

/-- The pool after several steps. -/
def proceed (steps : List Step) : Coordinator NoncePool := steps.foldl next c

/-- **A pool that is shut**: nothing is due any more, nothing is delivered, and nobody
has a seat. -/
structure Shut : Prop where
  closed : c.closed = true
  ended : c.loop.ended = true
  silent : c.commons.bus.closed = true
  unseated : ∀ p ∈ c.pools, p.seat = none

end

section
variable {c : Coordinator NoncePool}

theorem noted_noted (c : Coordinator NoncePool) (calls calls' : List PoolCall) :
    (c.noted calls).noted calls' = c.noted (calls ++ calls') := by
  rw [noted, noted, noted, ← List.append_assoc]

/-- Sub-pools that do nothing change nothing. -/
theorem sweep_of_idle {op : Nat → NoncePool → Commons → NoncePool × Commons} {pools : List NoncePool}
    (k : Nat) (c : Commons)
    (hidle : ∀ (j : Nat) (p : NoncePool), pools[j]? = some p → ∀ c, op (k + j) p c = (p, c)) :
    NoncePool.sweep op k c pools = (pools, c) := by
  induction pools generalizing k c with
  | nil => rfl
  | cons p rest ih =>
    have hrest := ih (k + 1) c fun j q hq c' => by
      rw [show k + 1 + j = k + (j + 1) by omega]
      exact hidle (j + 1) q hq c'
    have hp : op k p c = (p, c) := hidle 0 p rfl c
    rw [NoncePool.sweep, hp]
    dsimp only
    rw [hrest]

/-- **A batch of which nothing is taken in** is only noted. -/
theorem add_of_idle {views : Nat → Backend} {txs : List Transaction} {isLocal : Bool}
    (hidle : ∀ (k : Nat) (p : NoncePool), c.pools[k]? = some p → ∀ commons,
      takeIn views (share c.pools txs) isLocal k p commons = (p, commons)) (sync : Bool) :
    ∃ calls, (c.add views txs isLocal sync).1 = c.noted calls := by
  have hsame : NoncePool.sweep (takeIn views (share c.pools txs) isLocal) 0 c.commons c.pools
      = (c.pools, c.commons) := by
    refine sweep_of_idle 0 c.commons fun k p hp commons => ?_
    rw [Nat.zero_add]
    exact hidle k p hp commons
  rw [← addFrom_eq_sweep views (share c.pools txs) isLocal sync, Prod.mk.injEq] at hsame
  refine ⟨((List.range c.pools.length).filter fun pool => !(share c.pools txs pool).isEmpty).map
    fun pool => .add pool (share c.pools txs pool).length isLocal sync, ?_⟩
  show Coordinator.mk (addFrom _ _ _ _ _ _ _).1 (addFrom _ _ _ _ _ _ _).2.1 _ _ _ _ _ = _
  rw [hsame.1, hsame.2]
  rfl

theorem alone_of_idle {op : Nat → NoncePool → Commons → NoncePool × Commons}
    (hidle : ∀ p ∈ c.pools, ∀ k c, op k p c = (p, c)) (pool : Nat) : c.alone pool op = c := by
  rw [alone]
  cases hp : c.pools[pool]? with
  | none => rfl
  | some p =>
    obtain ⟨hpool, rfl⟩ := List.getElem?_eq_some_iff.mp hp
    dsimp only
    rw [hidle _ (List.getElem_mem hpool), List.set_getElem_self]

/-- A pool is shut when it has been closed. -/
theorem shut_close (hopen : c.closed = false) (views : Nat → Backend) : (c.close views).1.Shut where
  closed := by rw [close_of_open hopen]
  ended := Pursuit.ended_close views hopen
  silent := by
    rw [bus_close hopen]
    rfl
  unseated := by
    rw [close_of_open hopen]
    have hleft : ∀ p ∈ (NoncePool.sweep leave 0 (c.windUp views).silenced (c.windUp views).pools).1,
        p.seat = none := by
      intro p hp
      obtain ⟨_, q, c', _, rfl⟩ := NoncePool.of_mem_sweep hp
      exact NoncePool.seat_detach q c'
    rw [← detachAll_eq_sweep] at hleft
    exact hleft

/-- Sub-pools in order refuse nothing, one after the other. -/
theorem detachAll_ok {pools : List NoncePool} (k : Nat) (c : Commons)
    (hin : ∀ (j : Nat) (p : NoncePool), pools[j]? = some p → p.InOrder (k + j) c.reservations) :
    (detachAll c pools).2.2 = [] := by
  induction pools generalizing k c with
  | nil => rfl
  | cons p rest ih =>
    have hp := hin 0 p rfl
    obtain ⟨_, hagree⟩ := hp.detach
    rw [detachAll_cons]
    have hrest : (detachAll (SubPool.detach p c).2.1 rest).2.2 = [] := by
      refine ih (k + 1) _ fun j q hq => ?_
      -- The accounts of the later ones are untouched.
      have hq' := hin (j + 1) q (by rw [List.getElem?_cons_succ]; exact hq)
      rw [show k + (j + 1) = k + 1 + j by omega] at hq'
      exact hq'.of_agreeOn hagree (by omega)
    dsimp only
    rw [hrest, List.append_nil]
    exact congrArg (fun r => complaints [r]) hp.detach_ok

/-- **Closing never reports a failure.** -/
theorem Orderly.close_ok (h : c.Orderly) (views : Nat → Backend) : (c.close views).2 = .ok () := by
  cases hclosed : c.closed with
  | true => rw [close_of_closed hclosed]
  | false =>
    have horderly : (c.windUp views).Orderly :=
      Orderly.finishReset (c := { c with loop := c.loop.step .stop }) h views
    rw [close_of_open hclosed, detachAll_ok 0 _ fun j p hp => ?_]
    · rfl
    · rw [Nat.zero_add]
      exact horderly.in_order j p hp

namespace Shut

/-- Nothing is left of what a shut pool had. -/
theorem isEmpty (h : c.Shut) (horderly : c.Orderly) {p : NoncePool} (hp : p ∈ c.pools) :
    SubPool.IsEmpty p := by
  obtain ⟨i, hi⟩ := List.mem_iff_getElem?.mp hp
  have hin := horderly.in_order i p hi
  refine NoncePool.isEmpty_of_get? hin.tidy.coherent ?_
  rcases hin.seated with hseat | ⟨_, hnone⟩
  · rw [h.unseated p hp] at hseat
    cases hseat
  · exact hnone

theorem owners_eq (h : c.Shut) (horderly : c.Orderly) : c.commons.reservations.owners = ∅ := by
  refine Std.ExtTreeMap.ext_getElem? fun {a} => ?_
  rw [Std.ExtTreeMap.getElem?_empty, Option.eq_none_iff_forall_ne_some]
  intro i howner
  obtain ⟨p, hp, hash, q, hq, _⟩ := (NoncePool.Exclusive.owner_iff horderly a i).mp howner
  have hnone : (p.holdings.get? hash).map Pooled.tx = none :=
    (h.isEmpty horderly (List.mem_of_getElem? hp)).get?_eq hash
  rw [hq] at hnone
  cases hnone

/-- Nobody without a seat takes anything in. -/
theorem takeIn_idle (h : c.Shut) (views : Nat → Backend) (shares : Nat → List Transaction)
    (isLocal : Bool) : ∀ p ∈ c.pools, ∀ k c, takeIn views shares isLocal k p c = (p, c) := by
  intro p hp k c'
  rw [takeIn, NoncePool.add_of_unseated (h.unseated p hp)]
  exact ite_self _

/-- **A batch is refused**, and is only noted. -/
theorem add_eq (h : c.Shut) (views : Nat → Backend) (txs : List Transaction) (isLocal sync : Bool) :
    ∃ calls, c.add views txs isLocal sync = (c.noted calls, txs.map (refusal c.pools)) := by
  obtain ⟨calls, hpool⟩ := add_of_idle (fun k p hp commons =>
    h.takeIn_idle views (share c.pools txs) isLocal p (List.mem_of_getElem? hp) k commons) sync
  refine ⟨calls, Prod.ext hpool ?_⟩
  obtain ⟨between, hbatch⟩ := add_distributed c views txs isLocal sync
  refine List.ext_getElem? fun i => ?_
  rw [List.getElem?_map]
  cases hi : txs[i]? with
  | none =>
    refine List.getElem?_eq_none ?_
    rw [hbatch.length_results]
    exact List.getElem?_eq_none_iff.mp hi
  | some tx =>
    rw [Option.map_some, refusal]
    cases hroute : route? c.pools tx with
    | none =>
      have hnobody : (c.pools.any fun p => SubPool.claims p tx) = false :=
        List.any_eq_false.mpr fun p hp => by
          rw [route?_eq_none_iff.mp hroute p hp]
          exact Bool.false_ne_true
      rw [hbatch.unclaimed i tx hi (route?_eq_none_iff.mp hroute), hnobody]
      rfl
    | some k =>
      have hfirst := route?_eq_some_iff.mp hroute
      obtain ⟨⟨p, hp, hclaims⟩, _⟩ := hfirst
      have hsomebody : (c.pools.any fun p => SubPool.claims p tx) = true :=
        List.any_eq_true.mpr ⟨p, List.mem_of_getElem? hp, hclaims⟩
      obtain ⟨hplace, _, hresult⟩ := hbatch.claimed i tx k hi (route?_eq_some_iff.mp hroute)
      -- The first to claim it refuses its whole share.
      obtain ⟨p', _, hhanded⟩ := hbatch.handed k p hp
      have hshare : share c.pools txs k ≠ [] := by
        intro hnil
        rw [hnil] at hplace
        cases hplace
      rw [Handed, if_neg hshare] at hhanded
      have hown : c.answers views txs isLocal sync k
          = (share c.pools txs k).map fun _ => .error .closed := by
        have hadd := NoncePool.add_of_unseated (h.unseated p (List.mem_of_getElem? hp)) (views k)
          (between k) (share c.pools txs k) isLocal
        exact (congrArg (fun told => told.2.2) (hadd.symm.trans hhanded)).symm
      rw [hresult, hown, List.getElem?_map, hplace, hsomebody]
      rfl

/-- Whatever is done with a shut pool is only noted. -/
theorem act_eq (h : c.Shut) (action : Action) : ∃ calls, c.act action = c.noted calls := by
  have hquiet : c = c.noted [] := by
    rw [noted, List.append_nil]
  cases action with
  | add views txs isLocal sync =>
    obtain ⟨calls, hadd⟩ := h.add_eq views txs isLocal sync
    exact ⟨calls, congrArg Prod.fst hadd⟩
  | notify head => exact ⟨[], (Pursuit.notify_of_ended h.ended head).trans hquiet⟩
  | finishReset views => exact ⟨[], (Pursuit.finishReset_of_ended views h.ended).trans hquiet⟩
  | close views => exact ⟨[], (congrArg Prod.fst (close_of_closed h.closed views)).trans hquiet⟩
  | offer pool b txs isLocal =>
    exact ⟨[], (alone_of_idle (h.takeIn_idle _ _ isLocal) pool).trans hquiet⟩
  | reset pool b new =>
    have hidle : ∀ p ∈ c.pools, ∀ k c, catchUp (fun _ => b) new k p c = (p, c) :=
      fun p hp _ c' => NoncePool.reset_of_unseated (h.unseated p hp) b c' new
    exact ⟨[], (alone_of_idle hidle pool).trans hquiet⟩
  | leave pool =>
    have hidle : ∀ p ∈ c.pools, ∀ k c, Coordinator.leave k p c = (p, c) := by
      intro p hp _ c'
      rw [Coordinator.leave, NoncePool.detach_of_unseated (h.unseated p hp)]
    exact ⟨[], (alone_of_idle hidle pool).trans hquiet⟩

theorem noted (h : c.Shut) (calls : List PoolCall) : (c.noted calls).Shut :=
  ⟨h.closed, h.ended, h.silent, h.unseated⟩

theorem onBus (h : c.Shut) (action : Bus.Action) : (c.onBus (c.commons.bus.act action)).Shut := by
  refine ⟨h.closed, h.ended, ?_, h.unseated⟩
  show (c.commons.bus.act action).closed = true
  rw [Bus.closed_act, h.silent, Bool.true_or]

/-- **What happens later happens on the bus**, and all else is only noted. -/
theorem proceed_eq (h : c.Shut) (later : List Step) :
    ∃ calls, c.proceed later = (c.onBus (c.commons.bus.run (heard later))).noted calls := by
  induction later generalizing c with
  | nil => exact ⟨[], by rw [Coordinator.noted, List.append_nil]; rfl⟩
  | cons step rest ih =>
    cases step with
    | pool action =>
      obtain ⟨calls, hact⟩ := h.act_eq action
      obtain ⟨calls', hrest⟩ := ih (h.noted calls)
      refine ⟨calls ++ calls', ?_⟩
      show (c.act action).proceed rest = _
      rw [hact, hrest]
      exact noted_noted (c.onBus _) calls calls'
    | bus action => exact ih (h.onBus action)

end Shut

/-! ## At every moment -/

/-- **What holds of a pool at every moment.** -/
structure Governed (c : Coordinator NoncePool) : Prop where
  orderly : c.Orderly
  attended : c.commons.bus.Attended
  shut : c.closed = true → c.Shut

/-- Only closing closes a pool. -/
theorem closed_act (hopen : c.closed = false) {action : Action}
    (hclose : ∀ views, action ≠ .close views) : (c.act action).closed = false := by
  have halone : ∀ pool op, (c.alone pool op).closed = false := by
    intro pool op
    rw [alone]
    cases c.pools[pool]? with
    | none => exact hopen
    | some p => exact hopen
  cases action with
  | add views txs isLocal sync => exact hopen
  | notify head => exact hopen
  | finishReset views => exact (Pursuit.closed_finishReset views c).trans hopen
  | close views => exact absurd rfl (hclose views)
  | offer pool b txs isLocal => exact halone pool _
  | reset pool b new => exact halone pool _
  | leave pool => exact halone pool _

namespace Governed

theorem act (h : c.Governed) (action : Action) : (c.act action).Governed where
  orderly := h.orderly.act action
  attended := by
    rw [bus_act]
    exact h.attended.run _
  shut := by
    intro hclosed'
    cases hclosed : c.closed with
    | true =>
      obtain ⟨calls, hact⟩ := (h.shut hclosed).act_eq action
      rw [hact]
      exact (h.shut hclosed).noted calls
    | false =>
      by_cases hclose : ∃ views, action = .close views
      · obtain ⟨views, rfl⟩ := hclose
        exact shut_close hclosed views
      · rw [closed_act hclosed fun views heq => hclose ⟨views, heq⟩] at hclosed'
        cases hclosed'

theorem next (h : c.Governed) (step : Step) : (c.next step).Governed := by
  cases step with
  | pool action => exact h.act action
  | bus action => exact ⟨h.orderly, h.attended.act action, fun hclosed => (h.shut hclosed).onBus action⟩

theorem proceed (h : c.Governed) (steps : List Step) : (c.proceed steps).Governed := by
  induction steps generalizing c with
  | nil => exact h
  | cons step rest ih => exact ih (h.next step)

end Governed

theorem governed_start {head : Header} {pools : List NoncePool}
    (hstart : start head pools = .running c) (horderly : c.Orderly) : c.Governed := by
  obtain ⟨hbus, hopen⟩ := start_fresh hstart
  refine ⟨horderly, ?_, fun hclosed => ?_⟩
  · rw [hbus]
    exact Bus.attended_new _
  · rw [hopen] at hclosed
    cases hclosed

/-- **A pool after its end** (`PoolCoordinator::close`). -/
structure Over (c : Coordinator NoncePool) : Prop where
  /-- Nobody has an account. -/
  owners_eq : c.commons.reservations.owners = ∅
  /-- No sub-pool holds or lists anything. -/
  isEmpty : ∀ p ∈ c.pools, SubPool.IsEmpty p
  /-- Whatever is done with the pool is noted, and changes nothing; what is done on
  the bus changes the bus. -/
  proceed_eq : ∀ later, ∃ calls,
    c.proceed later = (c.onBus (c.commons.bus.run (heard later))).noted calls
  /-- Every subscriber reads what remains, and then for ever that its subscription
  has ended. -/
  ends : ∀ (id : Nat) (s : Subscriber), c.commons.bus.subscribers[id]? = some s →
    ∀ later, .drop id ∉ heard later → c.commons.bus.readings id (heard later)
      = Bus.lastReadings (c.commons.bus.remaining id) ((heard later).count (.read id))
  /-- Batches are refused, with nothing claimed and nothing published. -/
  add_eq : ∀ views txs isLocal sync, ∃ calls,
    c.add views txs isLocal sync = (c.noted calls, txs.map (refusal c.pools))
  /-- Closing again changes nothing. -/
  close_eq : ∀ views, c.close views = (c, .ok ())

theorem Governed.over (h : c.Governed) (hclosed : c.closed = true) : c.Over where
  owners_eq := (h.shut hclosed).owners_eq h.orderly
  isEmpty := fun _ hp => (h.shut hclosed).isEmpty h.orderly hp
  proceed_eq := (h.shut hclosed).proceed_eq
  ends := fun _ _ hs _ hdrop => h.attended.ends (h.shut hclosed).silent hs hdrop
  add_eq := (h.shut hclosed).add_eq
  close_eq := close_of_closed hclosed

/-- **Closing is complete and final.** Whatever happened to a pool of nonce-ordered
sub-pools, closing it succeeds, and whatever happens afterwards it stays over; what was
to be read on the bus is still to be read. A pool of any sub-pools tells each of them to
leave, once and in order, and reports what they complained of; closing it again changes
nothing. -/
theorem close_is_final :
    (∀ (head : Header) (specs : List (String × NonceLimits × (Transaction → Bool))),
      ∃ c₀ : Coordinator NoncePool, start head (freshPools specs) = .running c₀ ∧
        ∀ (before later : List Step) (views : Nat → Backend),
          let closing := (c₀.proceed before).close views
          closing.2 = .ok () ∧ (closing.1.proceed later).Over ∧
            ((c₀.proceed before).closed = false →
              closing.1.commons.bus = ((c₀.proceed before).windUp views).commons.bus.close)) ∧
      ∀ (σ : Type) [SubPool σ] (c : Coordinator σ) (views : Nat → Backend),
        (c.closed = false →
          ∃ between said, Disbanded c views (c.close views).1 (c.close views).2 between said) ∧
        (c.closed = true → c.close views = (c, .ok ())) := by
  refine ⟨fun head specs => ?_, fun σ _ c views =>
    ⟨fun hopen => close_disbanded hopen views, fun hclosed => close_of_closed hclosed views⟩⟩
  obtain ⟨c₀, hstart, horderly, _⟩ := start_freshPools head specs
  refine ⟨c₀, hstart, fun before later views => ?_⟩
  have h := (governed_start hstart horderly).proceed before
  have hclosing : ((c₀.proceed before).close views).1.Governed := h.act (.close views)
  have hclosed : ((c₀.proceed before).close views).1.closed = true := by
    cases hopen : (c₀.proceed before).closed with
    | true =>
      rw [close_of_closed hopen]
      exact hopen
    | false => exact (shut_close hopen views).closed
  refine ⟨h.orderly.close_ok views, (hclosing.proceed later).over ?_, fun hopen => bus_close hopen views⟩
  obtain ⟨calls, hlater⟩ := (hclosing.shut hclosed).proceed_eq later
  rw [hlater]
  exact hclosed

end

end Coordinator

end TxRelay
