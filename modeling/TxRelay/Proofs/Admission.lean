/-
Whatever sub-pools let in they announce.

A sub-pool holds after a batch what it held before, or what the batch brought
and it accepted; and what it accepted it announces in one go. Resets and
leaving only take out. So over any calls, what has come to be held is named by
an announcement that was made meanwhile, as long as the bus is open.
-/
import TxRelay.Gossip.PoolSet
import TxRelay.Proofs.Delivery
import TxRelay.Proofs.Exclusivity

set_option autoImplicit false

namespace TxRelay

open Bus (Delivered)

/-! ## One sub-pool -/

namespace Holdings

/-- Something is held under a digest. -/
def Holds (h : Holdings) (hash : Digest) : Prop := ∃ p, h.get? hash = some p

variable {h h' : Holdings} {hash : Digest}

theorem Within.holds (hw : h.Within h') (hheld : h.Holds hash) : h'.Holds hash := by
  obtain ⟨p, hp⟩ := hheld
  exact ⟨p, hw hash p hp⟩

theorem holds_insert {tx : Transaction} {isLocal : Bool} (hheld : (h.insert tx isLocal).Holds hash) :
    tx.hash = hash ∨ h.Holds hash := by
  obtain ⟨p, hp⟩ := hheld
  rw [get?_insert] at hp
  split at hp
  · next heq => exact Or.inl heq
  · exact Or.inr ⟨p, hp⟩

end Holdings

namespace NoncePool

section
variable {limits : NonceLimits} {seat : Nat} {b : Backend} {hash : Digest} {isLocal : Bool}

/-- What is held after an offer was held before, or is what was let in. -/
theorem holds_letIn {s : Space} {tx : Transaction}
    (hheld : (letIn limits seat b s tx isLocal).1.holdings.Holds hash) :
    s.holdings.Holds hash ∨ ((letIn limits seat b s tx isLocal).2 = .ok () ∧ tx.hash = hash) := by
  have hl := letIn_letting limits seat b s tx isLocal
  generalize letIn limits seat b s tx isLocal = result at hl hheld ⊢
  cases hl with
  | refused e => exact Or.inl hheld
  | replaced old h hold hprice =>
    rcases Holdings.holds_insert hheld with heq | hrest
    · exact Or.inr ⟨rfl, heq⟩
    · exact Or.inl ((Holdings.Within.remove s.holdings old.hash).holds hrest)
  | crowded claimed e h hnone hcount hclaim hroom =>
    have hsettled : (claimed.settle seat none tx.sender).holdings.Holds hash := hheld
    rw [Space.settle_holdings, claimSender_holdings hclaim] at hsettled
    exact Or.inl hsettled
  | entered claimed roomy h hnone hcount hclaim hroom =>
    rcases Holdings.holds_insert hheld with heq | hrest
    · exact Or.inr ⟨rfl, heq⟩
    · refine Or.inl ?_
      rw [← claimSender_holdings hclaim]
      rcases makeRoom_within hroom with rfl | ⟨victim, rfl⟩
      · exact hrest
      · exact (claimed.drop_within seat (some tx.sender) victim).holds hrest

theorem accepted_cons_ok (tx : Transaction) (rest : List (Transaction × Outcome)) :
    accepted ((tx, .ok ()) :: rest) = tx :: accepted rest := rfl

theorem subset_accepted_cons (o : Transaction × Outcome) (rest : List (Transaction × Outcome)) :
    accepted rest ⊆ accepted (o :: rest) := by
  intro tx htx
  rw [accepted, List.filterMap_cons]
  split
  · exact htx
  · exact List.mem_cons_of_mem _ htx

/-- What is held after a batch was held before, or the batch brought it and it
was let in. -/
theorem holds_letInAll {s : Space} {txs : List Transaction}
    (hheld : (letInAll limits seat b isLocal s txs).1.holdings.Holds hash) :
    s.holdings.Holds hash ∨
      ∃ tx ∈ accepted (letInAll limits seat b isLocal s txs).2, tx.hash = hash := by
  induction txs generalizing s with
  | nil => exact Or.inl hheld
  | cons tx rest ih =>
    rcases ih hheld with hbefore | ⟨tx', htx', heq⟩
    · rcases holds_letIn hbefore with hold | ⟨hok, heq⟩
      · exact Or.inl hold
      · refine Or.inr ⟨tx, ?_, heq⟩
        show tx ∈ accepted ((tx, (letIn limits seat b s tx isLocal).2) :: _)
        rw [hok, accepted_cons_ok]
        exact List.mem_cons_self
    · exact Or.inr ⟨tx', subset_accepted_cons _ _ htx', heq⟩

end

theorem within_reset (p : NoncePool) (b : Backend) (c : Commons) (new : Header) :
    (p.reset b c new).1.holdings.Within p.holdings := by
  rw [NoncePool.reset]
  split
  · exact Holdings.Within.refl _
  · next seat _ =>
    show ((stale b p.holdings).foldl (fun s hash => s.drop seat none hash)
      (p.space c.reservations)).holdings.Within p.holdings
    rw [foldl_drop_holdings]
    -- Each of the digests takes out at most one more.
    refine List.foldlRecOn (motive := (Holdings.Within · p.holdings)) (stale b p.holdings) _
      (Holdings.Within.refl _) fun h hwithin hash _ => ?_
    exact fun hash' q hq => hwithin hash' q (Holdings.Within.remove h hash hash' q hq)

theorem within_detach (p : NoncePool) (c : Commons) :
    (p.detach c).1.holdings.Within p.holdings := by
  rw [NoncePool.detach]
  split
  · exact Holdings.Within.refl _
  · intro hash q hq
    have hnone : p.holdings.clear.get? hash = some q := hq
    rw [Holdings.get?_clear] at hnone
    cases hnone

end NoncePool

/-! ## Saying what is let in -/

/-- **Something went on openly**: what is held afterwards was held before or was
announced meanwhile, unless the bus was closed. -/
structure Openly (listener : Nat) (held held' : Digest → Prop) (c c' : Commons) (es : List Event) :
    Prop where
  delivered : Delivered listener c.bus c'.bus es
  told : c'.bus.closed = false →
    ∀ hash, held' hash → held hash ∨ ∃ tx ∈ PoolSet.announced es, tx.hash = hash

namespace Openly

variable {listener : Nat} {held held' held'' other other' : Digest → Prop} {c c' c'' : Commons}
  {es es' : List Event}

/-- Nothing is let in. -/
theorem of_subset (hdelivered : Delivered listener c.bus c'.bus es)
    (hsub : ∀ hash, held' hash → held hash) : Openly listener held held' c c' es :=
  ⟨hdelivered, fun _ hash hheld => Or.inl (hsub hash hheld)⟩

theorem refl (listener : Nat) (held : Digest → Prop) (c : Commons) : Openly listener held held c c [] :=
  of_subset (Delivered.refl listener c.bus) fun _ h => h

theorem announced_append (es es' : List Event) :
    PoolSet.announced (es ++ es') = PoolSet.announced es ++ PoolSet.announced es' :=
  List.flatMap_append

/-- One thing after the other. -/
theorem trans (h : Openly listener held held' c c' es) (h' : Openly listener held' held'' c' c'' es') :
    Openly listener held held'' c c'' (es ++ es') where
  delivered := h.delivered.trans h'.delivered
  told hopen hash hheld := by
    rw [announced_append]
    rcases h'.told hopen hash hheld with hbefore | ⟨tx, htx, heq⟩
    · rcases h.told (h'.delivered.open_of hopen) hash hbefore with hfirst | ⟨tx, htx, heq⟩
      · exact Or.inl hfirst
      · exact Or.inr ⟨tx, List.mem_append_left _ htx, heq⟩
    · exact Or.inr ⟨tx, List.mem_append_right _ htx, heq⟩

/-- What does not change can be held besides. -/
theorem or_left (h : Openly listener held held' c c' es) (other : Digest → Prop) :
    Openly listener (fun hash => other hash ∨ held hash) (fun hash => other hash ∨ held' hash)
      c c' es where
  delivered := h.delivered
  told hopen hash hheld := by
    rcases hheld with hother | hheld
    · exact Or.inl (Or.inl hother)
    · exact (h.told hopen hash hheld).imp_left Or.inr

theorem or_right (h : Openly listener held held' c c' es) (other : Digest → Prop) :
    Openly listener (fun hash => held hash ∨ other hash) (fun hash => held' hash ∨ other hash)
      c c' es where
  delivered := h.delivered
  told hopen hash hheld := by
    rcases hheld with hheld | hother
    · exact (h.told hopen hash hheld).imp_left Or.inl
    · exact Or.inl (Or.inr hother)

end Openly

namespace NoncePool

/-- Something that a sub-pool does goes on openly. -/
def Outspoken (listener : Nat) (op : Nat → NoncePool → Commons → NoncePool × Commons) : Prop :=
  ∀ i p c, ∃ es, Openly listener p.holdings.Holds (op i p c).1.holdings.Holds c (op i p c).2 es

/-- Some of the sub-pools holds something under a digest. -/
def Held (pools : List NoncePool) (hash : Digest) : Prop := ∃ p ∈ pools, p.holdings.Holds hash

theorem held_cons (p : NoncePool) (rest : List NoncePool) :
    Held (p :: rest) = fun hash => p.holdings.Holds hash ∨ Held rest hash := by
  funext hash
  rw [Held]
  exact propext (by simp [Held])

variable {listener : Nat} {op : Nat → NoncePool → Commons → NoncePool × Commons}

/-- What one sub-pool after the other does openly goes on openly. -/
theorem Outspoken.sweep (hop : Outspoken listener op) (k : Nat) (c : Commons) (pools : List NoncePool) :
    ∃ es, Openly listener (Held pools) (Held (sweep op k c pools).1) c (sweep op k c pools).2 es := by
  induction pools generalizing k c with
  | nil => exact ⟨[], Openly.refl listener (Held []) c⟩
  | cons p rest ih =>
    obtain ⟨es, hp⟩ := hop k p c
    obtain ⟨es', hrest⟩ := ih (k + 1) (op k p c).2
    refine ⟨es ++ es', ?_⟩
    rw [NoncePool.sweep]
    dsimp only
    rw [held_cons, held_cons]
    exact (hp.or_right (Held rest)).trans (hrest.or_left (op k p c).1.holdings.Holds)

/-- A batch. -/
theorem openly_add (listener : Nat) (p : NoncePool) (b : Backend) (c : Commons)
    (txs : List Transaction) (isLocal : Bool) :
    ∃ es, Openly listener p.holdings.Holds (p.add b c txs isLocal).1.holdings.Holds c
      (p.add b c txs isLocal).2.1 es := by
  rw [NoncePool.add]
  split
  · exact ⟨[], Openly.refl listener _ c⟩
  · next seat _ =>
    dsimp only
    have hheld : ∀ hash,
        (letInAll p.limits seat b isLocal (p.space c.reservations) txs).1.holdings.Holds hash →
          p.holdings.Holds hash ∨
            ∃ tx ∈ accepted (letInAll p.limits seat b isLocal (p.space c.reservations) txs).2,
              tx.hash = hash :=
      fun _ => holds_letInAll
    generalize letInAll p.limits seat b isLocal (p.space c.reservations) txs = result at hheld ⊢
    obtain ⟨s, outcomes⟩ := result
    by_cases hnew : (accepted outcomes).isEmpty = true
    · -- Nothing was let in, and nothing is said.
      rw [if_pos hnew]
      refine ⟨[], ?_, fun _ hash hafter => ?_⟩
      · exact Delivered.refl listener c.bus
      · rcases hheld hash hafter with hbefore | ⟨tx, htx, _⟩
        · exact Or.inl hbefore
        · rw [List.isEmpty_iff.mp hnew] at htx
          cases htx
    · rw [if_neg hnew]
      have hpublish := Delivered.publish listener c.bus (.transactions (accepted outcomes) isLocal)
      refine ⟨_, hpublish, fun hopen hash hafter => ?_⟩
      rw [hpublish.open_of hopen, if_neg Bool.false_ne_true]
      show _ ∨ ∃ tx ∈ accepted outcomes ++ [], tx.hash = hash
      rw [List.append_nil]
      exact hheld hash hafter

end NoncePool

namespace Coordinator

open NoncePool (Outspoken Held)

theorem outspoken_takeIn (listener : Nat) (views : Nat → Backend) (shares : Nat → List Transaction)
    (isLocal : Bool) : Outspoken listener (takeIn views shares isLocal) := by
  intro i p c
  rw [takeIn]
  split
  · exact ⟨[], Openly.refl listener _ c⟩
  · exact p.openly_add listener (views i) c (shares i) isLocal

theorem outspoken_catchUp (listener : Nat) (views : Nat → Backend) (new : Header) :
    Outspoken listener (catchUp views new) := by
  intro i p c
  have hbus : (p.reset (views i) c new).2.bus = c.bus := by
    rw [NoncePool.reset]
    split <;> rfl
  refine ⟨[], Openly.of_subset ?_ fun _ => (p.within_reset (views i) c new).holds⟩
  show Delivered listener c.bus (p.reset (views i) c new).2.bus []
  rw [hbus]
  exact Delivered.refl listener c.bus

theorem outspoken_leave (listener : Nat) : Outspoken listener leave := by
  intro i p c
  have hbus : (p.detach c).2.1.bus = c.bus := by
    rw [NoncePool.detach]
    split <;> rfl
  refine ⟨[], Openly.of_subset ?_ fun _ => (p.within_detach c).holds⟩
  show Delivered listener c.bus (p.detach c).2.1.bus []
  rw [hbus]
  exact Delivered.refl listener c.bus

variable (listener : Nat) (c : Coordinator NoncePool)

theorem has_iff (hash : Digest) : c.has hash = true ↔ Held c.pools hash := by
  rw [has, List.any_eq_true]
  refine exists_congr fun p => and_congr_right fun _ => ?_
  show ((p.holdings.get? hash).map Pooled.tx).isSome = true ↔ _
  rw [Option.isSome_map]
  exact Option.isSome_iff_exists

theorem openly_alone (pool : Nat) {op : Nat → NoncePool → Commons → NoncePool × Commons}
    (hop : Outspoken listener op) :
    ∃ es, Openly listener (Held c.pools) (Held (c.alone pool op).pools) c.commons
      (c.alone pool op).commons es := by
  rw [alone]
  cases hp : c.pools[pool]? with
  | none => exact ⟨[], Openly.refl listener _ c.commons⟩
  | some p =>
    obtain ⟨es, hopenly⟩ := hop pool p c.commons
    refine ⟨es, hopenly.delivered, fun hopen hash hheld => ?_⟩
    obtain ⟨q, hq, hholds⟩ := hheld
    rcases List.mem_or_eq_of_mem_set hq with hbefore | rfl
    · exact Or.inl ⟨q, hbefore, hholds⟩
    · exact (hopenly.told hopen hash hholds).imp_left
        fun hbefore => ⟨p, List.mem_of_getElem? hp, hbefore⟩

theorem openly_add (views : Nat → Backend) (txs : List Transaction) (isLocal sync : Bool) :
    ∃ es, Openly listener (Held c.pools) (Held (c.add views txs isLocal sync).1.pools) c.commons
      (c.add views txs isLocal sync).1.commons es := by
  have hs := (outspoken_takeIn listener views (share c.pools txs) isLocal).sweep 0 c.commons c.pools
  rw [← addFrom_eq_sweep views (share c.pools txs) isLocal sync] at hs
  exact hs

theorem openly_finishReset (views : Nat → Backend) :
    ∃ es, Openly listener (Held c.pools) (Held (c.finishReset views).pools) c.commons
      (c.finishReset views).commons es := by
  rw [finishReset]
  cases c.loop.running with
  | none => exact ⟨[], Openly.refl listener _ c.commons⟩
  | some heads =>
    have hs := (outspoken_catchUp listener views heads.2).sweep 0 c.commons c.pools
    rw [← resetFrom_eq_sweep views heads.1 heads.2] at hs
    obtain ⟨es, hopenly⟩ := hs
    dsimp only
    split
    · -- The head is announced in the end.
      exact ⟨_, hopenly.trans (Openly.of_subset (Delivered.publish listener _ _) fun _ h => h)⟩
    · exact ⟨es, hopenly⟩

theorem openly_close (views : Nat → Backend) :
    ∃ es, Openly listener (Held c.pools) (Held (c.close views).1.pools) c.commons
      (c.close views).1.commons es := by
  rw [close]
  split
  · exact ⟨[], Openly.refl listener _ c.commons⟩
  · obtain ⟨es, hreset⟩ := openly_finishReset listener { c with loop := c.loop.step .stop } views
    generalize ({ c with loop := c.loop.step .stop } : Coordinator NoncePool).finishReset views = c'
      at hreset ⊢
    have hs := (outspoken_leave listener).sweep 0
      { c'.commons with bus := c'.commons.bus.close } c'.pools
    rw [← detachAll_eq_sweep] at hs
    obtain ⟨es', hleave⟩ := hs
    have hclose : Openly listener (Held c'.pools) (Held c'.pools) c'.commons
        { c'.commons with bus := c'.commons.bus.close } [] :=
      Openly.of_subset (Delivered.close listener c'.commons.bus) fun _ h => h
    exact ⟨_, hreset.trans (hclose.trans hleave)⟩

/-- **Whatever happens to the pool**, what comes to be held is announced. -/
theorem openly_act (action : Action) :
    ∃ es, Openly listener (Held c.pools) (Held (c.act action).pools) c.commons
      (c.act action).commons es := by
  cases action with
  | add views txs isLocal sync => exact openly_add listener c views txs isLocal sync
  | notify head => exact ⟨[], Openly.refl listener _ c.commons⟩
  | finishReset views => exact openly_finishReset listener c views
  | close views => exact openly_close listener c views
  | offer pool b txs isLocal =>
    exact openly_alone listener c pool (outspoken_takeIn listener _ _ isLocal)
  | reset pool b new => exact openly_alone listener c pool (outspoken_catchUp listener _ new)
  | leave pool => exact openly_alone listener c pool (outspoken_leave listener)

end Coordinator

end TxRelay
