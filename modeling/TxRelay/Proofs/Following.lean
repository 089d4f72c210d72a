/-
What the sub-pools hold after a block.

A loop at rest on a head that is told of another one carries out one reset, and
is at rest again on the new head. A reset leaves in each sub-pool what is
acceptable and not behind its sender, so afterwards that is true of everything
held; and adding keeps it true, under the same answers.
-/
import TxRelay.Proofs.Exclusivity

set_option autoImplicit false

namespace TxRelay

namespace ResetLoop

/-- The loop waits on a head, and was not asked to stop. -/
structure AtRest (l : ResetLoop) (head : Header) : Prop where
  applied_eq : l.applied = head
  idle : l.running = none
  lively : l.stopping = false

/-- A loop at rest that is told of another head starts a reset to it. -/
theorem AtRest.step_head {l : ResetLoop} {old new : Header} (h : l.AtRest old)
    (hne : new.hash ≠ old.hash) : l.step (.head new) = ⟨old, new, some (old, new), false⟩ := by
  obtain ⟨applied, latest, running, stopping⟩ := l
  obtain ⟨rfl, rfl, rfl⟩ := h
  have hnew : (new.hash != applied.hash) = true := by simpa using hne
  simp [step, launch, hnew]

/-- When that reset ends, the loop is at rest on the new head. -/
theorem step_done (old new : Header) :
    (step ⟨old, new, some (old, new), false⟩ .done).AtRest new := by
  have hdone : step ⟨old, new, some (old, new), false⟩ .done = ⟨new, new, none, false⟩ := by
    simp [step, launch]
  rw [hdone]
  exact ⟨rfl, rfl, rfl⟩

end ResetLoop

namespace NoncePool

variable {op : Nat → NoncePool → Commons → NoncePool × Commons}

/-- What becomes of a sub-pool when it is its turn in a sweep. -/
theorem getElem?_sweep_eq (op : Nat → NoncePool → Commons → NoncePool × Commons) {i : Nat}
    {pools : List NoncePool} {p : NoncePool} (hp : pools[i]? = some p) (k : Nat) (c : Commons) :
    (sweep op k c pools).1[i]? = some (op (k + i) p (sweep op k c (pools.take i)).2).1 := by
  induction pools generalizing i k c with
  | nil => cases hp
  | cons q rest ih =>
    cases i with
    | zero =>
      obtain rfl := Option.some.inj hp
      rfl
    | succ i =>
      have hrest := ih hp (k + 1) (op k q c).2
      rw [show k + 1 + i = k + (i + 1) by omega] at hrest
      exact hrest

/-- A sub-pool after a sweep is what became of the sub-pool in its place. -/
theorem getElem?_sweep {k i : Nat} {c : Commons} {pools : List NoncePool} {p' : NoncePool}
    (hp' : (sweep op k c pools).1[i]? = some p') :
    ∃ p c', pools[i]? = some p ∧ p' = (op (k + i) p c').1 := by
  have hi : i < pools.length := by
    have hlength : (sweep op k c pools).1.length = pools.length := length_sweep k c pools
    rw [← hlength]
    exact (List.getElem?_eq_some_iff.mp hp').1
  have hp := List.getElem?_eq_getElem hi
  rw [getElem?_sweep_eq op hp] at hp'
  exact ⟨_, _, hp, (Option.some.inj hp').symm⟩

theorem of_mem_sweep {k : Nat} {c : Commons} {pools : List NoncePool} {p' : NoncePool}
    (hp' : p' ∈ (sweep op k c pools).1) : ∃ i p c', p ∈ pools ∧ p' = (op i p c').1 := by
  obtain ⟨i, hi⟩ := List.mem_iff_getElem?.mp hp'
  obtain ⟨p, c', hp, heq⟩ := getElem?_sweep hi
  exact ⟨k + i, p, c', List.mem_of_getElem? hp, heq⟩

end NoncePool

namespace Coordinator

variable {c : Coordinator NoncePool} {views : Nat → Backend} {Q : Transaction → Prop}

/-- Something is true of every transaction that the sub-pools hold. -/
def All (Q : Transaction → Prop) (c : Coordinator NoncePool) : Prop :=
  ∀ p ∈ c.pools, p.holdings.All Q

/-- **A batch** adds what is acceptable and not behind its sender. -/
theorem All.add (ha : c.All Q)
    (hQ : ∀ i tx, (views i).validate tx = .ok () → ¬tx.nonce < (views i).nonce tx.sender → Q tx)
    (txs : List Transaction) (isLocal sync : Bool) : (c.add views txs isLocal sync).1.All Q := by
  intro p' hp'
  -- The sub-pools take in their shares one after the other.
  have hsweep := congrArg Prod.fst
    (addFrom_eq_sweep views (share c.pools txs) isLocal sync 0 c.commons c.pools)
  have hp' : p' ∈ (addFrom views (share c.pools txs) isLocal sync 0 c.commons c.pools).1 := hp'
  rw [show (addFrom views (share c.pools txs) isLocal sync 0 c.commons c.pools).1 = _ from hsweep]
    at hp'
  obtain ⟨i, p, c', hp, rfl⟩ := NoncePool.of_mem_sweep hp'
  rw [takeIn]
  split
  · exact ha p hp
  · exact NoncePool.all_add (ha p hp) (fun tx _ => hQ i tx) c' isLocal

/-- No sub-pool breaks off. -/
theorem resetFrom_whole (views : Nat → Backend) (old new : Header) (i : Nat) (commons : Commons)
    (pools : List NoncePool) : (resetFrom views old new i commons pools).2.2.1 = true := by
  induction pools generalizing i commons with
  | nil => rfl
  | cons p rest ih => exact ih (i + 1) (p.reset (views i) commons new).2

/-- The reset that is under way is carried out in every sub-pool, and then the
pool is on the new head. -/
theorem finishReset_of_running (views : Nat → Backend) {old new : Header}
    (hrunning : c.loop.running = some (old, new)) :
    (c.finishReset views).pools = (NoncePool.sweep (catchUp views new) 0 c.commons c.pools).1 ∧
      (c.finishReset views).loop = c.loop.step .done ∧ (c.finishReset views).head = new := by
  rw [← resetFrom_eq_sweep views old new, finishReset, hrunning]
  dsimp only
  rw [if_pos (resetFrom_whole views old new 0 c.commons c.pools)]
  exact ⟨rfl, rfl, rfl⟩

/-- **Following a new head** is one reset of every sub-pool. -/
theorem follow_of_atRest {old new : Header} (hrest : c.loop.AtRest old)
    (hne : new.hash ≠ old.hash) :
    (c.follow views [new]).pools = (NoncePool.sweep (catchUp views new) 0 c.commons c.pools).1 ∧
      (c.follow views [new]).loop.AtRest new ∧ (c.follow views [new]).head = new := by
  -- At rest, the news of a head starts one reset, from the old head to the new.
  have hloop : (c.notify new).loop = ⟨old, new, some (old, new), false⟩ := hrest.step_head hne
  have hrunning : (c.notify new).loop.running = some (old, new) := by rw [hloop]
  obtain ⟨hpools, hloop', hhead⟩ := finishReset_of_running views hrunning
  have hrest' : ((c.notify new).finishReset views).loop.AtRest new := by
    rw [hloop', hloop]
    exact ResetLoop.step_done old new
  -- The second look finds nothing to do.
  have hidle : c.follow views [new] = (c.notify new).finishReset views := by
    show ((c.notify new).finishReset views).finishReset views = _
    rw [finishReset, hrest'.idle]
  rw [hidle]
  exact ⟨hpools, hrest', hhead⟩

theorem length_follow {old new : Header} (hrest : c.loop.AtRest old) (hne : new.hash ≠ old.hash) :
    (c.follow views [new]).pools.length = c.pools.length := by
  rw [(follow_of_atRest hrest hne).1, NoncePool.length_sweep]

/-- **What a sub-pool holds after following** is what it held before, as far as
that is acceptable and not behind its sender. -/
theorem get?_follow {old new : Header} (horderly : c.Orderly) (hrest : c.loop.AtRest old)
    (hne : new.hash ≠ old.hash) {i : Nat} {p p' : NoncePool} (hp : c.pools[i]? = some p)
    (hp' : (c.follow views [new]).pools[i]? = some p') {hash : Digest} {q : Pooled} :
    p'.holdings.get? hash = some q ↔
      p.holdings.get? hash = some q ∧ (views i).validate q.tx = .ok () ∧
        ¬q.tx.nonce < (views i).nonce q.tx.sender := by
  rw [(follow_of_atRest hrest hne).1] at hp'
  obtain ⟨p₀, c', hp₀, rfl⟩ := NoncePool.getElem?_sweep hp'
  obtain rfl : p = p₀ := Option.some.inj (hp.symm.trans hp₀)
  rw [Nat.zero_add]
  have hin := horderly.in_order i p hp
  rcases hin.seated with hseat | ⟨hseat, hnone⟩
  · exact NoncePool.get?_reset_iff hin.tidy.coherent hseat
  · -- A sub-pool that has left its seat holds nothing, and a reset does nothing to it.
    have hsame : (catchUp views new i p c').1 = p := by rw [catchUp, NoncePool.reset, hseat]
    rw [hsame, hnone]
    simp

/-- **After following** everything held is acceptable and not behind its
sender. -/
theorem all_follow {old new : Header} (horderly : c.Orderly) (hrest : c.loop.AtRest old)
    (hne : new.hash ≠ old.hash)
    (hQ : ∀ i tx, (views i).validate tx = .ok () → ¬tx.nonce < (views i).nonce tx.sender → Q tx) :
    (c.follow views [new]).All Q := by
  intro p' hp' hash q hq
  obtain ⟨i, hi⟩ := List.mem_iff_getElem?.mp hp'
  have hlt : i < c.pools.length :=
    length_follow hrest hne ▸ (List.getElem?_eq_some_iff.mp hi).1
  obtain ⟨_, hvalid, hahead⟩ :=
    (get?_follow horderly hrest hne (List.getElem?_eq_getElem hlt) hi).mp hq
  exact hQ i q.tx hvalid hahead

theorem Orderly.follow (h : c.Orderly) (views : Nat → Backend) (heads : List Header) :
    (c.follow views heads).Orderly := by
  -- The news of heads concerns the loop and not the sub-pools.
  have hnotified : (heads.foldl notify c).Orderly := by
    induction heads generalizing c with
    | nil => exact h
    | cons head rest ih => exact ih (c := c.notify head) h
  exact (hnotified.finishReset views).finishReset views

end Coordinator

end TxRelay
