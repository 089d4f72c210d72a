/-
What is heard of a pool of nonce-ordered sub-pools.

What is done with a pool reaches its bus in three ways only: a sub-pool announces what it
has let in, the coordinator announces the head that every sub-pool has been reset to, and
closing the pool closes the bus. Catching up and leaving are not announced by a sub-pool
itself. Everything that is said of a pool's bus rests on this list.

What is announced as this node's own was offered through its own interface and let in.
-/
import TxRelay.Proofs.Backlog
import TxRelay.Proofs.Batch
import TxRelay.Proofs.Dismissal
import TxRelay.Proofs.Exclusivity

set_option autoImplicit false

namespace TxRelay

/-- Who makes no announcements leaves the bus alone. -/
theorem NoncePool.bus_sweep {op : Nat → NoncePool → Commons → NoncePool × Commons}
    (hop : ∀ i p c, (op i p c).2.bus = c.bus) (k : Nat) (c : Commons) (pools : List NoncePool) :
    (sweep op k c pools).2.bus = c.bus := by
  induction pools generalizing k c with
  | nil => rfl
  | cons p rest ih => exact (ih (k + 1) (op k p c).2).trans (hop k p c)

namespace Coordinator

/-- Catching up is not announced by a sub-pool itself. -/
theorem bus_catchUp (views : Nat → Backend) (new : Header) (i : Nat) (p : NoncePool) (c : Commons) :
    (catchUp views new i p c).2.bus = c.bus := by
  rw [catchUp, NoncePool.reset]
  cases p.seat <;> rfl

/-- Leaving is not announced. -/
theorem bus_leave (i : Nat) (p : NoncePool) (c : Commons) : (leave i p c).2.bus = c.bus := by
  rw [leave, NoncePool.detach]
  cases p.seat <;> rfl

/-! ## What is heard of an action -/

/-- An announcement of new transactions. -/
def announcing (isLocal : Bool) (new : List Transaction) : Bus.Action := .publish (.transactions new isLocal)

section
variable (c : Coordinator NoncePool)

/-- What is heard when a reset under way is finished: the head, if no sub-pool breaks off. -/
def heardOfReset (views : Nat → Backend) : List Bus.Action :=
  match c.loop.running with
  | none => []
  | some (old, new) =>
    if (resetFrom views old new 0 c.commons c.pools).2.2.1 then [.publish (.reorg new)] else []

/-- What an offer to one sub-pool lets in. -/
def taken (pool : Nat) (b : Backend) (txs : List Transaction) (isLocal : Bool) : List Transaction :=
  match c.pools[pool]? with
  | none => []
  | some p => admitted txs (p.add b c.commons txs isLocal).2.2

/-- **What is heard of an action** on the bus. -/
def heardOf : Action → List Bus.Action
  | .add views txs isLocal sync =>
    (news c.pools txs (c.add views txs isLocal sync).2).map (announcing isLocal)
  | .notify _ => []
  | .finishReset views => c.heardOfReset views
  | .close views =>
    if c.closed then []
    else ({ c with loop := c.loop.step .stop } : Coordinator NoncePool).heardOfReset views ++ [.close]
  | .offer pool b txs isLocal =>
    let new := c.taken pool b txs isLocal
    if new.isEmpty then [] else [announcing isLocal new]
  | .reset _ _ _ => []
  | .leave _ => []

/-- The transactions that an action lets in through this node's own interface. -/
def own : Action → List Transaction
  | .add views txs true sync => admitted txs (c.add views txs true sync).2
  | .offer pool b txs true => c.taken pool b txs true
  | _ => []

end

section
variable {c : Coordinator NoncePool} {op : Nat → NoncePool → Commons → NoncePool × Commons}

/-- A pool starts with a fresh bus, and open. -/
theorem start_fresh {head : Header} {pools : List NoncePool} (hstart : start head pools = .running c) :
    c.commons.bus = Bus.new Bus.standardCapacity ∧ c.closed = false := by
  rw [start] at hstart
  generalize attachFrom head 0 pools = attached at hstart
  obtain ⟨seated, outcome⟩ := attached
  cases outcome with
  | ok =>
    rw [← Started.running.inj hstart]
    exact ⟨rfl, rfl⟩
  | error e => cases hstart

theorem run_map_announcing (isLocal : Bool) (b : Bus) (news : List (List Transaction)) :
    b.run (news.map (announcing isLocal)) = announceAll isLocal b news :=
  List.foldl_map

theorem bus_finishReset (c : Coordinator NoncePool) (views : Nat → Backend) :
    (c.finishReset views).commons.bus = c.commons.bus.run (c.heardOfReset views) := by
  rw [finishReset, heardOfReset]
  cases c.loop.running with
  | none => rfl
  | some heads =>
    have hbus := NoncePool.bus_sweep (bus_catchUp views heads.2) 0 c.commons c.pools
    rw [← resetFrom_eq_sweep views heads.1 heads.2] at hbus
    dsimp only
    split
    · exact congrArg (fun bus : Bus => (bus.publish (.reorg heads.2)).1) hbus
    · exact hbus

/-- The bus is closed before the first sub-pool leaves, and leaving changes nothing
about it. -/
theorem bus_close (hopen : c.closed = false) (views : Nat → Backend) :
    (c.close views).1.commons.bus = (c.windUp views).commons.bus.close := by
  have hbus := NoncePool.bus_sweep bus_leave 0 (c.windUp views).silenced (c.windUp views).pools
  rw [← detachAll_eq_sweep] at hbus
  rw [close_of_open hopen]
  exact hbus

/-- What one sub-pool does alone without announcing anything is not heard. -/
theorem bus_alone (hop : ∀ i p c, (op i p c).2.bus = c.bus) (pool : Nat) :
    (c.alone pool op).commons.bus = c.commons.bus := by
  rw [alone]
  cases c.pools[pool]? with
  | none => rfl
  | some p => exact hop pool p c.commons

theorem bus_offer (c : Coordinator NoncePool) (pool : Nat) (b : Backend) (txs : List Transaction)
    (isLocal : Bool) :
    (c.act (.offer pool b txs isLocal)).commons.bus
      = c.commons.bus.run (c.heardOf (.offer pool b txs isLocal)) := by
  rw [act, alone, heardOf, taken]
  cases c.pools[pool]? with
  | none => rfl
  | some p =>
    obtain ⟨_, _, hbus⟩ := p.add_answers b c.commons txs isLocal
    dsimp only
    rw [takeIn]
    cases txs with
    | nil => rfl
    | cons tx rest =>
      rw [if_neg (by simp)]
      refine hbus.trans ?_
      by_cases hnone : (admitted (tx :: rest) (p.add b c.commons (tx :: rest) isLocal).2.2).isEmpty = true
      · rw [if_pos hnone]
        exact if_pos hnone
      · rw [if_neg hnone]
        exact if_neg hnone

/-- **Whatever happens to a pool** happens to its bus by what is heard of it. -/
theorem bus_act (c : Coordinator NoncePool) (action : Action) :
    (c.act action).commons.bus = c.commons.bus.run (c.heardOf action) := by
  cases action with
  | add views txs isLocal sync =>
    rw [heardOf, run_map_announcing]
    exact (add_announced c views txs isLocal sync).bus_eq
  | notify head => rfl
  | finishReset views => exact bus_finishReset c views
  | close views =>
    rw [heardOf]
    cases hclosed : c.closed with
    | true =>
      rw [act, close_of_closed hclosed]
      rfl
    | false =>
      rw [act, bus_close hclosed, windUp, bus_finishReset, if_neg Bool.false_ne_true, Bus.run_append]
      rfl
  | offer pool b txs isLocal => exact bus_offer c pool b txs isLocal
  | reset pool b new => exact bus_alone (bus_catchUp _ new) pool
  | leave pool => exact bus_alone bus_leave pool

/-! ## What is announced as this node's own -/

theorem not_mem_heardOfReset {views : Nat → Backend} {new : List Transaction} {isLocal : Bool} :
    announcing isLocal new ∉ c.heardOfReset views := by
  rw [heardOfReset, announcing]
  split
  · simp
  · split
    · simp
    · simp

/-- **What is announced as this node's own** was let in as such. -/
theorem own_of_heardOf {action : Action} {new : List Transaction} (hnew : announcing true new ∈ c.heardOf action)
    {tx : Transaction} (htx : tx ∈ new) : tx ∈ c.own action := by
  cases action with
  | add views txs isLocal sync =>
    obtain ⟨new', hmem, heq⟩ := List.mem_map.mp hnew
    obtain ⟨rfl, rfl⟩ : new' = new ∧ isLocal = true := by simpa [announcing] using heq
    exact (add_announced c views txs true sync).perm.subset (List.mem_flatten_of_mem hmem htx)
  | finishReset views => exact absurd hnew not_mem_heardOfReset
  | close views =>
    rw [heardOf] at hnew
    split at hnew
    · cases hnew
    · rcases List.mem_append.mp hnew with hreset | hclose
      · exact absurd hreset not_mem_heardOfReset
      · simp [announcing] at hclose
  | offer pool b txs isLocal =>
    rw [heardOf] at hnew
    split at hnew
    · cases hnew
    · obtain ⟨rfl, rfl⟩ : new = c.taken pool b txs isLocal ∧ true = isLocal := by
        simpa [announcing] using hnew
      exact htx
  | _ => cases hnew

end

end Coordinator

end TxRelay
