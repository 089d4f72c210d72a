/-
Histories of a set of ordinary transactions.

What becomes of a transaction is told by the moments of a history: the states
after so many of its actions. A filter is begun in the first moment, and by each
call that builds it anew. A transaction that the filter does not report was left
out when it was begun, or overtaken on the bus between two moments; one more
action does not change what happened before, as long as the filter goes on.
-/
import TxRelay.Gossip.PoolSet
import TxRelay.Proofs.Exclusivity

set_option autoImplicit false

namespace TxRelay.PoolSet

/-! ## Histories -/

/-- What happens to a set: what happens to its pool, other announcements on the bus, what other
subscribers do, and calls for the filter (`PoolGossipSet`). -/
inductive Action where
  | pool (action : Coordinator.Action)
  | announce (e : Event)
  | subscribe (topics : List Topic)
  | read (id : Nat)
  | unsubscribe (id : Nat)
  | filter (views : Views)

/-- The bus that the filter is fed from. -/
def bus (s : PoolSet) : Bus := s.pool.commons.bus

/-- The set on another bus. -/
def onBus (s : PoolSet) (bus : Bus) : PoolSet :=
  { s with pool := { s.pool with commons := { s.pool.commons with bus } } }

/-- The set after an action. Nobody else reads its subscription. -/
def act (s : PoolSet) : Action → PoolSet
  | .pool action => { s with pool := s.pool.act action }
  | .announce e => s.onBus (s.bus.publish e).1
  | .subscribe topics => s.onBus (s.bus.subscribe topics).1
  | .read id => if id = s.subscription then s else s.onBus (s.bus.read id).1
  | .unsubscribe id => if id = s.subscription then s else s.onBus (s.bus.drop id)
  | .filter views => (s.sync views).1

/-- The set after several actions. -/
def run (s : PoolSet) (history : List Action) : PoolSet := history.foldl act s

/-- The set after so many actions of a history. -/
def moment (s : PoolSet) (history : List Action) (k : Nat) : PoolSet := s.run (history.take k)

section
variable {s : PoolSet} {history : List Action}

theorem run_concat (s : PoolSet) (history : List Action) (action : Action) :
    s.run (history ++ [action]) = (s.run history).act action := by
  rw [run, List.foldl_append]
  rfl

theorem moment_length (s : PoolSet) (history : List Action) :
    s.moment history history.length = s.run history := by
  rw [moment, List.take_length]

theorem moment_concat {k : Nat} (hk : k ≤ history.length) (action : Action) :
    s.moment (history ++ [action]) k = s.moment history k := by
  rw [moment, List.take_append_of_le_length hk, moment]

theorem moment_concat_length (s : PoolSet) (history : List Action) (action : Action) :
    s.moment (history ++ [action]) (history.length + 1) = (s.run history).act action := by
  rw [← run_concat, ← moment_length, List.length_append, List.length_singleton]

end

/-- **Something is held from a moment on**, and the filter of that moment is still
in use. -/
structure HeldSince (s : PoolSet) (history : List Action) (i : Nat) (hash : Digest) : Prop where
  le : i ≤ history.length
  current : (s.moment history i).filter.resets = (s.run history).filter.resets
  held : ∀ j, i ≤ j → j ≤ history.length → (s.moment history j).pool.has hash = true

/-- A filter is begun at a moment, with what the execution layer answers then. -/
inductive Begun (s : PoolSet) (views : Views) (history : List Action) : Nat → Views → Prop where
  | created : Begun s views history 0 views
  | rebuilt {k : Nat} {views' : Views} (hcall : history[k]? = some (.filter views'))
      (hnew : (s.moment history (k + 1)).filter.resets ≠ (s.moment history k).filter.resets) :
      Begun s views history (k + 1) views'

/-- **A transaction was left out** of the filter: it was held when the filter was
begun and has been ever since, and was not executable then. -/
def LeftOut (s : PoolSet) (views : Views) (history : List Action) (hash : Digest) : Prop :=
  ∃ i views', Begun s views history i views' ∧ HeldSince s history i hash ∧
    hash ∉ ((s.moment history i).pool.executable views').map Transaction.hash

/-- A transaction was let in by an action, and has been held ever since; until
moment `k` nobody asked for the filter. -/
structure LetIn (s : PoolSet) (history : List Action) (i k : Nat) (hash : Digest) : Prop where
  lt : i < k
  quiet : ∀ j, i ≤ j → j < k → ∀ views, history[j]? ≠ some (.filter views)
  absent : ¬(s.moment history i).pool.has hash = true
  since : HeldSince s history (i + 1) hash

/-- **A transaction was overtaken**: from when it was let in until the filter was
asked for next, more was announced than the bus keeps. -/
def Overtaken (s : PoolSet) (history : List Action) (hash : Digest) : Prop :=
  ∃ i k views, history[k]? = some (.filter views) ∧ LetIn s history i k hash ∧
    (s.moment history k).bus.slots < (s.moment history k).bus.sent - (s.moment history i).bus.sent

section
variable {s : PoolSet} {views : Views} {history : List Action} {action : Action} {hash : Digest}
  {i k : Nat}

theorem HeldSince.concat (h : HeldSince s history i hash)
    (hcurrent : ((s.run history).act action).filter.resets = (s.run history).filter.resets)
    (hheld : ((s.run history).act action).pool.has hash = true) :
    HeldSince s (history ++ [action]) i hash where
  le := by
    rw [List.length_append]
    exact Nat.le_add_right_of_le h.le
  current := by
    rw [moment_concat h.le, run_concat, hcurrent]
    exact h.current
  held j hi hj := by
    rw [List.length_append, List.length_singleton] at hj
    rcases Nat.lt_or_eq_of_le hj with hlt | rfl
    · rw [moment_concat (Nat.le_of_lt_succ hlt)]
      exact h.held j hi (Nat.le_of_lt_succ hlt)
    · rw [moment_concat_length]
      exact hheld

/-- Now is a moment, too. -/
theorem HeldSince.now (hheld : ((s.run history).act action).pool.has hash = true) :
    HeldSince s (history ++ [action]) (history.length + 1) hash where
  le := by simp
  current := by rw [moment_concat_length, run_concat]
  held j hi hj := by
    rw [List.length_append, List.length_singleton] at hj
    rw [Nat.le_antisymm hj hi, moment_concat_length]
    exact hheld

theorem Begun.concat {views' : Views} (h : Begun s views history i views') :
    Begun s views (history ++ [action]) i views' := by
  cases h with
  | created => exact .created
  | rebuilt hcall hnew =>
    obtain ⟨hlt, _⟩ := List.getElem?_eq_some_iff.mp hcall
    refine .rebuilt ((List.getElem?_append_left hlt).trans hcall) ?_
    rw [moment_concat hlt, moment_concat (Nat.le_of_lt hlt)]
    exact hnew

theorem LeftOut.concat (h : LeftOut s views history hash)
    (hcurrent : ((s.run history).act action).filter.resets = (s.run history).filter.resets)
    (hheld : ((s.run history).act action).pool.has hash = true) :
    LeftOut s views (history ++ [action]) hash := by
  obtain ⟨i, views', hbegun, hsince, hnot⟩ := h
  refine ⟨i, views', hbegun.concat, hsince.concat hcurrent hheld, ?_⟩
  rw [moment_concat hsince.le]
  exact hnot

theorem LetIn.concat (h : LetIn s history i k hash) (hk : k ≤ history.length)
    (hcurrent : ((s.run history).act action).filter.resets = (s.run history).filter.resets)
    (hheld : ((s.run history).act action).pool.has hash = true) :
    LetIn s (history ++ [action]) i k hash where
  lt := h.lt
  quiet j hi hj views' := by
    rw [List.getElem?_append_left (Nat.lt_of_lt_of_le hj hk)]
    exact h.quiet j hi hj views'
  absent := by
    rw [moment_concat (Nat.le_of_lt (Nat.lt_of_lt_of_le h.lt hk))]
    exact h.absent
  since := h.since.concat hcurrent hheld

/-- Nobody asks for the filter in one more action. -/
theorem LetIn.extend (h : LetIn s history i k hash)
    (hquiet : ∀ views, history[k]? ≠ some (.filter views)) : LetIn s history i (k + 1) hash where
  lt := Nat.lt_succ_of_lt h.lt
  quiet j hi hj := by
    rcases Nat.lt_or_eq_of_le (Nat.le_of_lt_succ hj) with hlt | rfl
    · exact h.quiet j hi hlt
    · exact hquiet
  absent := h.absent
  since := h.since

theorem Overtaken.concat (h : Overtaken s history hash)
    (hcurrent : ((s.run history).act action).filter.resets = (s.run history).filter.resets)
    (hheld : ((s.run history).act action).pool.has hash = true) :
    Overtaken s (history ++ [action]) hash := by
  obtain ⟨i, k, views', hcall, hletIn, hlost⟩ := h
  obtain ⟨hlt, _⟩ := List.getElem?_eq_some_iff.mp hcall
  refine ⟨i, k, views', (List.getElem?_append_left hlt).trans hcall,
    hletIn.concat (Nat.le_of_lt hlt) hcurrent hheld, ?_⟩
  rw [moment_concat (Nat.le_of_lt hlt), moment_concat (Nat.le_of_lt (Nat.lt_trans hletIn.lt hlt))]
  exact hlost

end

end TxRelay.PoolSet
