/-
The end of a pool, whatever its sub-pools are.

Closing waits for the reset under way, closes the bus, and then goes through the
sub-pools once, in order, and asks each of them to leave its seat, whatever those
before it said. What they complain of is put together and reported. A pool that is
closed is not closed again.
-/
import TxRelay.Proofs.CarriedOut

set_option autoImplicit false

namespace TxRelay

/-! ## Sub-pools that are told to leave -/

/-- The errors among outcomes, in order. -/
def complaints (outcomes : List Outcome) : List PoolError :=
  outcomes.filterMap fun
    | .ok () => none
    | .error e => some e

theorem complaints_cons (r : Outcome) (rest : List Outcome) :
    complaints (r :: rest) = complaints [r] ++ complaints rest :=
  List.filterMap_append (l := [r])

/-- What a pool says of its end: nothing, or what its sub-pools complained of. -/
def farewell : List PoolError → Outcome
  | [] => .ok ()
  | e :: rest => .error (.detachFailed (e :: rest))

namespace Coordinator

section
variable {σ : Type} [SubPool σ]

/-- **Sub-pools are told to leave, one after the other**, each of them once, whatever
those before it said. -/
structure Dismissed (c : Commons) (pools : List σ) (c' : Commons) (pools' : List σ)
    (between : Nat → Commons) (said : Nat → Outcome) : Prop where
  begins : between 0 = c
  ends : between pools.length = c'
  length_eq : pools'.length = pools.length
  told : ∀ k p, pools[k]? = some p → ∃ p', pools'[k]? = some p' ∧
    SubPool.detach p (between k) = (p', between (k + 1), said k)

theorem detachAll_cons (c : Commons) (p : σ) (rest : List σ) :
    detachAll c (p :: rest) =
      ((SubPool.detach p c).1 :: (detachAll (SubPool.detach p c).2.1 rest).1,
        (detachAll (SubPool.detach p c).2.1 rest).2.1,
        complaints [(SubPool.detach p c).2.2] ++ (detachAll (SubPool.detach p c).2.1 rest).2.2) := by
  rw [detachAll]
  generalize SubPool.detach p c = told
  obtain ⟨p', c', r⟩ := told
  cases r with
  | ok => rfl
  | error e => rfl

theorem detachAll_dismissed (c : Commons) (pools : List σ) :
    ∃ between said, Dismissed c pools (detachAll c pools).2.1 (detachAll c pools).1 between said ∧
      (detachAll c pools).2.2 = complaints ((List.range pools.length).map said) := by
  induction pools generalizing c with
  | nil => exact ⟨fun _ => c, fun _ => .ok (), ⟨rfl, rfl, rfl, nofun⟩, rfl⟩
  | cons p rest ih =>
    obtain ⟨between, said, h, herrors⟩ := ih (SubPool.detach p c).2.1
    rw [detachAll_cons]
    refine ⟨fun | 0 => c | k + 1 => between k, fun | 0 => (SubPool.detach p c).2.2 | k + 1 => said k,
      ⟨rfl, h.ends, congrArg (· + 1) h.length_eq, fun k q hq => ?_⟩, ?_⟩
    · cases k with
      | zero =>
        rw [← Option.some.inj hq]
        refine ⟨(SubPool.detach p c).1, rfl, ?_⟩
        dsimp only
        rw [h.begins]
      | succ k => exact h.told k q hq
    · dsimp only
      rw [herrors, List.length_cons, List.range_succ_eq_map, List.map_cons, List.map_map]
      exact (complaints_cons _ _).symm

/-! ## The end, whatever the sub-pools are -/

/-- The sub-pools that were told to leave, in order. -/
def leavings (journal : List PoolCall) : List Nat :=
  journal.filterMap fun
    | .detach k => some k
    | _ => none

theorem leavings_append (journal journal' : List PoolCall) :
    leavings (journal ++ journal') = leavings journal ++ leavings journal' :=
  List.filterMap_append

theorem leavings_map_detach (indices : List Nat) : leavings (indices.map .detach) = indices := by
  rw [leavings, List.filterMap_map]
  exact List.filterMap_some

/-- A reset tells nobody to leave. -/
theorem leavings_resetFrom (views : Nat → Backend) (old new : Header) (i : Nat) (c : Commons)
    (pools : List σ) : leavings (resetFrom views old new i c pools).2.2.2 = [] := by
  induction pools generalizing i c with
  | nil => rfl
  | cons p rest ih =>
    rw [resetFrom]
    split
    · rfl
    · exact ih (i + 1) _

theorem finishReset_leavings (c : Coordinator σ) (views : Nat → Backend) :
    (c.finishReset views).pools.length = c.pools.length ∧
      leavings (c.finishReset views).journal = leavings c.journal := by
  rw [finishReset]
  cases c.loop.running with
  | none => exact ⟨rfl, rfl⟩
  | some heads =>
    have hlength := Pursuit.length_resetFrom views heads.1 heads.2 0 c.commons c.pools
    have hjournal : leavings (c.journal ++ (resetFrom views heads.1 heads.2 0 c.commons c.pools).2.2.2)
        = leavings c.journal := by
      rw [leavings_append, leavings_resetFrom, List.append_nil]
    dsimp only
    split
    · exact ⟨hlength, hjournal⟩
    · exact ⟨hlength, hjournal⟩

/-- A pool whose loop is asked to stop finishes the reset under way. -/
def windUp (c : Coordinator σ) (views : Nat → Backend) : Coordinator σ :=
  ({ c with loop := c.loop.step .stop } : Coordinator σ).finishReset views

/-- What a pool shares when its sub-pools are told to leave: the bus is closed. -/
def silenced (c : Coordinator σ) : Commons := { c.commons with bus := c.commons.bus.close }

theorem close_of_open {c : Coordinator σ} (hopen : c.closed = false) (views : Nat → Backend) :
    c.close views =
      ({ c.windUp views with
          pools := (detachAll (c.windUp views).silenced (c.windUp views).pools).1
          commons := (detachAll (c.windUp views).silenced (c.windUp views).pools).2.1
          closed := true
          journal := (c.windUp views).journal ++
            (List.range (c.windUp views).pools.length).map .detach },
        farewell (detachAll (c.windUp views).silenced (c.windUp views).pools).2.2) := by
  rw [close, if_neg (by rw [hopen]; exact Bool.false_ne_true), ← windUp, silenced]
  dsimp only
  generalize detachAll ({ (c.windUp views).commons with bus := (c.windUp views).commons.bus.close })
    (c.windUp views).pools = told
  obtain ⟨pools, commons, errors⟩ := told
  cases errors with
  | nil => rfl
  | cons e rest => rfl

theorem close_of_closed {c : Coordinator σ} (hclosed : c.closed = true) (views : Nat → Backend) :
    c.close views = (c, .ok ()) := by
  rw [close, if_pos hclosed]

/-- **How a pool is closed** that was open, whatever its sub-pools are
(`PoolCoordinator::close`). -/
structure Disbanded (c : Coordinator σ) (views : Nat → Backend) (c' : Coordinator σ) (outcome : Outcome)
    (between : Nat → Commons) (said : Nat → Outcome) : Prop where
  /-- The reset under way is over and the bus is closed; then each sub-pool is told
  to leave, once and in order, whatever those before it said. -/
  dismissed : Dismissed (c.windUp views).silenced (c.windUp views).pools c'.commons c'.pools between said
  length_eq : c'.pools.length = c.pools.length
  leavings_eq : leavings c'.journal = leavings c.journal ++ List.range c.pools.length
  /-- What is reported is what the sub-pools complained of, in order. -/
  outcome_eq : outcome = farewell (complaints ((List.range c.pools.length).map said))
  /-- Closing again changes nothing. -/
  again : ∀ views', c'.close views' = (c', .ok ())

theorem close_disbanded {c : Coordinator σ} (hopen : c.closed = false) (views : Nat → Backend) :
    ∃ between said, Disbanded c views (c.close views).1 (c.close views).2 between said := by
  obtain ⟨between, said, hdismissed, herrors⟩ :=
    detachAll_dismissed (c.windUp views).silenced (c.windUp views).pools
  obtain ⟨hlength, hleavings⟩ :=
    finishReset_leavings { c with loop := c.loop.step .stop } views
  refine ⟨between, said, ?_⟩
  rw [close_of_open hopen]
  exact {
    dismissed := hdismissed
    length_eq := hdismissed.length_eq.trans hlength
    leavings_eq := by
      show leavings ((c.windUp views).journal ++ _) = _
      rw [leavings_append, leavings_map_detach, windUp, hleavings, hlength]
    outcome_eq := by
      show farewell _ = _
      rw [herrors, windUp, hlength]
    again := close_of_closed rfl }

end

end Coordinator

end TxRelay
