/-
A reset in one go.

The coordinator carries out a reset, and closes, in one go. Taken apart into the
steps of a pursuit, one after the other and with nothing in between, this comes
to the same: what is proved of all runs is proved of it.
-/
import TxRelay.Proofs.Tracking

set_option autoImplicit false

namespace TxRelay

namespace Pursuit

variable {σ : Type}

/-! ## Steps in a row

A reset in one go, and the end of a coordinator in one go, are runs of steps. -/

theorem complete_eq {s : Pursuit σ} {old new : Header} (hconcluded : s.concluded = false)
    (hrun : s.pool.loop.running = some (old, new)) (hall : s.reached = s.pool.pools.length) :
    s.complete = s.announce old new := by
  rw [complete, hconcluded, hrun]
  exact if_neg (Nat.not_lt.mpr (Nat.le_of_eq hall.symm))

/-- A head that arrives is what the coordinator is told. -/
theorem pool_hear (s : Pursuit σ) (new : Header) : (s.hear new).pool = s.pool.notify new := by
  rw [hear]
  split
  · next hstopping =>
    show s.pool = withLoop s.pool (s.pool.loop.step (.head new))
    rw [ResetLoop.step, if_pos hstopping]
    rfl
  · rfl

/-- A loop that has ended does not look at a head. -/
theorem notify_of_ended {c : Coordinator σ} (hended : c.loop.ended = true) (new : Header) :
    c.notify new = c := by
  show withLoop c (c.loop.step (.head new)) = c
  rw [ResetLoop.step, if_pos (ended_iff.mp hended).1]
  rfl

section
variable [SubPool σ] {s : Pursuit σ} (views : Nat → Backend)

/-- The reset under way goes on to so many sub-pools from a given one on. -/
def sweeps (k n : Nat) : List (Move σ) := (List.range' k n).map fun i => .sweep (views i)

/-- The reset under way is carried out. -/
def carryOut (n : Nat) : List (Move σ) := sweeps views 0 n ++ [.complete, .done]

/-- If there is nothing to go on with, nothing changes. -/
theorem run_sweeps_of_same (hsame : ∀ b, s.sweep b = s) (k n : Nat) :
    s.run (sweeps views k n) = s := by
  induction n generalizing k with
  | zero => rfl
  | succ n ih =>
    show (s.sweep (views k)).run (sweeps views (k + 1) n) = s
    rw [hsame]
    exact ih (k + 1)

theorem sweep_of_concluded (hconcluded : s.concluded = true) (b : Backend) : s.sweep b = s := by
  rw [sweep, hconcluded]

theorem sweep_of_idle (hidle : s.pool.loop.running = none) (b : Backend) : s.sweep b = s := by
  rw [sweep, hidle]
  cases s.concluded <;> rfl

/-- Sub-pools that are reset stay. -/
theorem length_resetFrom (old new : Header) (k : Nat) (c : Commons) (pools : List σ) :
    (Coordinator.resetFrom views old new k c pools).1.length = pools.length := by
  induction pools generalizing k c with
  | nil => rfl
  | cons p rest ih =>
    rw [Coordinator.resetFrom]
    split
    · rfl
    · exact congrArg (· + 1) (ih _ _)

/-- A reset that is not whole has called the sub-pool that broke off. -/
theorem calls_ne_nil_of_broken {old new : Header} {k : Nat} {c commons : Commons} {pools after : List σ}
    {calls : List PoolCall}
    (hreset : Coordinator.resetFrom views old new k c pools = (after, commons, false, calls)) :
    calls ≠ [] := by
  cases pools with
  | nil => cases hreset
  | cons p rest =>
    rw [Coordinator.resetFrom] at hreset
    split at hreset
    · cases hreset
      exact List.cons_ne_nil _ _
    · simp only [Prod.mk.injEq] at hreset
      obtain ⟨_, _, _, rfl⟩ := hreset
      exact List.cons_ne_nil _ _

/-- The sub-pools that have been reset, from a given one on: all that were called, except for
the one that broke off if the reset is not whole. -/
def swept (old new : Header) (k : Nat) (calls : List PoolCall) (whole : Bool) : List ResetEvent :=
  (List.range' k (if whole then calls.length else calls.length - 1)).map (.swept · old new)

theorem swept_cons (old new : Header) (k : Nat) (call : PoolCall) {calls : List PoolCall} {whole : Bool}
    (hbroken : whole = false → calls ≠ []) :
    swept old new k (call :: calls) whole = .swept k old new :: swept old new (k + 1) calls whole := by
  have hcount : (if whole then (call :: calls).length else (call :: calls).length - 1)
      = (if whole then calls.length else calls.length - 1) + 1 := by
    cases whole with
    | true => rfl
    | false =>
      have hpos := List.length_pos_iff.mpr (hbroken rfl)
      simp
      omega
  rw [swept, hcount, List.range'_succ]
  rfl

/-- **Sub-pool by sub-pool** the reset under way does what it does in one go. -/
theorem run_sweeps {old new : Header} {before rest after : List σ} {commons : Commons} {whole : Bool}
    {calls : List PoolCall} (hpools : s.pool.pools = before ++ rest)
    (hreached : s.reached = before.length) (hconcluded : s.concluded = false)
    (hrun : s.pool.loop.running = some (old, new))
    (hreset : Coordinator.resetFrom views old new before.length s.pool.commons rest
      = (after, commons, whole, calls)) :
    ∃ reached, s.run (sweeps views before.length rest.length) =
        (let pool := s.pool
         { s with
           pool := { pool with pools := before ++ after, commons, journal := pool.journal ++ calls }
           reached, concluded := !whole
           log := s.log ++ swept old new before.length calls whole ++
             if whole then [] else [.concluded old new false] }) ∧
      (whole = true → reached = before.length + rest.length) := by
  -- The state in between is again one where the sub-pools up to some point have been reset.
  induction rest generalizing s before after calls with
  | nil =>
    obtain ⟨⟨pools, commons', head, resets, loop, closed, journal⟩, reached, concluded, awaited, told,
      log⟩ := s
    cases hreset
    obtain rfl : pools = before ++ [] := hpools
    obtain rfl : concluded = false := hconcluded
    exact ⟨reached, by simp [sweeps, swept], fun _ => hreached⟩
  | cons p rest ih =>
    have hp : s.pool.pools[s.reached]? = some p := by
      rw [hpools, hreached]
      simp
    have hstep : s.run (sweeps views before.length (p :: rest).length)
        = (s.sweep (views before.length)).run (sweeps views (before.length + 1) rest.length) := rfl
    rw [hstep, sweep, hconcluded, hrun, hp]
    rw [Coordinator.resetFrom] at hreset
    dsimp only
    cases hbreak : SubPool.reset p (views before.length) s.pool.commons old new with
    | none =>
      rw [hbreak] at hreset
      cases hreset
      dsimp only
      rw [run_sweeps_of_same _ (sweep_of_concluded rfl), broken, hpools, hreached]
      exact ⟨before.length, by simp [swept], fun hwhole => by cases hwhole⟩
    | some r =>
      obtain ⟨p', commons'⟩ := r
      rw [hbreak] at hreset
      dsimp only at hreset ⊢
      generalize hlater : Coordinator.resetFrom views old new (before.length + 1) commons' rest = later
        at hreset
      obtain ⟨after', commons'', whole', calls'⟩ := later
      cases hreset
      have hlog : s.log ++ swept old new before.length (.reset before.length old new :: calls') whole'
          = s.log ++ [.swept before.length old new] ++ swept old new (before.length + 1) calls' whole' := by
        rw [swept_cons, List.append_assoc, List.singleton_append]
        rintro rfl
        exact calls_ne_nil_of_broken views hlater
      rw [hlog]
      have hlen : (before ++ [p']).length = before.length + 1 := List.length_append
      have hset : s.pool.pools.set s.reached p' = before ++ [p'] ++ rest := by
        rw [hpools, hreached]
        simp
      rw [← hlen] at hlater ⊢
      obtain ⟨reached, heq, hreached'⟩ := ih (s := s.passed old new p' commons') hset
        ((congrArg (· + 1) hreached).trans hlen.symm) hconcluded hrun hlater
      refine ⟨reached, ?_, fun hwhole => ?_⟩
      · rw [heq]
        simp [passed, hreached]
      · rw [hreached' hwhole, hlen, List.length_cons]
        omega

/-- **What happens when the reset under way is carried out in one go**: the sub-pools are reset
in their order, up to the one that breaks off if one does, the reset is over, and the loop learns of it
and may start another one. -/
def carriedOut (c : Coordinator σ) : List ResetEvent :=
  match c.loop.running with
  | none => []
  | some (old, new) =>
    let (_, _, whole, calls) := Coordinator.resetFrom views old new 0 c.commons c.pools
    swept old new 0 calls whole ++ [.concluded old new whole, .ended] ++ begun (c.loop.step .done)

/-- **A reset in one go** is the reset of the coordinator. -/
theorem run_carryOut (hreached : s.reached = 0) (hconcluded : s.concluded = false) :
    s.run (carryOut views s.pool.pools.length)
      = { s with pool := s.pool.finishReset views, log := s.log ++ carriedOut views s.pool } := by
  rw [carryOut, run_append, Coordinator.finishReset, carriedOut]
  cases hrun : s.pool.loop.running with
  | none =>
    rw [run_sweeps_of_same _ (sweep_of_idle hrun)]
    have hsame : s.complete.done = s := by
      rw [complete, hconcluded, hrun]
      dsimp only
      rw [done, hconcluded]
      rfl
    show s.complete.done = _
    rw [hsame, List.append_nil]
  | some target =>
    obtain ⟨old, new⟩ := target
    dsimp only
    have hlen := length_resetFrom views old new 0 s.pool.commons s.pool.pools
    generalize hreset : Coordinator.resetFrom views old new 0 s.pool.commons s.pool.pools = r at hlen ⊢
    obtain ⟨after, commons, whole, calls⟩ := r
    have hpools : s.pool.pools = [] ++ s.pool.pools := rfl
    obtain ⟨reached, heq, hall⟩ := run_sweeps views hpools hreached hconcluded hrun hreset
    rw [List.length_nil] at heq
    generalize s.run (sweeps views 0 s.pool.pools.length) = t at heq
    show t.complete.done = _
    cases whole with
    | true =>
      have hthrough : t.reached = t.pool.pools.length := by
        rw [heq]
        exact (hall rfl).trans ((Nat.zero_add _).trans hlen.symm)
      rw [complete_eq (by rw [heq]; rfl) (by rw [heq]; exact hrun) hthrough, heq, hreached, hconcluded]
      simp [announce, done, withLoop]
    | false =>
      rw [heq, hreached, hconcluded]
      simp [complete, done, withLoop]

/-- A loop that was asked to stop has ended when the reset under way has. -/
theorem ended_finishReset {c : Coordinator σ} (hstopping : c.loop.stopping = true) :
    (c.finishReset views).loop.ended = true := by
  rw [Coordinator.finishReset]
  cases hrun : c.loop.running with
  | none => exact ended_iff.mpr ⟨hstopping, hrun⟩
  | some target =>
    have hdone : (c.loop.step .done).ended = true := by
      rw [step_done hrun, ResetLoop.launch, if_neg (by simp [landed, hstopping])]
      exact ended_iff.mpr ⟨hstopping, rfl⟩
    dsimp only
    split
    · exact hdone
    · exact hdone

theorem closed_finishReset (c : Coordinator σ) : (c.finishReset views).closed = c.closed := by
  rw [Coordinator.finishReset]
  split
  · rfl
  · dsimp only
    split
    · rfl
    · rfl

theorem ended_close {c : Coordinator σ} (hopen : c.closed = false) :
    (c.close views).1.loop.ended = true := by
  rw [Coordinator.close, if_neg (by rw [hopen]; exact Bool.false_ne_true)]
  exact ended_finishReset views rfl

/-- Where the loop has ended there is no reset to carry out. -/
theorem finishReset_of_ended {c : Coordinator σ} (hended : c.loop.ended = true) :
    c.finishReset views = c := by
  rw [Coordinator.finishReset, (ended_iff.mp hended).2]

/-- Closing goes on from where the loop has ended. -/
theorem close_finishReset {c : Coordinator σ} (hopen : c.closed = false) :
    (((withLoop c (c.loop.step .stop)).finishReset views).close views).1 = (c.close views).1 := by
  have hstill : ((withLoop c (c.loop.step .stop)).finishReset views).closed = false :=
    (closed_finishReset views _).trans hopen
  rw [Coordinator.close, if_neg (by rw [hstill]; exact Bool.false_ne_true),
    finishReset_stop (ended_finishReset views rfl), Coordinator.close,
    if_neg (by rw [hopen]; exact Bool.false_ne_true)]
  rfl

/-- **The end in one go** is the end of the coordinator. -/
theorem pool_shutDown (hreached : s.reached = 0) (hconcluded : s.concluded = false)
    (hgoing : s.pool.loop.stopping = false) (huntold : s.told = false)
    (hopen : s.pool.closed = false) :
    (s.run (.stop true :: carryOut views s.pool.pools.length ++ [.acknowledge, .close views])).pool
      = (s.pool.close views).1 := by
  have hstop : s.stop true = s.halted true := if_neg (by rw [hgoing]; exact Bool.false_ne_true)
  have hcarry := run_carryOut (s := s.halted true) views hreached hconcluded
  have hended : ((s.halted true).pool.finishReset views).loop.ended = true :=
    ended_finishReset views rfl
  have hstill : ((s.halted true).pool.finishReset views).closed = false :=
    (closed_finishReset views _).trans hopen
  rw [run_append]
  show (((s.stop true).run (carryOut views s.pool.pools.length)).acknowledge.close views).pool = _
  rw [hstop]
  show (((s.halted true).run (carryOut views (s.halted true).pool.pools.length)).acknowledge.close
    views).pool = _
  rw [hcarry, acknowledge, if_pos (by rw [hended]; simp [huntold, halted]), Pursuit.close,
    if_pos (by simp [hstill])]
  exact close_finishReset views hopen

end

end Pursuit

end TxRelay
