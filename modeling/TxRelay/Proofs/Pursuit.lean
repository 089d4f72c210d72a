/-
A coordinator that follows the chain, one step at a time.

A reset is not one step: it goes from sub-pool to sub-pool, the new head is
announced after the last of them, and the loop learns of the end later still.
Heads arrive in between, the loop may be asked to stop, other calls change the
sub-pools. Here each of these is a step of its own, in any order, and what
happens is written down; what one step keeps then holds of every run. The steps
of a reset, taken in a row, are the reset that the coordinator carries out.
-/
import TxRelay.Pool.Coordinator

set_option autoImplicit false

namespace TxRelay

/-- Something that happens while a coordinator follows the chain (`ResetLoop`). -/
inductive ResetEvent where
  /-- The loop received a head. -/
  | heard (head : Header)
  /-- The loop started a reset. -/
  | started (old new : Header)
  /-- A sub-pool was reset. -/
  | swept (pool : Nat) (old new : Header)
  /-- A reset is over. Its head was announced if it is whole, that is, if no
  sub-pool broke off. -/
  | concluded (old new : Header) (whole : Bool)
  /-- The loop learnt that the reset under way is over. -/
  | ended
  /-- The loop took the request to stop, and someone waits for its end or not. -/
  | stopped (asked : Bool)
  /-- Whoever waits was told that the loop has ended. -/
  | acknowledged
  /-- The coordinator is closed. -/
  | closed
deriving DecidableEq

/-- A coordinator that follows the chain (`PoolCoordinator` with its `ResetLoop`). -/
structure Pursuit (σ : Type) where
  pool : Coordinator σ
  /-- How many sub-pools have been reset in the reset under way. -/
  reached : Nat
  /-- Whether the reset under way is over. -/
  concluded : Bool
  /-- Whether someone waits for the end of the loop. -/
  awaited : Bool
  /-- Whether whoever waits was told that the loop has ended. -/
  told : Bool
  /-- What happened, oldest first. -/
  log : List ResetEvent

namespace Pursuit

/-! ## What happened -/

section
variable (log : List ResetEvent)

/-- The heads that the loop received. -/
def heads : List Header :=
  log.filterMap fun
    | .heard h => some h
    | _ => none

/-- The resets that were started: from which head to which. -/
def resets : List (Header × Header) :=
  log.filterMap fun
    | .started old new => some (old, new)
    | _ => none

/-- The resets of a sub-pool. -/
def seen (pool : Nat) : List (Header × Header) :=
  log.filterMap fun
    | .swept p old new => if p = pool then some (old, new) else none
    | _ => none

/-- The resets that are over, and whether they are whole. -/
def outcomes : List ((Header × Header) × Bool) :=
  log.filterMap fun
    | .concluded old new whole => some ((old, new), whole)
    | _ => none

/-- The heads that were announced. -/
def announced : List Header := ((outcomes log).filter Prod.snd).map fun o => o.1.2

/-- How many resets have ended for the loop. -/
def ends : Nat := log.count .ended

/-- The resets that have ended for the loop. -/
def finished : List (Header × Header) := (resets log).take (ends log)

/-- The reset that has been started and has not ended for the loop. -/
def underWay? : Option (Header × Header) := (resets log)[ends log]?

/-- The loop was asked to stop. -/
def Stopped : Prop := ∃ asked, ResetEvent.stopped asked ∈ log

/-- At most one reset has not ended. -/
structure Paced : Prop where
  ends_le : ends log ≤ (resets log).length
  length_le : (resets log).length ≤ ends log + 1

/-- No sub-pool broke off. -/
def Unbroken : Prop := ∀ o ∈ outcomes log, o.2 = true

instance : Decidable (Unbroken log) := inferInstanceAs (Decidable (∀ o ∈ outcomes log, o.2 = true))

end

/-- Where resets from a head lead. -/
def destination (head : Header) (resets : List (Header × Header)) : Header :=
  (resets.map Prod.snd).getLastD head

section
variable (a b log : List ResetEvent) (d : ResetEvent)

@[simp] theorem heads_nil : heads [] = [] := rfl

@[simp] theorem resets_nil : resets [] = [] := rfl

@[simp] theorem seen_nil (pool : Nat) : seen [] pool = [] := rfl

@[simp] theorem outcomes_nil : outcomes [] = [] := rfl

@[simp] theorem ends_nil : ends [] = 0 := rfl

@[simp] theorem heads_append : heads (a ++ b) = heads a ++ heads b := List.filterMap_append

@[simp] theorem resets_append : resets (a ++ b) = resets a ++ resets b := List.filterMap_append

@[simp] theorem seen_append (pool : Nat) : seen (a ++ b) pool = seen a pool ++ seen b pool :=
  List.filterMap_append

@[simp] theorem outcomes_append : outcomes (a ++ b) = outcomes a ++ outcomes b :=
  List.filterMap_append

@[simp] theorem ends_append : ends (a ++ b) = ends a + ends b := List.count_append

@[simp] theorem announced_append : announced (a ++ b) = announced a ++ announced b := by
  rw [announced, outcomes_append, List.filter_append, List.map_append]
  rfl

@[simp] theorem heads_cons : heads (d :: log) =
    match d with
    | .heard h => h :: heads log
    | _ => heads log := by
  cases d <;> rfl

@[simp] theorem resets_cons : resets (d :: log) =
    match d with
    | .started old new => (old, new) :: resets log
    | _ => resets log := by
  cases d <;> rfl

@[simp] theorem seen_cons (pool : Nat) : seen (d :: log) pool =
    match d with
    | .swept p old new => if p = pool then (old, new) :: seen log pool else seen log pool
    | _ => seen log pool := by
  cases d with
  | swept p old new =>
    rw [seen, List.filterMap_cons]
    by_cases h : p = pool
    · simp [h, seen]
    · simp [h, seen]
  | _ => rfl

@[simp] theorem outcomes_cons : outcomes (d :: log) =
    match d with
    | .concluded old new whole => ((old, new), whole) :: outcomes log
    | _ => outcomes log := by
  cases d <;> rfl

@[simp] theorem ends_cons : ends (d :: log) =
    match d with
    | .ended => ends log + 1
    | _ => ends log := by
  cases d <;> simp [ends]

end

section
variable {log : List ResetEvent} {p : Header × Header}

theorem finished_eq_resets (h : underWay? log = none) : finished log = resets log :=
  List.take_of_length_le (List.getElem?_eq_none_iff.mp h)

theorem Paced.length_finished (h : Paced log) : (finished log).length = ends log :=
  (List.length_take).trans (Nat.min_eq_left h.ends_le)

/-- The reset that has not ended comes after those that have. -/
theorem Paced.resets_eq (h : Paced log) (hrun : underWay? log = some p) :
    resets log = finished log ++ [p] := by
  rw [← List.take_of_length_le h.length_le, List.take_add_one]
  unfold underWay? at hrun
  rw [hrun]
  rfl

theorem Paced.ends_eq (h : Paced log) (hidle : underWay? log = none) :
    ends log = (resets log).length :=
  Nat.le_antisymm h.ends_le (List.getElem?_eq_none_iff.mp hidle)

/-- What is neither a start nor an end changes nothing about what is under way. -/
theorem underWay?_append {later : List ResetEvent} (hresets : resets later = []) (hends : ends later = 0) :
    underWay? (log ++ later) = underWay? log := by
  simp [underWay?, hresets, hends]

theorem finished_append {later : List ResetEvent} (hresets : resets later = []) (hends : ends later = 0) :
    finished (log ++ later) = finished log := by
  simp [finished, hresets, hends]

theorem Paced.finished_concat_started (h : Paced log) (old new : Header) :
    finished (log ++ [.started old new]) = finished log := by
  simp [finished, List.take_append_of_le_length h.ends_le]

theorem Paced.finished_concat_ended (h : Paced log) : finished (log ++ [.ended]) = resets log := by
  simp [finished, List.take_of_length_le h.length_le]

theorem Unbroken.left {later : List ResetEvent} (h : Unbroken (log ++ later)) : Unbroken log := by
  intro o ho
  refine h o ?_
  rw [outcomes_append]
  exact List.mem_append_left _ ho

end

/-! ## The order of things -/

/-- Each thing that happened was in order after what had happened before it. -/
inductive Lawful (P : List ResetEvent → ResetEvent → Prop) : List ResetEvent → Prop where
  | nil : Lawful P []
  | concat {log : List ResetEvent} {d : ResetEvent} (h : Lawful P log) (hd : P log d) : Lawful P (log ++ [d])

section
variable {P : List ResetEvent → ResetEvent → Prop} {log before after : List ResetEvent} {d : ResetEvent}

theorem Lawful.left (h : Lawful P log) (heq : log = before ++ after) : Lawful P before := by
  induction h generalizing after with
  | nil =>
    rw [(List.append_eq_nil_iff.mp heq.symm).1]
    exact .nil
  | concat h hd ih =>
    -- Either all of the log is `before`, or the last event belongs to what is after.
    rcases List.eq_nil_or_concat after with rfl | ⟨rest, last, rfl⟩
    · rw [List.append_nil] at heq
      rw [← heq]
      exact h.concat hd
    · rw [List.concat_eq_append, ← List.append_assoc] at heq
      exact ih (List.append_inj' heq rfl).1

/-- What holds at some point, and is kept by whatever is in order, holds later. -/
theorem Lawful.rec_from {base rest : List ResetEvent} {Q : List ResetEvent → Prop} (h : Lawful P log)
    (heq : log = base ++ rest) (nil : Q [])
    (concat : ∀ rest d, P (base ++ rest) d → Q rest → Q (rest ++ [d])) : Q rest := by
  induction h generalizing rest with
  | nil =>
    rw [(List.append_eq_nil_iff.mp heq.symm).2]
    exact nil
  | concat _ hd ih =>
    rcases List.eq_nil_or_concat rest with rfl | ⟨rest', last, rfl⟩
    · exact nil
    · rw [List.concat_eq_append, ← List.append_assoc] at heq
      obtain ⟨rfl, hlast⟩ := List.append_inj' heq rfl
      rw [List.concat_eq_append, ← List.singleton_inj.mp hlast]
      exact concat rest' _ hd (ih rfl)

/-- Whatever happened was in order when it happened. -/
theorem Lawful.of_mem (h : Lawful P log) (heq : log = before ++ d :: after) : P before d := by
  have hsplit : log = (before ++ [d]) ++ after := by
    rw [heq, List.append_assoc, List.singleton_append]
  have hpart := h.left hsplit
  generalize hlog : before ++ [d] = log' at hpart
  cases hpart with
  | nil => simp at hlog
  | concat _ hd =>
    obtain ⟨rfl, hlast⟩ := List.append_inj' hlog rfl
    rw [List.singleton_inj.mp hlast]
    exact hd

end

/-- **What is due.** A reset starts if the loop was not asked to stop and no
reset is under way, at the head where the last one led, and goes to the last
head that arrived; it is carried out while it is under way and ends when it is
over. The end of the loop is reported once, to whoever asked for it, when no
reset is under way, and the coordinator closes after that. -/
def Due (head : Header) (log : List ResetEvent) : ResetEvent → Prop
  | .heard _ => ¬Stopped log
  | .started old new =>
    ¬Stopped log ∧ underWay? log = none ∧ old = destination head (resets log) ∧
      (heads log).getLast? = some new ∧ new.hash ≠ old.hash
  | .swept _ old new => underWay? log = some (old, new) ∧ (outcomes log).length = ends log
  | .concluded old new _ => underWay? log = some (old, new) ∧ (outcomes log).length = ends log
  | .ended => (underWay? log).isSome ∧ (outcomes log).length = ends log + 1
  | .stopped _ => ¬Stopped log
  | .acknowledged =>
    ResetEvent.stopped true ∈ log ∧ underWay? log = none ∧ (outcomes log).map Prod.fst = resets log ∧
      ResetEvent.acknowledged ∉ log
  | .closed => ResetEvent.acknowledged ∈ log ∧ ResetEvent.closed ∉ log

/-- A reset is whole if every sub-pool has been through all resets. -/
def Whole (n : Nat) (log : List ResetEvent) : ResetEvent → Prop
  | .concluded _ _ true => ∀ pool < n, seen log pool = resets log
  | _ => True

section
variable {head : Header} {log : List ResetEvent}

theorem Lawful.paced (h : Lawful (Due head) log) : Paced log := by
  induction h with
  | nil => exact ⟨Nat.le_refl 0, Nat.zero_le 1⟩
  | @concat log d _ hd ih =>
    obtain ⟨hends, hlength⟩ := ih
    cases d with
    | started old new =>
      have hidle := List.getElem?_eq_none_iff.mp hd.2.1
      constructor <;> simp <;> omega
    | ended =>
      obtain ⟨target, htarget⟩ := Option.isSome_iff_exists.mp hd.1
      have hrun := (List.getElem?_eq_some_iff.mp htarget).1
      constructor <;> simp <;> omega
    | _ => exact ⟨by simpa using hends, by simpa using hlength⟩

/-- No reset starts before a head has arrived. -/
theorem Lawful.heads_ne_nil (h : Lawful (Due head) log) (hnone : heads log = []) :
    resets log = [] := by
  induction h with
  | nil => rfl
  | @concat log d _ hd ih =>
    rw [heads_append, List.append_eq_nil_iff] at hnone
    cases d with
    | started old new =>
      have hlast := hd.2.2.2.1
      rw [hnone.1] at hlast
      cases hlast
    | _ => simpa using ih hnone.1

end

/-! ## Steps -/

variable {σ : Type}

section
variable [SubPool σ]

/-- A coordinator with another state of its loop. -/
def withLoop (c : Coordinator σ) (loop : ResetLoop) : Coordinator σ := { c with loop }

/-- A coordinator that has just been started. -/
def begin (c : Coordinator σ) : Pursuit σ := ⟨c, 0, false, false, false, []⟩

/-- The reset that a loop has just started, if it has. -/
def begun (l : ResetLoop) : List ResetEvent :=
  match l.running with
  | none => []
  | some (old, new) => [.started old new]

/-- A step (`ResetLoop::run`, `ResetLoop::spawn_reset`). One that cannot be taken changes
nothing. -/
inductive Move (σ : Type) where
  /-- A head arrives. -/
  | head (h : Header)
  /-- The reset under way goes on to the next sub-pool. -/
  | sweep (b : Backend)
  /-- All sub-pools have been reset: the head is announced. -/
  | complete
  /-- The loop learns that the reset is over. -/
  | done
  /-- The loop takes the request to stop, or learns that nobody is left to make
  one. -/
  | stop (asked : Bool)
  | acknowledge
  /-- Whoever was told of the end closes the coordinator. -/
  | close (views : Nat → Backend)
  /-- Other calls change the sub-pools and what they share. -/
  | meanwhile (change : Nat → σ → σ) (commons : Commons)

variable (s : Pursuit σ)

def hear (h : Header) : Pursuit σ :=
  if s.pool.loop.stopping then s
  else
    let pool := s.pool.notify h
    -- A reset that is under way goes on; otherwise the head may have started one.
    let news := if s.pool.loop.running.isSome then [] else begun pool.loop
    { s with pool, log := s.log ++ [.heard h] ++ news }

/-- The next sub-pool has been reset, and is now this one. -/
def passed (old new : Header) (p : σ) (commons : Commons) : Pursuit σ :=
  let pool := s.pool
  { s with
    pool := { pool with
      pools := pool.pools.set s.reached p, commons
      journal := pool.journal ++ [.reset s.reached old new] }
    reached := s.reached + 1, log := s.log ++ [.swept s.reached old new] }

/-- The next sub-pool has broken off. -/
def broken (old new : Header) : Pursuit σ :=
  let pool := s.pool
  { s with
    pool := { pool with journal := pool.journal ++ [.reset s.reached old new] }
    concluded := true, log := s.log ++ [.concluded old new false] }

def sweep (b : Backend) : Pursuit σ :=
  match s.concluded, s.pool.loop.running, s.pool.pools[s.reached]? with
  | false, some (old, new), some p =>
    match SubPool.reset p b s.pool.commons old new with
    | some (p, commons) => s.passed old new p commons
    | none => s.broken old new
  | _, _, _ => s

/-- All sub-pools have been reset, and the head is announced. -/
def announce (old new : Header) : Pursuit σ :=
  let pool := s.pool
  { s with
    pool := { pool with
      head := new, resets := pool.resets + 1
      commons := { pool.commons with bus := (pool.commons.bus.publish (.reorg new)).1 } }
    concluded := true, log := s.log ++ [.concluded old new true] }

def complete : Pursuit σ :=
  match s.concluded, s.pool.loop.running with
  | false, some (old, new) =>
    if s.reached < s.pool.pools.length then s else s.announce old new
  | _, _ => s

def done : Pursuit σ :=
  if s.concluded then
    let loop := s.pool.loop.step .done
    { s with
      pool := withLoop s.pool loop, reached := 0, concluded := false
      log := s.log ++ [.ended] ++ begun loop }
  else s

/-- The loop has taken the request to stop. -/
def halted (asked : Bool) : Pursuit σ :=
  { s with
    pool := withLoop s.pool (s.pool.loop.step .stop), awaited := asked
    log := s.log ++ [.stopped asked] }

def stop (asked : Bool) : Pursuit σ :=
  if s.pool.loop.stopping then s else s.halted asked

def acknowledge : Pursuit σ :=
  if s.pool.loop.ended && s.awaited && !s.told then
    { s with told := true, log := s.log ++ [.acknowledged] }
  else s

def close (views : Nat → Backend) : Pursuit σ :=
  if s.told && !s.pool.closed then
    { s with pool := (s.pool.close views).1, log := s.log ++ [.closed] }
  else s

def step : Move σ → Pursuit σ
  | .head h => s.hear h
  | .sweep b => s.sweep b
  | .complete => s.complete
  | .done => s.done
  | .stop asked => s.stop asked
  | .acknowledge => s.acknowledge
  | .close views => s.close views
  | .meanwhile change commons =>
    let pool := s.pool
    { s with pool := { pool with pools := pool.pools.mapIdx change, commons } }

/-- Steps one after the other. -/
def run (moves : List (Move σ)) : Pursuit σ := moves.foldl step s

@[simp] theorem run_nil : s.run [] = s := rfl

@[simp] theorem run_cons (m : Move σ) (moves : List (Move σ)) :
    s.run (m :: moves) = (s.step m).run moves := rfl

@[simp] theorem run_append (moves later : List (Move σ)) :
    s.run (moves ++ later) = (s.run moves).run later := List.foldl_append

end

end Pursuit

end TxRelay
