/-
What the log of a pursuit says is so.

The state of a coordinator that follows the chain can be read off what has
happened: which head arrived last, which reset is under way, how far it has got,
what was announced. Each step keeps it that way, and what it adds to the log was
due.
-/
import TxRelay.Proofs.Pursuit

set_option autoImplicit false

namespace TxRelay

namespace Pursuit

variable {σ : Type}

/-! ## The loop -/

/-- What the loop knows is what the log says. -/
structure Follows (head : Header) (l : ResetLoop) (log : List ResetEvent) : Prop where
  latest_eq : l.latest = (heads log).getLastD head
  applied_eq : l.applied = destination head (finished log)
  running_eq : l.running = underWay? log
  stopping_iff : l.stopping = true ↔ Stopped log

section
variable {head : Header} {l : ResetLoop} {log : List ResetEvent}

/-- A loop at which a head arrived. -/
def headed (l : ResetLoop) (new : Header) : ResetLoop := { l with latest := new }

/-- A loop whose reset has ended. -/
def landed (l : ResetLoop) (target : Header) : ResetLoop :=
  { l with applied := target, running := none }

theorem Follows.frame {later : List ResetEvent} (h : Follows head l log)
    (hheads : heads later = []) (hresets : resets later = []) (hends : ends later = 0)
    (hstop : ¬Stopped later) : Follows head l (log ++ later) := by
  have hstopped : Stopped (log ++ later) ↔ Stopped log := by
    constructor
    · rintro ⟨asked, hmem⟩
      rcases List.mem_append.mp hmem with hmem | hmem
      · exact ⟨asked, hmem⟩
      · exact absurd ⟨asked, hmem⟩ hstop
    · rintro ⟨asked, hmem⟩
      exact ⟨asked, List.mem_append_left _ hmem⟩
  exact {
    latest_eq := by simpa [hheads] using h.latest_eq
    applied_eq := by rw [finished_append hresets hends]; exact h.applied_eq
    running_eq := by rw [underWay?_append hresets hends]; exact h.running_eq
    stopping_iff := h.stopping_iff.trans hstopped.symm }

/-- A loop has ended when it was asked to stop and no reset is under way. -/
theorem ended_iff : l.ended = true ↔ l.stopping = true ∧ l.running = none := by
  rw [ResetLoop.ended, Bool.and_eq_true, Option.isNone_iff_eq_none]

theorem step_head (hgoing : l.stopping = false) (new : Header) :
    l.step (.head new) = (headed l new).launch := by
  refine if_neg ?_
  rw [hgoing]
  exact Bool.false_ne_true

theorem step_done {target : Header × Header} (hrun : l.running = some target) :
    l.step .done = (landed l target.2).launch := by
  rw [ResetLoop.step, hrun]
  rfl

/-- A loop that was asked to stop does not change when it is asked again. -/
theorem step_stop (hstopping : l.stopping = true) : l.step .stop = l := by
  cases l
  cases hstopping
  rfl

/-- While a reset is under way no other one starts. -/
theorem launch_of_running (hrun : l.running.isSome) : l.launch = l := by
  rw [ResetLoop.launch, Option.isNone_eq_false_iff.mpr hrun]
  rfl

theorem Follows.heard (h : Follows head l log) (new : Header) :
    Follows head (headed l new) (log ++ [.heard new]) where
  latest_eq := by simp [headed]
  applied_eq := by simpa [headed, finished] using h.applied_eq
  running_eq := by simpa [headed, underWay?] using h.running_eq
  stopping_iff := by simpa [headed, Stopped] using h.stopping_iff

theorem Follows.ended {p : Header × Header} (h : Follows head l log) (hpaced : Paced log)
    (hrun : l.running = some p) : Follows head (landed l p.2) (log ++ [.ended]) := by
  have hresets := hpaced.resets_eq (h.running_eq.symm.trans hrun)
  have hnext : (resets log).length = ends log + 1 := by
    rw [hresets, List.length_append, hpaced.length_finished]
    rfl
  exact {
    latest_eq := by simpa [landed] using h.latest_eq
    applied_eq := by
      rw [hpaced.finished_concat_ended, hresets]
      simp [destination, landed]
    running_eq := by simp [underWay?, hnext, landed]
    stopping_iff := by simpa [landed, Stopped] using h.stopping_iff }

theorem Follows.stopped (h : Follows head l log) (asked : Bool) :
    Follows head { l with stopping := true } (log ++ [.stopped asked]) where
  latest_eq := by simpa using h.latest_eq
  applied_eq := by simpa [finished] using h.applied_eq
  running_eq := by simpa [underWay?] using h.running_eq
  stopping_iff := by simp [Stopped]

/-- A reset that is started is due, and no other one is. -/
theorem Follows.due_begun (h : Follows head l log) (hlawful : Lawful (Due head) log)
    (hidle : l.running = none) :
    begun l.launch = [] ∧ l.launch = l ∨
      ∃ old new, begun l.launch = [.started old new] ∧ l.launch = { l with running := some (old, new) } ∧
        Due head log (.started old new) := by
  rw [ResetLoop.launch]
  split
  · next hstart =>
    simp only [Bool.and_eq_true, Bool.not_eq_true', bne_iff_ne] at hstart
    obtain ⟨⟨_, hgoing⟩, hhash⟩ := hstart
    have hunderWay : underWay? log = none := h.running_eq.symm.trans hidle
    have hall := finished_eq_resets hunderWay
    refine Or.inr ⟨l.applied, l.latest, rfl, rfl, ?_, hunderWay, ?_, ?_, hhash⟩
    · rw [← h.stopping_iff, hgoing]
      exact Bool.false_ne_true
    · rw [← hall]
      exact h.applied_eq
    · -- Without any head the loop would still be where it was.
      rcases List.eq_nil_or_concat (heads log) with hnone | ⟨earlier, last, hlast⟩
      · have happlied : l.applied = head := by
          rw [h.applied_eq, hall, hlawful.heads_ne_nil hnone]
          rfl
        have hlatest : l.latest = head := by
          rw [h.latest_eq, hnone]
          rfl
        exact absurd (by rw [hlatest, happlied]) hhash
      · rw [h.latest_eq, hlast, List.concat_eq_append, List.getLast?_concat, List.getLastD_concat]
  · exact Or.inl ⟨by rw [begun, hidle], rfl⟩

theorem Follows.started {old new : Header} (h : Follows head l log) (hpaced : Paced log)
    (hidle : underWay? log = none) :
    Follows head { l with running := some (old, new) } (log ++ [.started old new]) := by
  have hends := hpaced.ends_eq hidle
  exact {
    latest_eq := by simpa using h.latest_eq
    applied_eq := by
      rw [hpaced.finished_concat_started]
      exact h.applied_eq
    running_eq := by simp [underWay?, hends]
    stopping_iff := by simpa [Stopped] using h.stopping_iff }

end

/-! ## The sub-pools -/

/-- How far the reset under way has got is what the log says. -/
structure Sweeps (n reached : Nat) (isOver : Bool) (log : List ResetEvent) : Prop where
  outcomes_eq : (outcomes log).map Prod.fst = if isOver then resets log else finished log
  reached_le : reached ≤ n
  /-- Without a reset there is nothing to be got on with. -/
  of_idle : underWay? log = none → reached = 0 ∧ isOver = false
  /-- The sub-pools that have been reached have been through all resets. -/
  seen_eq : Unbroken log → ∀ pool < n,
    seen log pool = if pool < reached then resets log else finished log
  reached_eq : isOver = true → Unbroken log → reached = n

section
variable {n reached : Nat} {isOver : Bool} {log : List ResetEvent} {old new : Header}

/-- What the log says about the sub-pools is not changed by what others do. -/
theorem Sweeps.frame {later : List ResetEvent} (h : Sweeps n reached isOver log)
    (hresets : resets later = []) (hends : ends later = 0) (houtcomes : outcomes later = [])
    (hseen : ∀ pool, seen later pool = []) : Sweeps n reached isOver (log ++ later) where
  outcomes_eq := by simpa [finished, hresets, hends, houtcomes] using h.outcomes_eq
  reached_le := h.reached_le
  of_idle := by rw [underWay?_append hresets hends]; exact h.of_idle
  seen_eq := by simpa [Unbroken, finished, hresets, hends, houtcomes, hseen] using h.seen_eq
  reached_eq := by simpa [Unbroken, houtcomes] using h.reached_eq

theorem Sweeps.started (h : Sweeps n reached isOver log) (hpaced : Paced log)
    (hidle : underWay? log = none) :
    Sweeps n reached isOver (log ++ [.started old new]) := by
  obtain ⟨rfl, rfl⟩ := h.of_idle hidle
  have hsame := hpaced.finished_concat_started old new
  exact {
    outcomes_eq := by simpa [hsame] using h.outcomes_eq
    reached_le := h.reached_le
    of_idle := fun _ => ⟨rfl, rfl⟩
    seen_eq := by simpa [Unbroken, hsame] using h.seen_eq
    reached_eq := fun hconcluded => by cases hconcluded }

/-- The reset under way has got through one more sub-pool. -/
theorem Sweeps.swept (h : Sweeps n reached false log) (hpaced : Paced log)
    (hrun : underWay? log = some (old, new)) (hlt : reached < n) :
    Sweeps n (reached + 1) false (log ++ [.swept reached old new]) where
  outcomes_eq := by simpa [finished] using h.outcomes_eq
  reached_le := hlt
  of_idle := fun hidle => by
    rw [underWay?_append rfl rfl, hrun] at hidle
    cases hidle
  seen_eq := by
    intro hwhole pool hpool
    have hbefore := h.seen_eq hwhole.left pool hpool
    rw [finished_append rfl rfl, seen_append, hbefore]
    -- The sub-pool that has just been reset has caught up, and no other one has changed.
    by_cases hnow : reached = pool
    · subst hnow
      simpa using (hpaced.resets_eq hrun).symm
    · have hsame : pool < reached + 1 ↔ pool < reached := by omega
      simp [hnow, hsame]
  reached_eq := fun hconcluded => by cases hconcluded

theorem Sweeps.concluded (h : Sweeps n reached false log) (hpaced : Paced log)
    (hrun : underWay? log = some (old, new)) {whole : Bool} (hall : whole = true → reached = n) :
    Sweeps n reached true (log ++ [.concluded old new whole]) where
  outcomes_eq := by
    have hfst : (outcomes log).map Prod.fst = finished log := h.outcomes_eq
    rw [outcomes_append, List.map_append, hfst]
    simpa using (hpaced.resets_eq hrun).symm
  reached_le := h.reached_le
  of_idle := fun hidle => by
    rw [underWay?_append rfl rfl, hrun] at hidle
    cases hidle
  seen_eq := fun hwhole => by simpa [finished] using h.seen_eq hwhole.left
  reached_eq := fun _ hwhole => by
    refine hall (hwhole ((old, new), whole) ?_)
    simp

theorem Sweeps.ended (h : Sweeps n reached true log) (hpaced : Paced log) :
    Sweeps n 0 false (log ++ [.ended]) := by
  have hall := hpaced.finished_concat_ended
  exact {
    outcomes_eq := by simpa [hall] using h.outcomes_eq
    reached_le := Nat.zero_le n
    of_idle := fun _ => ⟨rfl, rfl⟩
    seen_eq := fun hwhole pool hpool => by
      have hbefore := h.seen_eq hwhole.left pool hpool
      rw [h.reached_eq rfl hwhole.left, if_pos hpool] at hbefore
      simpa [hall] using hbefore
    reached_eq := fun hconcluded => by cases hconcluded }

end

/-! ## All together -/

/-- **The state is what the log says**, and everything in the log was due. -/
structure Tracks (head : Header) (n : Nat) (s : Pursuit σ) : Prop where
  follows : Follows head s.pool.loop s.log
  sweeps : Sweeps n s.reached s.concluded s.log
  size : s.pool.pools.length = n
  head_eq : s.pool.head = (announced s.log).getLastD head
  resets_eq : s.pool.resets = (announced s.log).length
  awaited_iff : s.awaited = true ↔ ResetEvent.stopped true ∈ s.log
  told_iff : s.told = true ↔ ResetEvent.acknowledged ∈ s.log
  closed_iff : s.pool.closed = true ↔ ResetEvent.closed ∈ s.log
  /-- Whoever was told that the loop has ended was told the truth. -/
  ended_of_told : s.told = true → s.pool.loop.ended = true
  lawful : Lawful (Due head) s.log
  whole : Unbroken s.log → Lawful (Whole n) s.log

section
variable {head : Header} {n : Nat} {s : Pursuit σ}

theorem outcomes_length (h : Tracks head n s) (hconcluded : s.concluded = false) :
    (outcomes s.log).length = ends s.log := by
  have hfst := congrArg List.length h.sweeps.outcomes_eq
  rw [List.length_map, hconcluded] at hfst
  rw [hfst]
  exact h.lawful.paced.length_finished

/-- One more event is written down, and what it is about changes with it. -/
structure Records (s : Pursuit σ) (d : ResetEvent) (s' : Pursuit σ) : Prop where
  log_eq : s'.log = s.log ++ [d]
  size_eq : s'.pool.pools.length = s.pool.pools.length
  head_eq : s'.pool.head = (announced [d]).getLastD s.pool.head
  resets_eq : s'.pool.resets = s.pool.resets + (announced [d]).length
  awaited_iff : s'.awaited = true ↔ s.awaited = true ∨ d = .stopped true
  told_iff : s'.told = true ↔ s.told = true ∨ d = .acknowledged
  closed_iff : s'.pool.closed = true ↔ s.pool.closed = true ∨ d = .closed

/-- **One more event**, if it is due. -/
theorem Tracks.record {s' : Pursuit σ} {d : ResetEvent} (h : Tracks head n s) (hr : Records s d s')
    (hfollows : Follows head s'.pool.loop (s.log ++ [d]))
    (hsweeps : Sweeps n s'.reached s'.concluded (s.log ++ [d]))
    (hended : s'.told = true → s'.pool.loop.ended = true) (hdue : Due head s.log d)
    (hwhole : Unbroken (s.log ++ [d]) → Whole n s.log d) : Tracks head n s' where
  follows := by rw [hr.log_eq]; exact hfollows
  sweeps := by rw [hr.log_eq]; exact hsweeps
  size := hr.size_eq.trans h.size
  head_eq := by
    rw [hr.head_eq, hr.log_eq, announced_append, h.head_eq]
    rcases List.eq_nil_or_concat (announced [d]) with hnone | ⟨earlier, last, hlast⟩
    · rw [hnone, List.append_nil]
      rfl
    · rw [hlast, List.concat_eq_append, ← List.append_assoc, List.getLastD_concat,
        List.getLastD_concat]
  resets_eq := by
    rw [hr.resets_eq, hr.log_eq, announced_append, List.length_append, h.resets_eq]
  awaited_iff := by
    rw [hr.awaited_iff, hr.log_eq, h.awaited_iff, List.mem_append, List.mem_singleton, eq_comm]
  told_iff := by
    rw [hr.told_iff, hr.log_eq, h.told_iff, List.mem_append, List.mem_singleton, eq_comm]
  closed_iff := by
    rw [hr.closed_iff, hr.log_eq, h.closed_iff, List.mem_append, List.mem_singleton, eq_comm]
  ended_of_told := hended
  lawful := by rw [hr.log_eq]; exact h.lawful.concat hdue
  whole := by
    rw [hr.log_eq]
    exact fun hunbroken => (h.whole hunbroken.left).concat (hwhole hunbroken)

/-- A reset that is due is started. -/
theorem Tracks.launch (h : Tracks head n s) (hidle : s.pool.loop.running = none) :
    Tracks head n { s with
      pool := withLoop s.pool s.pool.loop.launch, log := s.log ++ begun s.pool.loop.launch } := by
  rcases h.follows.due_begun h.lawful hidle with ⟨hnone, hsame⟩ | ⟨old, new, hbegun, hloop, hdue⟩
  · rw [hnone, hsame, List.append_nil]
    exact h
  · have hpaced := h.lawful.paced
    rw [hbegun, hloop]
    refine h.record ?_ (h.follows.started hpaced hdue.2.1) (h.sweeps.started hpaced hdue.2.1) ?_ hdue
      fun _ => trivial
    · constructor <;> simp [announced, withLoop]
    · -- A loop that has ended starts nothing, so nobody can have been told.
      intro htold
      have hstopping := (ended_iff.mp (h.ended_of_told htold)).1
      exact absurd (h.follows.stopping_iff.mp hstopping) hdue.1

/-- A loop that was not asked to stop takes in a head. -/
theorem notify_eq {c : Coordinator σ} (hgoing : c.loop.stopping = false) (new : Header) :
    c.notify new = withLoop c (headed c.loop new).launch :=
  congrArg (withLoop c) (step_head hgoing new)

theorem Tracks.hear (h : Tracks head n s) (new : Header) : Tracks head n (s.hear new) := by
  rw [Pursuit.hear]
  split
  · exact h
  · next hgoing =>
    have hstop : s.pool.loop.stopping = false := Bool.eq_false_iff.mpr hgoing
    have hdue : ¬Stopped s.log := fun hstopped => hgoing (h.follows.stopping_iff.mpr hstopped)
    -- Two events, one after the other: the head is taken in, and a reset may start.
    have hheard : Tracks head n
        { s with
          pool := withLoop s.pool (headed s.pool.loop new), log := s.log ++ [.heard new] } := by
      refine h.record (d := .heard new) ?_ (h.follows.heard new) (h.sweeps.frame rfl rfl rfl fun _ => rfl)
        ?_ hdue fun _ => trivial
      · constructor <;> simp [announced, withLoop]
      · exact h.ended_of_told
    rw [notify_eq hstop]
    dsimp only
    split
    · next hrun =>
      rw [launch_of_running (l := headed s.pool.loop new) hrun, List.append_nil]
      exact hheard
    · next hidle => exact hheard.launch (Option.not_isSome_iff_eq_none.mp hidle)

theorem Tracks.complete (h : Tracks head n s) : Tracks head n s.complete := by
  rw [Pursuit.complete]
  split
  · next old new hconcluded hrun =>
    have hunderWay := h.follows.running_eq.symm.trans hrun
    have hsweeps := h.sweeps
    rw [hconcluded] at hsweeps
    split
    · exact h
    · next hall =>
      have hreached : s.reached = n := by
        have hle := hsweeps.reached_le
        have hsize := h.size
        omega
      refine h.record (d := .concluded old new true) ?_ (h.follows.frame rfl rfl rfl ?_)
        (hsweeps.concluded h.lawful.paced hunderWay fun _ => hreached) h.ended_of_told
        ⟨hunderWay, outcomes_length h hconcluded⟩ fun hwhole pool hpool => ?_
      · constructor <;> simp [announced, announce]
      · simp [Stopped]
      · rw [hsweeps.seen_eq hwhole.left pool hpool, hreached, if_pos hpool]
  · exact h

theorem Tracks.done (h : Tracks head n s) : Tracks head n s.done := by
  rw [Pursuit.done]
  split
  · next hconcluded =>
    have hsweeps := h.sweeps
    rw [hconcluded] at hsweeps
    cases hrun : s.pool.loop.running with
    | none =>
      -- Nothing is over where nothing is under way.
      have hidle := hsweeps.of_idle (h.follows.running_eq.symm.trans hrun)
      cases hidle.2
    | some target =>
      have hunderWay := h.follows.running_eq.symm.trans hrun
      have hended : Tracks head n
          { s with
            pool := withLoop s.pool (landed s.pool.loop target.2)
            reached := 0, concluded := false, log := s.log ++ [.ended] } := by
        refine h.record (d := .ended) ?_ (h.follows.ended h.lawful.paced hrun)
          (hsweeps.ended h.lawful.paced) ?_ ⟨?_, ?_⟩ fun _ => trivial
        · constructor <;> simp [announced, withLoop]
        · intro htold
          have hidle := (ended_iff.mp (h.ended_of_told htold)).2
          rw [hrun] at hidle
          cases hidle
        · rw [hunderWay]
          rfl
        · have hfst := congrArg List.length hsweeps.outcomes_eq
          rw [List.length_map, if_pos rfl, h.lawful.paced.resets_eq hunderWay,
            List.length_append, h.lawful.paced.length_finished] at hfst
          exact hfst
      dsimp only
      rw [step_done hrun]
      exact hended.launch rfl
  · exact h

theorem Tracks.stop (h : Tracks head n s) (asked : Bool) : Tracks head n (s.stop asked) := by
  rw [Pursuit.stop]
  split
  · exact h
  · next hgoing =>
    have hdue : ¬Stopped s.log := fun hstopped => hgoing (h.follows.stopping_iff.mpr hstopped)
    refine h.record (d := .stopped asked) ?_ (h.follows.stopped asked)
      (h.sweeps.frame rfl rfl rfl fun _ => rfl) ?_ hdue fun _ => trivial
    · have hnobody : s.awaited = true → False := fun hawaited => hdue ⟨true, h.awaited_iff.mp hawaited⟩
      constructor <;> simp [announced, halted, withLoop]
      intro hawaited
      exact (hnobody hawaited).elim
    · intro htold
      exact absurd (ended_iff.mp (h.ended_of_told htold)).1 hgoing

theorem Tracks.acknowledge (h : Tracks head n s) : Tracks head n s.acknowledge := by
  rw [Pursuit.acknowledge]
  split
  · next htime =>
    simp only [Bool.and_eq_true, Bool.not_eq_true'] at htime
    obtain ⟨⟨hended, hawaited⟩, huntold⟩ := htime
    have hnothing : underWay? s.log = none := h.follows.running_eq.symm.trans (ended_iff.mp hended).2
    refine h.record (d := .acknowledged) ?_ (h.follows.frame rfl rfl rfl ?_)
      (h.sweeps.frame rfl rfl rfl fun _ => rfl) (fun _ => hended)
      ⟨h.awaited_iff.mp hawaited, hnothing, ?_, fun hmem => ?_⟩ fun _ => trivial
    · constructor <;> simp [announced]
    · simp [Stopped]
    · rw [h.sweeps.outcomes_eq, (h.sweeps.of_idle hnothing).2]
      exact finished_eq_resets hnothing
    · rw [h.told_iff.mpr hmem] at huntold
      cases huntold
  · exact h

end

section
variable [SubPool σ] {head : Header} {n : Nat} {s : Pursuit σ}

theorem Tracks.sweep (h : Tracks head n s) (b : Backend) : Tracks head n (s.sweep b) := by
  rw [Pursuit.sweep]
  split
  · next old new p hconcluded hrun hp =>
    have hunderWay := h.follows.running_eq.symm.trans hrun
    have hdue : underWay? s.log = some (old, new) ∧ (outcomes s.log).length = ends s.log :=
      ⟨hunderWay, outcomes_length h hconcluded⟩
    have hsweeps := h.sweeps
    rw [hconcluded] at hsweeps
    split
    · next p' commons _ =>
      have hlt : s.reached < n := by
        rw [← h.size]
        exact (List.getElem?_eq_some_iff.mp hp).1
      refine h.record (d := .swept s.reached old new) ?_ (h.follows.frame rfl rfl rfl ?_) ?_
        h.ended_of_told hdue fun _ => trivial
      · constructor <;> simp [announced, passed]
      · simp [Stopped]
      · show Sweeps n (s.reached + 1) s.concluded _
        rw [hconcluded]
        exact hsweeps.swept h.lawful.paced hunderWay hlt
    · refine h.record (d := .concluded old new false) ?_ (h.follows.frame rfl rfl rfl ?_)
        (hsweeps.concluded h.lawful.paced hunderWay fun hwhole => ?_) h.ended_of_told hdue fun _ => trivial
      · constructor <;> simp [announced, broken]
      · simp [Stopped]
      · cases hwhole
  · exact h

/-- Sub-pools leave their seats, and stay. -/
theorem length_detachAll (c : Commons) (pools : List σ) :
    (Coordinator.detachAll c pools).1.length = pools.length := by
  induction pools generalizing c with
  | nil => rfl
  | cons p rest ih => exact congrArg (· + 1) (ih _)

/-- A loop that has ended has nothing to finish when it is asked to stop. -/
theorem finishReset_stop {c : Coordinator σ} (hended : c.loop.ended = true) (views : Nat → Backend) :
    ({ c with loop := c.loop.step .stop } : Coordinator σ).finishReset views = c := by
  obtain ⟨hstopping, hidle⟩ := ended_iff.mp hended
  rw [step_stop hstopping, Coordinator.finishReset, hidle]

/-- Closing a coordinator whose loop has ended leaves the loop and the head
alone. -/
theorem close_spec {c : Coordinator σ} (hopen : c.closed = false) (hended : c.loop.ended = true)
    (views : Nat → Backend) :
    (c.close views).1.loop = c.loop ∧ (c.close views).1.head = c.head ∧
      (c.close views).1.resets = c.resets ∧ (c.close views).1.closed = true ∧
      (c.close views).1.pools.length = c.pools.length := by
  rw [Coordinator.close, if_neg (by rw [hopen]; exact Bool.false_ne_true), finishReset_stop hended]
  exact ⟨rfl, rfl, rfl, rfl, length_detachAll _ _⟩

theorem Tracks.close (h : Tracks head n s) (views : Nat → Backend) : Tracks head n (s.close views) := by
  rw [Pursuit.close]
  split
  · next htime =>
    simp only [Bool.and_eq_true, Bool.not_eq_true'] at htime
    obtain ⟨htold, hopen⟩ := htime
    have hended := h.ended_of_told htold
    obtain ⟨hloop, hhead, hresets, hclosed, hsize⟩ := close_spec hopen hended views
    refine h.record (d := .closed) ?_ ?_ (h.sweeps.frame rfl rfl rfl fun _ => rfl) ?_
      ⟨h.told_iff.mp htold, fun hmem => ?_⟩ fun _ => trivial
    · constructor <;> simp [announced, hhead, hresets, hclosed, hsize]
    · show Follows head (s.pool.close views).1.loop _
      rw [hloop]
      exact h.follows.frame rfl rfl rfl (by simp [Stopped])
    · show s.told = true → (s.pool.close views).1.loop.ended = true
      rw [hloop]
      exact h.ended_of_told
    · rw [h.closed_iff.mpr hmem] at hopen
      cases hopen
  · exact h

/-- **One step** keeps the state in line with the log. -/
theorem Tracks.step (h : Tracks head n s) (m : Move σ) : Tracks head n (s.step m) := by
  cases m with
  | head new => exact h.hear new
  | sweep b => exact h.sweep b
  | complete => exact h.complete
  | done => exact h.done
  | stop asked => exact h.stop asked
  | acknowledge => exact h.acknowledge
  | close views => exact h.close views
  | meanwhile change commons =>
    exact { h with size := (List.length_mapIdx).trans h.size }

/-- **A run** does. -/
theorem Tracks.run (h : Tracks head n s) (moves : List (Move σ)) : Tracks head n (s.run moves) := by
  induction moves generalizing s with
  | nil => exact h
  | cons m rest ih => exact ih (h.step m)

/-- At the start nothing has happened. -/
theorem Tracks.begin {pools : List σ} {c : Coordinator σ}
    (hstart : Coordinator.start head pools = .running c) :
    Tracks head c.pools.length (Pursuit.begin c) := by
  rw [Coordinator.start] at hstart
  split at hstart
  · cases hstart
    exact {
      follows := ⟨rfl, rfl, rfl, by simp [Stopped, Pursuit.begin, ResetLoop.start]⟩
      sweeps :=
        ⟨rfl, Nat.zero_le _, fun _ => ⟨rfl, rfl⟩, fun _ _ _ => rfl, fun hconcluded => by cases hconcluded⟩
      size := rfl
      head_eq := rfl
      resets_eq := rfl
      awaited_iff := by simp [Pursuit.begin]
      told_iff := by simp [Pursuit.begin]
      closed_iff := by simp [Pursuit.begin]
      ended_of_told := fun htold => by cases htold
      lawful := Lawful.nil
      whole := fun _ => Lawful.nil }
  · cases hstart

end

/-! ## At rest -/

/-- Without a reset under way there is nothing to catch up with, unless the loop
was asked to stop. -/
def Settled (l : ResetLoop) : Prop :=
  l.stopping = false → l.running = none → l.latest.hash = l.applied.hash

theorem settled_launch (l : ResetLoop) : Settled l.launch := by
  intro hgoing hidle
  rw [ResetLoop.launch] at hgoing hidle ⊢
  split at hidle
  · cases hidle
  · next hnot =>
    rw [if_neg hnot] at hgoing ⊢
    simpa [hidle, hgoing] using hnot

theorem Settled.step {l : ResetLoop} (h : Settled l) (signal : ResetSignal) :
    Settled (l.step signal) := by
  cases signal with
  | head new =>
    rw [ResetLoop.step]
    split
    · exact h
    · exact settled_launch _
  | done =>
    rw [ResetLoop.step]
    split
    · exact settled_launch _
    · exact h
  | stop => exact fun hgoing => by cases hgoing

/-! ## What a step does -/

/-- What a step adds to the log, and what becomes of the loop and of the head. -/
structure Effect (s s' : Pursuit σ) (events : List ResetEvent) : Prop where
  log_eq : s'.log = s.log ++ events
  /-- The loop changes by its signals alone. -/
  loop_step : s'.pool.loop = s.pool.loop ∨ ∃ signal, s'.pool.loop = s.pool.loop.step signal
  /-- A head is announced when all sub-pools have been reset to it, and in no
  other step. -/
  announces : announced events = [] ∨
    ∃ old new, s.pool.loop.running = some (old, new) ∧ ¬s.reached < s.pool.pools.length ∧
      s' = s.announce old new

theorem outcomes_begun (l : ResetLoop) : outcomes (begun l) = [] := by
  rw [begun]
  split
  · rfl
  · rfl

section
variable {s : Pursuit σ}

theorem Effect.none {s' : Pursuit σ} (hlog : s'.log = s.log) (hloop : s'.pool.loop = s.pool.loop) :
    Effect s s' [] :=
  ⟨hlog.trans (List.append_nil _).symm, Or.inl hloop, Or.inl rfl⟩

end

section
variable [SubPool σ] {head : Header} {n : Nat} {s : Pursuit σ}

/-- **What each step does.** -/
theorem Tracks.effect (h : Tracks head n s) (m : Move σ) : ∃ events, Effect s (s.step m) events := by
  cases m with
  | head new =>
    rw [Pursuit.step, Pursuit.hear]
    split
    · exact ⟨_, .none rfl rfl⟩
    · refine ⟨_, List.append_assoc _ _ _, Or.inr ⟨.head new, rfl⟩, Or.inl ?_⟩
      split
      · rfl
      · simp [announced, outcomes_begun]
  | sweep b =>
    rw [Pursuit.step, Pursuit.sweep]
    split
    · split
      · exact ⟨_, rfl, Or.inl rfl, Or.inl rfl⟩
      · exact ⟨_, rfl, Or.inl rfl, Or.inl rfl⟩
    · exact ⟨_, .none rfl rfl⟩
  | complete =>
    rw [Pursuit.step, Pursuit.complete]
    split
    · next old new _ hrun =>
      split
      · exact ⟨_, .none rfl rfl⟩
      · next hall => exact ⟨_, rfl, Or.inl rfl, Or.inr ⟨old, new, hrun, hall, rfl⟩⟩
    · exact ⟨_, .none rfl rfl⟩
  | done =>
    rw [Pursuit.step, Pursuit.done]
    split
    · refine ⟨_, List.append_assoc _ _ _, Or.inr ⟨.done, rfl⟩, Or.inl ?_⟩
      simp [announced, outcomes_begun]
    · exact ⟨_, .none rfl rfl⟩
  | stop asked =>
    rw [Pursuit.step, Pursuit.stop]
    split
    · exact ⟨_, .none rfl rfl⟩
    · exact ⟨_, rfl, Or.inr ⟨.stop, rfl⟩, Or.inl rfl⟩
  | acknowledge =>
    rw [Pursuit.step, Pursuit.acknowledge]
    split
    · exact ⟨_, rfl, Or.inl rfl, Or.inl rfl⟩
    · exact ⟨_, .none rfl rfl⟩
  | close views =>
    rw [Pursuit.step, Pursuit.close]
    split
    · next htime =>
      simp only [Bool.and_eq_true, Bool.not_eq_true'] at htime
      have hloop := (close_spec htime.2 (h.ended_of_told htime.1) views).1
      exact ⟨_, rfl, Or.inl hloop, Or.inl rfl⟩
    · exact ⟨_, .none rfl rfl⟩
  | meanwhile change commons => exact ⟨_, .none rfl rfl⟩

theorem settled_run (h : Tracks head n s) (hsettled : Settled s.pool.loop) (moves : List (Move σ)) :
    Settled (s.run moves).pool.loop := by
  induction moves generalizing s with
  | nil => exact hsettled
  | cons m rest ih =>
    refine ih (h.step m) ?_
    obtain ⟨_, heffect⟩ := h.effect m
    rcases heffect.loop_step with hsame | ⟨signal, hstep⟩
    · rw [hsame]
      exact hsettled
    · rw [hstep]
      exact hsettled.step signal

theorem log_run (h : Tracks head n s) (moves : List (Move σ)) : s.log <+: (s.run moves).log := by
  induction moves generalizing s with
  | nil => exact List.prefix_refl _
  | cons m rest ih =>
    obtain ⟨events, heffect⟩ := h.effect m
    exact List.IsPrefix.trans ⟨events, heffect.log_eq.symm⟩ (ih (h.step m))

end

end Pursuit

end TxRelay
