/-
Resets are made one at a time, each from where the last one led.

What is due is all that is needed to say in which order resets come: one starts
when none is under way, at the head where the last one led, and goes to the last
head that arrived. So resets form a chain, and of the heads that arrive during
one reset at most the last is the target of another. That each sub-pool sees the
same chain, and that heads are announced in its order, is then a matter of where
the reset under way has got to.
-/
import TxRelay.Pool.Scripted
import TxRelay.Proofs.CarriedOut

set_option autoImplicit false

namespace TxRelay

namespace Pursuit

/-! ## The chain of resets -/

/-- Each reset starts at the head where the one before it led. -/
def Chained : Header → List (Header × Header) → Prop
  | _, [] => True
  | head, (old, new) :: rest => old = head ∧ Chained new rest

section
variable {head old new : Header} {log : List ResetEvent}

theorem Chained.concat {resets : List (Header × Header)} (h : Chained head resets)
    (hold : old = destination head resets) : Chained head (resets ++ [(old, new)]) := by
  induction resets generalizing head with
  | nil => exact ⟨hold, trivial⟩
  | cons reset rest ih =>
    obtain ⟨hfirst, hrest⟩ := h
    rw [destination, List.map_cons, List.getLastD_cons] at hold
    exact ⟨hfirst, ih hrest hold⟩

theorem Lawful.chained (h : Lawful (Due head) log) : Chained head (resets log) := by
  induction h with
  | nil => trivial
  | @concat log d _ hd ih =>
    cases d with
    | started old new =>
      rw [resets_append]
      exact ih.concat hd.2.2.1
    | _ => simpa using ih

/-- A reset starts when the ones before it have ended, and goes from a head to
one with another digest, the last that arrived. -/
theorem Lawful.due_started {before after : List ResetEvent} (h : Lawful (Due head) log)
    (heq : log = before ++ .started old new :: after) :
    ends before = (resets before).length ∧ (heads before).getLast? = some new ∧
      new.hash ≠ old.hash := by
  obtain ⟨_, hidle, _, hlast, hhash⟩ := h.of_mem heq
  exact ⟨(h.left heq).paced.ends_eq hidle, hlast, hhash⟩

/-! ## Bursts -/

theorem mem_resets_iff : (old, new) ∈ resets log ↔ ResetEvent.started old new ∈ log := by
  rw [resets, List.mem_filterMap]
  constructor
  · rintro ⟨d, hmem, hd⟩
    cases d with
    | started old' new' =>
      cases hd
      exact hmem
    | _ => cases hd
  · exact fun hmem => ⟨_, hmem, rfl⟩

/-- While a reset is under way no other one starts. -/
theorem Lawful.resets_eq_nil {before during after : List ResetEvent} (h : Lawful (Due head) log)
    (heq : log = before ++ .started old new :: (during ++ after)) (hends : .ended ∉ during) :
    resets during = [] := by
  refine List.eq_nil_iff_forall_not_mem.mpr fun ⟨old', new'⟩ hmem => ?_
  obtain ⟨first, rest, rfl⟩ := List.append_of_mem (mem_resets_iff.mp hmem)
  -- Where it starts, the reset before it has not ended.
  have hsplit : log = (before ++ .started old new :: first) ++ .started old' new' :: (rest ++ after) := by
    simpa using heq
  have hhalfway := (h.due_started hsplit).1
  have hbefore := (h.due_started heq).1
  have hfirst : ends first = 0 := by
    rw [ends, List.count_eq_zero]
    exact fun hend => hends (List.mem_append_left _ hend)
  simp [hfirst] at hhalfway
  omega

/-- Until another head arrives at most one more reset starts: to the last head
that arrived, if it is not the one that the last reset led to. -/
theorem Lawful.resets_calm {base calm : List ResetEvent} (h : Lawful (Due head) log)
    (heq : log = base ++ calm) (hcalm : heads calm = []) :
    resets calm = [] ∨
      ∃ last, (heads base).getLast? = some last ∧
        last.hash ≠ (destination head (resets base)).hash ∧
        resets calm = [(destination head (resets base), last)] := by
  revert hcalm
  apply h.rec_from heq
  case nil => exact fun _ => Or.inl rfl
  case concat =>
    intro calm d hd ih hcalm
    rw [heads_append, List.append_eq_nil_iff] at hcalm
    have hbefore := ih hcalm.1
    cases d with
    | started old new =>
      obtain ⟨_, _, hold, hnew, hhash⟩ := hd
      rw [heads_append, hcalm.1, List.append_nil] at hnew
      rcases hbefore with hnone | ⟨last, hlast, _, hone⟩
      · rw [resets_append, hnone, List.append_nil] at hold
        refine Or.inr ⟨new, hnew, ?_, ?_⟩
        · rw [← hold]
          exact hhash
        · rw [resets_append, hnone, hold]
          rfl
      · -- The one that has started leads there already.
        have hthere : destination head (resets (base ++ calm)) = last := by
          rw [resets_append, hone]
          simp [destination]
        rw [hthere] at hold
        rw [hold, ← Option.some.inj (hlast.symm.trans hnew)] at hhash
        exact absurd rfl hhash
    | _ => simpa using hbefore

end

/-- **Resets are sequential, chained and coalesced** (`ResetLoop::run`). -/
structure Sequential (head : Header) (log : List ResetEvent) : Prop where
  chained : Chained head (resets log)
  /-- A reset starts when the ones before it have ended, and goes to the last
  head that arrived, which has another digest. -/
  starts : ∀ before old new after, log = before ++ .started old new :: after →
    ends before = (resets before).length ∧ (heads before).getLast? = some new ∧ new.hash ≠ old.hash
  /-- While a reset is under way no other one starts. Of the heads that arrive
  meanwhile at most the last one is the target of another, until more arrive. -/
  coalesced : ∀ before old new during after,
    log = before ++ .started old new :: (during ++ .ended :: after) → .ended ∉ during →
      resets during = [] ∧
        ∀ calm later, after = calm ++ later → heads calm = [] →
          resets calm = [] ∨
            ∃ last, (heads during).getLast? = some last ∧ resets calm = [(new, last)]

theorem Lawful.sequential {head : Header} {log : List ResetEvent} (h : Lawful (Due head) log) :
    Sequential head log where
  chained := h.chained
  starts _ _ _ _ heq := h.due_started heq
  coalesced before old new during after heq hends := by
    have hnone := h.resets_eq_nil heq hends
    refine ⟨hnone, fun calm later hafter hcalm => ?_⟩
    have hbase : log = (before ++ .started old new :: (during ++ [.ended])) ++ calm ++ later := by
      simpa [hafter] using heq
    rcases (h.left hbase).resets_calm rfl hcalm with hquiet | ⟨last, hlast, hhash, hone⟩
    · exact Or.inl hquiet
    · have hthere :
          destination head (resets (before ++ .started old new :: (during ++ [.ended]))) = new := by
        simp [hnone, destination]
      rw [hthere] at hhash hone
      refine Or.inr ⟨last, ?_, hone⟩
      rcases List.eq_nil_or_concat (heads during) with hsilent | ⟨earlier, final, hfinal⟩
      · -- Without a head in between, the last one is where the reset led.
        have hstart := (h.due_started heq).2.1
        simp [hsilent, hstart] at hlast
        exact absurd (congrArg Header.hash hlast.symm) hhash
      · simpa [hfinal] using hlast

/-! ## The sub-pools and the head -/

variable {σ : Type}

/-- All resets, or all but the one under way. -/
def UpToLast (s : Pursuit σ) (list : List (Header × Header)) : Prop :=
  list = resets s.log ∨ ∃ last, s.pool.loop.running = some last ∧ resets s.log = list ++ [last]

/-- **The sub-pools see the chain of resets, and its heads are announced** after
all of them have. -/
structure Faithful (n : Nat) (s : Pursuit σ) : Prop where
  seen : ∀ pool < n, UpToLast s (seen s.log pool)
  completed : UpToLast s ((outcomes s.log).map Prod.fst)
  announced_eq : announced s.log = (outcomes s.log).map fun o => o.1.2
  /-- When a head is announced every sub-pool has been through all resets. -/
  whole : ∀ before old new after, s.log = before ++ .concluded old new true :: after →
    ∀ pool < n, Pursuit.seen before pool = resets before

section
variable {head : Header} {n : Nat} {s : Pursuit σ}

theorem upToLast_of_eq_ite {list : List (Header × Header)} {all : Bool} (h : Tracks head n s)
    (heq : list = if all then resets s.log else finished s.log) : UpToLast s list := by
  cases all with
  | true => exact Or.inl heq
  | false =>
    obtain rfl : list = finished s.log := heq
    cases hrun : s.pool.loop.running with
    | none => exact Or.inl (finished_eq_resets (h.follows.running_eq.symm.trans hrun))
    | some last =>
      exact Or.inr ⟨last, hrun, h.lawful.paced.resets_eq (h.follows.running_eq.symm.trans hrun)⟩

theorem Tracks.faithful (h : Tracks head n s) (hunbroken : Unbroken s.log) : Faithful n s where
  seen pool hpool := by
    have hseen : Pursuit.seen s.log pool
        = if decide (pool < s.reached) then resets s.log else finished s.log := by
      simpa using h.sweeps.seen_eq hunbroken pool hpool
    exact upToLast_of_eq_ite h hseen
  completed := upToLast_of_eq_ite h h.sweeps.outcomes_eq
  announced_eq := by
    rw [announced, List.filter_eq_self.mpr hunbroken]
  whole before old new after heq := (h.whole hunbroken).of_mem heq

end

section
variable [SubPool σ] {head : Header} {n : Nat} {s : Pursuit σ}

/-- A step announces the head of the reset under way, once all sub-pools are
through, or leaves the head, the count and what was announced alone. -/
def AnnouncesOrKeeps (s : Pursuit σ) (m : Move σ) : Prop :=
  (∃ old new, s.pool.loop.running = some (old, new) ∧ s.reached = s.pool.pools.length ∧
      s.step m = s.announce old new) ∨
    (announced (s.step m).log = announced s.log ∧ (s.step m).pool.head = s.pool.head ∧
      (s.step m).pool.resets = s.pool.resets)

theorem Tracks.announcesOrKeeps (h : Tracks head n s) (m : Move σ) : AnnouncesOrKeeps s m := by
  obtain ⟨events, heffect⟩ := h.effect m
  rcases heffect.announces with hnone | ⟨old, new, hrun, hall, hstep⟩
  · have h' := h.step m
    have hsame : announced (s.step m).log = announced s.log := by
      rw [heffect.log_eq, announced_append, hnone, List.append_nil]
    exact Or.inr ⟨hsame, by rw [h'.head_eq, hsame, h.head_eq], by rw [h'.resets_eq, hsame, h.resets_eq]⟩
  · have hle := h.sweeps.reached_le
    rw [← h.size] at hle
    exact Or.inl ⟨old, new, hrun, Nat.le_antisymm hle (Nat.not_lt.mp hall), hstep⟩

/-- **Following the chain.** Whatever happens between the steps, resets are
sequential, chained and coalesced; a loop at rest has caught up with the last
head that arrived; the current head and the count are those of the heads that
were announced, each when it was announced; and if no sub-pool breaks off, every
sub-pool sees the chain of resets and its heads are announced in order. A reset
that the coordinator carries out in one go is the run of its steps in a row. -/
theorem sequential_of_run {pools : List σ} {c : Coordinator σ}
    (hstart : Coordinator.start head pools = .running c) (moves : List (Move σ)) :
    let s := (begin c).run moves
    Sequential head s.log ∧
      (s.pool.loop.stopping = false → s.pool.loop.running = none →
        s.pool.loop.applied.hash = ((heads s.log).getLastD head).hash) ∧
      s.pool.head = (announced s.log).getLastD head ∧
      s.pool.resets = (announced s.log).length ∧
      (∀ m, AnnouncesOrKeeps s m) ∧
      (Unbroken s.log → Faithful c.pools.length s) ∧
      (∀ new, (s.step (.head new)).pool = s.pool.notify new) ∧
      (s.reached = 0 → s.concluded = false → ∀ views,
        s.run (carryOut views s.pool.pools.length)
          = { s with pool := s.pool.finishReset views, log := s.log ++ carriedOut views s.pool }) := by
  have hbegin := Tracks.begin hstart
  have h := hbegin.run moves
  refine ⟨h.lawful.sequential, fun hgoing hidle => ?_, h.head_eq, h.resets_eq, h.announcesOrKeeps,
    h.faithful, fun new => ?_, fun hreached hconcluded views => ?_⟩
  · have hsettled : Settled (begin c).pool.loop := fun _ _ => by
      rw [hbegin.follows.latest_eq, hbegin.follows.applied_eq]
      rfl
    rw [← settled_run hbegin hsettled moves hgoing hidle, h.follows.latest_eq]
  · exact pool_hear _ new
  · exact run_carryOut views hreached hconcluded

end

/-! Three heads arrive during one reset, and one more reset follows. -/

/-- A sub-pool that does what it is asked. -/
def quiet : ScriptedPool where
  name := "quiet"
  kinds := []
  attachError := none
  detachError := none
  breaksOff := false
  silent := false
  nonce := 0
  status := .unknown
  locals := []
  held := []

/-- A head with a digest of one letter. -/
def headOf (letter : UInt8) : Header := ⟨0, Vector.replicate 32 letter, Vector.replicate 32 0, 0⟩

/-- An execution layer that accepts everything. -/
def lenient : Backend := ⟨fun _ => .ok (), fun _ => 0⟩

/-- Heads arrive while the first sub-pool has been reset and the second has not. -/
def burst : List (Move ScriptedPool) :=
  [.head (headOf 1), .sweep lenient, .head (headOf 2), .head (headOf 1), .head (headOf 3),
    .sweep lenient, .complete, .done] ++ carryOut (fun _ => lenient) 2

theorem sequential_of_burst :
    ∃ c, Coordinator.start (headOf 0) [quiet, quiet] = .running c ∧
      Sequential (headOf 0) ((begin c).run burst).log ∧
      resets ((begin c).run burst).log = [(headOf 0, headOf 1), (headOf 1, headOf 3)] ∧
      ((begin c).run burst).pool.head = headOf 3 ∧ ((begin c).run burst).pool.resets = 2 ∧
      Faithful 2 ((begin c).run burst) := by
  refine ⟨_, rfl, ?_⟩
  obtain ⟨hsequential, _, hhead, hresets, _, hfaithful, _⟩ :=
    sequential_of_run (show Coordinator.start (headOf 0) [quiet, quiet] = .running _ from rfl) burst
  refine ⟨hsequential, by decide, hhead.trans ?_, hresets.trans ?_, hfaithful ?_⟩
  · decide
  · decide
  · decide

end Pursuit

end TxRelay
