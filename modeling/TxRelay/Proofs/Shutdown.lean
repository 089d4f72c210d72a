/-
The end of the reset loop.

Once the loop has taken the request to stop, nothing is due any more but the rest
of the reset under way, the report of the end, and the close. The report is due
only when every reset that was started is over and has ended. So whoever gets the
report finds the head of the last reset announced, unless a sub-pool broke off,
and no reset comes after it.
-/
import TxRelay.Proofs.ResetOrder

set_option autoImplicit false

namespace TxRelay

namespace Pursuit

/-! ## After the request to stop -/

section
variable {head : Header} {log base rest before after : List ResetEvent}

theorem Stopped.append (h : Stopped base) (rest : List ResetEvent) : Stopped (base ++ rest) := by
  obtain ⟨asked, hmem⟩ := h
  exact ⟨asked, List.mem_append_left _ hmem⟩

/-- No head is looked at after the request, no reset is started, and it is not
taken again. -/
theorem Lawful.after_stop (h : Lawful (Due head) log) (heq : log = base ++ rest)
    (hstop : Stopped base) :
    heads rest = [] ∧ resets rest = [] ∧ ∀ asked, ResetEvent.stopped asked ∉ rest := by
  apply h.rec_from heq
  case nil => exact ⟨rfl, rfl, fun _ => List.not_mem_nil⟩
  case concat =>
    intro rest d hd ⟨hheads, hresets, hstops⟩
    have hstill := hstop.append rest
    cases d with
    | heard new => exact absurd hstill hd
    | started old new => exact absurd hstill hd.1
    | stopped asked => exact absurd hstill hd
    | _ => exact ⟨by simpa using hheads, by simpa using hresets, by simpa using hstops⟩

/-- Without a reset under way nothing is left to happen but the report and the
close. -/
theorem Lawful.after_end (h : Lawful (Due head) log) (heq : log = base ++ rest)
    (hstop : Stopped base) (hidle : underWay? base = none) :
    (∀ d ∈ rest, d = .acknowledged ∨ d = .closed) ∧ resets rest = [] ∧ ends rest = 0 ∧
      outcomes rest = [] := by
  apply h.rec_from heq
  case nil => exact ⟨fun d hd => absurd hd List.not_mem_nil, rfl, rfl, rfl⟩
  case concat =>
    intro rest d hd ⟨hevents, hresets, hends, houtcomes⟩
    have hstill := hstop.append rest
    have hnothing : underWay? (base ++ rest) = none := (underWay?_append hresets hends).trans hidle
    have hlast : d = .acknowledged ∨ d = .closed := by
      cases d with
      | heard new => exact absurd hstill hd
      | started old new => exact absurd hstill hd.1
      | swept pool old new => exact absurd (hnothing.symm.trans hd.1) (Option.some_ne_none _).symm
      | concluded old new whole => exact absurd (hnothing.symm.trans hd.1) (Option.some_ne_none _).symm
      | ended =>
        rw [Due, hnothing] at hd
        cases hd.1
      | stopped asked => exact absurd hstill hd
      | acknowledged => exact Or.inl rfl
      | closed => exact Or.inr rfl
    refine ⟨List.forall_mem_append.mpr ⟨hevents, by simpa using hlast⟩, ?_⟩
    rcases hlast with rfl | rfl
    · simp [hresets, hends, houtcomes]
    · simp [hresets, hends, houtcomes]

/-- The report comes when every reset is over and has ended, and nothing but the
close comes after it. -/
theorem Lawful.due_acknowledged (h : Lawful (Due head) log)
    (heq : log = before ++ .acknowledged :: after) :
    ResetEvent.stopped true ∈ before ∧ underWay? before = none ∧
      (outcomes before).map Prod.fst = resets before ∧ resets log = resets before ∧
      ∀ d ∈ after, d = .closed := by
  obtain ⟨hstop, hidle, hconcluded, _⟩ := h.of_mem heq
  have hsplit : log = (before ++ [.acknowledged]) ++ after := by simpa using heq
  obtain ⟨hafter, hresets, _⟩ := h.after_end hsplit ⟨true, List.mem_append_left _ hstop⟩
    ((underWay?_append rfl rfl).trans hidle)
  refine ⟨hstop, hidle, hconcluded, by simp [hsplit, hresets], fun d hd =>
    (hafter d hd).resolve_left fun hagain => ?_⟩
  -- It comes once.
  subst hagain
  obtain ⟨first, rest, rfl⟩ := List.append_of_mem hd
  have hsecond : log = (before ++ .acknowledged :: first) ++ .acknowledged :: rest := by simpa using heq
  exact (h.of_mem hsecond).2.2.2 (by simp)

/-- The close comes after the report, and nothing comes after it. -/
theorem Lawful.due_closed (h : Lawful (Due head) log) (heq : log = before ++ .closed :: after) :
    ResetEvent.acknowledged ∈ before ∧ after = [] := by
  obtain ⟨hreport, hopen⟩ := h.of_mem heq
  refine ⟨hreport, List.eq_nil_iff_forall_not_mem.mpr fun d hd => ?_⟩
  obtain ⟨first, rest, rfl⟩ := List.append_of_mem hreport
  have hsplit : log = first ++ .acknowledged :: (rest ++ .closed :: after) := by simpa using heq
  obtain rfl := (h.due_acknowledged hsplit).2.2.2.2 d (by simp [hd])
  obtain ⟨first', rest', rfl⟩ := List.append_of_mem hd
  have hsecond : log = (first ++ .acknowledged :: rest ++ .closed :: first') ++ .closed :: rest' := by
    simpa using heq
  exact (h.of_mem hsecond).2 (by simp)

end

/-! ## The end -/

variable {σ : Type}

/-- **How the loop ends** that takes the request to stop at one moment, as seen at a later one
(`ResetLoop::run`). -/
structure WindsDown (asked : Bool) (s t : Pursuit σ) : Prop where
  /-- No reset is started any more. -/
  resets_eq : resets t.log = resets s.log
  /-- No head is looked at any more. -/
  heads_eq : heads t.log = heads s.log
  latest_eq : t.pool.loop.latest = s.pool.loop.latest
  /-- Without a reset under way the loop has ended at once, with nothing done. -/
  of_idle : s.pool.loop.running = none →
    t.pool.loop.ended = true ∧ outcomes t.log = outcomes s.log ∧ t.pool.head = s.pool.head ∧
      t.pool.resets = s.pool.resets
  /-- The end is reported only to someone who asked for it, and only when every
  reset is over and has ended; nothing but the close comes after the report. -/
  acknowledged : ∀ before after, t.log = before ++ .acknowledged :: after →
    asked = true ∧ ends before = (resets s.log).length ∧
      (outcomes before).map Prod.fst = resets s.log ∧ ∀ d ∈ after, d = .closed
  /-- With the report the reset that was under way is over, and its head has been
  announced and is the current one, unless a sub-pool broke off. -/
  of_told : t.told = true → t.pool.loop.ended = true ∧
    ∀ old new, s.pool.loop.running = some (old, new) →
      ∃ earlier whole, outcomes t.log = earlier ++ [((old, new), whole)] ∧
        (whole = true → t.pool.head = new ∧ (announced t.log).getLast? = some new)
  /-- With the report the head and the count are those of all resets, if no
  sub-pool has ever broken off. -/
  of_unbroken : t.told = true → Unbroken t.log →
    announced t.log = (resets s.log).map Prod.snd ∧ t.pool.resets = (resets s.log).length
  /-- The close comes after the report, and nothing comes after it. -/
  closed : ∀ before after, t.log = before ++ .closed :: after →
    ResetEvent.acknowledged ∈ before ∧ after = []

section
variable {head : Header} {n : Nat} {s t : Pursuit σ} {asked : Bool} {rest : List ResetEvent}

/-- What the log of a pursuit says about its end. -/
theorem Tracks.windsDown (hs : Tracks head n s) (ht : Tracks head n t)
    (hgoing : s.pool.loop.stopping = false)
    (hlog : t.log = (s.log ++ [.stopped asked]) ++ rest) : WindsDown asked s t := by
  have hstop : Stopped (s.log ++ [.stopped asked]) := ⟨asked, by simp⟩
  obtain ⟨hheads, hresets, hstops⟩ := ht.lawful.after_stop hlog hstop
  have hresets_eq : resets t.log = resets s.log := by simp [hlog, hresets]
  have hheads_eq : heads t.log = heads s.log := by simp [hlog, hheads]
  have hunstopped : ∀ asked', ResetEvent.stopped asked' ∉ s.log := fun asked' hmem => by
    rw [hs.follows.stopping_iff.mpr ⟨asked', hmem⟩] at hgoing
    cases hgoing
  have hasked : ResetEvent.stopped true ∈ t.log → asked = true := fun hmem => by
    simpa [hlog, hunstopped, hstops] using hmem
  have htold : t.told = true →
      t.pool.loop.ended = true ∧ (outcomes t.log).map Prod.fst = resets s.log := fun htold => by
    have hended := ht.ended_of_told htold
    have hidle := ht.follows.running_eq.symm.trans (ended_iff.mp hended).2
    refine ⟨hended, ?_⟩
    rw [ht.sweeps.outcomes_eq, (ht.sweeps.of_idle hidle).2, ← hresets_eq]
    exact finished_eq_resets hidle
  exact {
    resets_eq := hresets_eq
    heads_eq := hheads_eq
    latest_eq := by rw [ht.follows.latest_eq, hs.follows.latest_eq, hheads_eq]
    of_idle := fun hidle => by
      have hnothing : underWay? s.log = none := hs.follows.running_eq.symm.trans hidle
      obtain ⟨_, _, hends, houtcomes⟩ :=
        ht.lawful.after_end hlog hstop ((underWay?_append rfl rfl).trans hnothing)
      have hsame : outcomes t.log = outcomes s.log := by simp [hlog, houtcomes]
      have hannounced : announced t.log = announced s.log := by rw [announced, hsame, announced]
      have hrunning : t.pool.loop.running = none := by
        rw [ht.follows.running_eq, hlog, underWay?_append hresets hends, underWay?_append rfl rfl, hnothing]
      have hstopping : t.pool.loop.stopping = true := by
        rw [ht.follows.stopping_iff, hlog]
        exact hstop.append rest
      refine ⟨ended_iff.mpr ⟨hstopping, hrunning⟩, hsame, ?_, ?_⟩
      · rw [ht.head_eq, hs.head_eq, hannounced]
      · rw [ht.resets_eq, hs.resets_eq, hannounced]
    acknowledged := fun before after heq => by
      obtain ⟨hmem, hidle, hconcluded, hall, hafter⟩ := ht.lawful.due_acknowledged heq
      have hbefore : resets before = resets s.log := hall.symm.trans hresets_eq
      have hrequest : ResetEvent.stopped true ∈ t.log := by
        rw [heq]
        exact List.mem_append_left _ hmem
      refine ⟨hasked hrequest, ?_, hconcluded.trans hbefore, hafter⟩
      rw [← hbefore]
      exact (ht.lawful.left heq).paced.ends_eq hidle
    of_told := fun h => by
      obtain ⟨hended, hconcluded⟩ := htold h
      refine ⟨hended, fun old new hrun => ?_⟩
      rw [hs.lawful.paced.resets_eq (hs.follows.running_eq.symm.trans hrun)] at hconcluded
      obtain ⟨earlier, last, houtcomes, _, hlast⟩ := List.map_eq_append_iff.mp hconcluded
      obtain ⟨⟨_, whole⟩, rfl, rfl⟩ := List.map_eq_singleton_iff.mp hlast
      refine ⟨earlier, whole, houtcomes, fun hwhole => ?_⟩
      rw [ht.head_eq, announced, houtcomes, hwhole]
      constructor <;> simp
    of_unbroken := fun h hunbroken => by
      have hall : announced t.log = (resets s.log).map Prod.snd := by
        rw [← (htold h).2, announced, List.filter_eq_self.mpr hunbroken, List.map_map]
        rfl
      exact ⟨hall, by rw [ht.resets_eq, hall, List.length_map]⟩
    closed := fun before after heq => ht.lawful.due_closed heq }

end

section
variable [SubPool σ] {head : Header}

/-- **Shutdown.** Whatever happened before and whatever happens later, a loop
that takes the request to stop starts no reset and looks at no head any more. It
ends at once or with the reset under way, whose head is announced before the end
is reported; and after the close nothing happens. Closing the coordinator in one
go is one such run, and after it there is nothing to be told and no reset to be
carried out. -/
theorem winds_down_of_run {pools : List σ} {c : Coordinator σ}
    (hstart : Coordinator.start head pools = .running c) (moves later : List (Move σ)) (asked : Bool) :
    let s := (begin c).run moves
    let t := (s.step (.stop asked)).run later
    s.pool.loop.stopping = false →
      WindsDown asked s t ∧
      (∀ m, AnnouncesOrKeeps t m) ∧
      t.pool.resets = (announced t.log).length ∧
      (t.pool.loop.ended = true → asked = true → (t.step .acknowledge).told = true) ∧
      (s.reached = 0 → s.concluded = false → ∀ views,
        (∃ later, ((s.step (.stop true)).run later).pool = (s.pool.close views).1) ∧
        (∀ new, (s.pool.close views).1.notify new = (s.pool.close views).1) ∧
        ∀ views', (s.pool.close views).1.finishReset views' = (s.pool.close views).1) := by
  intro s t hgoing
  have hs : Tracks head c.pools.length s := (Tracks.begin hstart).run moves
  have ht : Tracks head c.pools.length t := (hs.step (.stop asked)).run later
  have hhalted : s.step (.stop asked) = s.halted asked :=
    if_neg (by rw [hgoing]; exact Bool.false_ne_true)
  obtain ⟨rest, hrest⟩ := log_run (hs.step (.stop asked)) later
  have hlog : t.log = (s.log ++ [.stopped asked]) ++ rest := by
    rw [← hrest, hhalted]
    rfl
  refine ⟨hs.windsDown ht hgoing hlog, ht.announcesOrKeeps, ht.resets_eq, fun hended hasked => ?_,
    fun hreached hconcluded views => ?_⟩
  · have hawaited : t.awaited = true := by
      rw [ht.awaited_iff, hlog, hasked]
      simp
    rw [step, acknowledge, hended, hawaited]
    cases htold : t.told with
    | true => exact htold
    | false => rfl
  · -- A loop that goes on has not reported its end, so the coordinator is open.
    have huntold : s.told = false := Bool.eq_false_iff.mpr fun htold => by
      have hstopping := (ended_iff.mp (hs.ended_of_told htold)).1
      rw [hgoing] at hstopping
      cases hstopping
    have hopen : s.pool.closed = false := Bool.eq_false_iff.mpr fun hclosed => by
      obtain ⟨before, after, heq⟩ := List.append_of_mem (hs.closed_iff.mp hclosed)
      have hreport := (hs.lawful.due_closed heq).1
      rw [hs.told_iff.mpr (by rw [heq]; exact List.mem_append_left _ hreport)] at huntold
      cases huntold
    have hended := ended_close views hopen
    exact ⟨⟨_, pool_shutDown views hreached hconcluded hgoing huntold hopen⟩, notify_of_ended hended,
      fun views' => finishReset_of_ended views' hended⟩

end

/-! The loop is asked to stop while a reset is under way and another head has
arrived. -/

/-- A head has arrived during a reset. -/
def midway : List (Move ScriptedPool) :=
  [.head (headOf 1), .sweep lenient, .head (headOf 2)]

/-- The reset goes on, another head arrives, and whoever waits closes the
coordinator as soon as possible. -/
def hurry : List (Move ScriptedPool) :=
  [.acknowledge, .head (headOf 3), .sweep lenient, .complete, .acknowledge, .done, .acknowledge,
    .close fun _ => lenient, .head (headOf 4)]

theorem winds_down_of_hurry :
    ∃ c, Coordinator.start (headOf 0) [quiet, quiet] = .running c ∧
      ((begin c).run midway).pool.loop.stopping = false ∧
      WindsDown true ((begin c).run midway) ((((begin c).run midway).step (.stop true)).run hurry) ∧
      ((((begin c).run midway).step (.stop true)).run hurry).log =
        [.heard (headOf 1), .started (headOf 0) (headOf 1), .swept 0 (headOf 0) (headOf 1),
          .heard (headOf 2), .stopped true, .swept 1 (headOf 0) (headOf 1),
          .concluded (headOf 0) (headOf 1) true, .ended, .acknowledged, .closed] := by
  refine ⟨_, rfl, by decide, ?_, by decide⟩
  exact (winds_down_of_run (show Coordinator.start (headOf 0) [quiet, quiet] = .running _ from rfl)
    midway hurry true (by decide)).1

end Pursuit

end TxRelay
