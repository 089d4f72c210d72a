/-
A stream gives what a subscription gives.

A subscription looks for the first announcement that it wants among all that is
kept for it. A stream is handed the same announcements one by one, is told when some
were lost, and leaves aside what it does not want. Leaving aside what is unwanted
changes nothing of what is found, and neither does hearing of a loss: so both stop
at the same place, with the same outcome, and leave the same bus.
-/
import TxRelay.Bus.Stream
import TxRelay.Proofs.Backlog

set_option autoImplicit false

namespace TxRelay.Bus

/-! ## One reading -/

section
variable {b : Bus} {id : Nat} {s : Subscriber}

/-- A subscriber that stays where it is has not moved. -/
theorem moved_self (hs : b.subscribers[id]? = some s) : b.moved id s s.position = b := by
  have hsubscribers : b.subscribers.insert id s = b.subscribers := by
    refine Std.ExtTreeMap.ext_getElem? fun {k} => ?_
    rw [Entries.getElem?_insert]
    split
    · next heq => rw [← heq, hs]
    · rfl
  exact congrArg (fun subscribers => { b with subscribers }) hsubscribers

theorem moveTo_eq_moved (hs : b.subscribers[id]? = some s) (position : Nat) :
    b.moveTo id position = b.moved id s position := by
  have hsubscribers : (b.subscribers.modify id fun s => { s with position })
      = b.subscribers.insert id { s with position } := by
    refine Std.ExtTreeMap.ext_getElem? fun {k} => ?_
    rw [Entries.getElem?_insert, Std.ExtTreeMap.getElem?_modify]
    by_cases hk : id = k
    · subst hk
      simp [hs]
    · simp [hk]
  exact congrArg (fun subscribers => { b with subscribers }) hsubscribers

/-- **What a reading depends on**: where the subscriber is, and what is due to it. -/
theorem read_eq (hs : b.subscribers[id]? = some s) :
    b.read id = match firstWanted s.topics (max s.position b.oldest) (b.due s) with
      | some (e, position) => (b.moved id s position, .event e)
      | none => (b.moved id s b.sent, if b.closed then .ended else .waiting) := by
  rw [read, hs]
  rfl

theorem firstWanted_skip {topics : List Topic} {skipped : List Event}
    (hskipped : ∀ x ∈ skipped, x.matches topics = false) (position : Nat) (rest : List Event) :
    firstWanted topics position (skipped ++ rest)
      = firstWanted topics (position + skipped.length) rest := by
  induction skipped generalizing position with
  | nil => rfl
  | cons x skipped ih =>
    obtain ⟨hx, hskipped⟩ := List.forall_mem_cons.mp hskipped
    rw [List.cons_append, firstWanted, hx, if_neg Bool.false_ne_true, ih hskipped, List.length_cons]
    congr 1
    omega

/-- **Leaving aside what is unwanted** changes nothing of what is read. -/
theorem read_moved (hs : b.subscribers[id]? = some s) {skipped rest : List Event}
    (hdue : b.due s = skipped ++ rest) (hskipped : ∀ x ∈ skipped, x.matches s.topics = false) :
    (b.moved id s (max s.position b.oldest + skipped.length)).read id = b.read id := by
  have hrest := due_of_append hdue
  rw [read_eq hs, hdue, firstWanted_skip hskipped, read_eq (subscribers_moved b id s _)]
  show (match firstWanted s.topics (max (max s.position b.oldest + skipped.length) b.oldest)
      (b.due { s with position := max s.position b.oldest + skipped.length }) with
    | some (e, position) => (_, Reading.event e)
    | none => (_, _)) = _
  rw [oldest, hrest, Nat.max_eq_left (by omega)]
  split
  · rw [moved_moved]
  · rw [moved_moved]
    rfl

/-- What is due to a subscriber that has lost nothing. -/
theorem due_of_oldest_le (hposition : b.oldest ≤ s.position) : b.due s = b.since s.position := by
  rw [due, ← oldest, Nat.max_eq_left hposition]

/-- **Taking piece after piece** until one is wanted is reading, if nothing was lost. -/
theorem nextFor_eq_read {fuel : Nat} (hs : b.subscribers[id]? = some s)
    (hlost : b.oldest ≤ s.position) (hsent : s.position ≤ b.sent) (hfuel : (b.due s).length < fuel) :
    nextFor fuel b id = b.read id := by
  induction fuel generalizing b s with
  | zero => cases hfuel
  | succ fuel ih =>
    have hmax : max s.position b.oldest = s.position := Nat.max_eq_left hlost
    rw [nextFor, poll, hs]
    dsimp only
    rw [if_neg (Nat.not_lt_of_le hlost), ← due_of_oldest_le hlost]
    cases hdue : b.due s with
    | nil =>
      -- Nothing is due, so the subscriber is at the end.
      have hend : s.position = b.sent := by
        rw [due_of_oldest_le hlost, since, List.reverse_eq_nil_iff, List.take_eq_nil_iff] at hdue
        rw [oldest] at hlost
        rcases hdue with hnone | hempty
        · omega
        · rw [hempty, List.length_nil] at hlost
          omega
      rw [read_eq hs, hdue, ← hend, firstWanted, moved_self hs]
      cases b.closed with
      | false => rfl
      | true => rfl
    | cons e rest =>
      have hmoved := subscribers_moved b id s (s.position + 1)
      dsimp only
      rw [moveTo_eq_moved hs, wants, hmoved]
      dsimp only
      by_cases he : e.matches s.topics = true
      · rw [if_pos he, read_eq hs, hdue, hmax, firstWanted, if_pos he]
      · have hunwanted : e.matches s.topics = false := Bool.eq_false_iff.mpr he
        have hfirst : b.due s = [e] ++ rest := hdue
        have hskip := read_moved hs hfirst (by simpa using hunwanted)
        have hshort := due_of_append hfirst
        rw [← oldest] at hshort
        rw [hmax, List.length_singleton] at hskip hshort
        rw [if_neg he, ← hskip]
        refine ih hmoved ?_ ?_ ?_
        · exact Nat.le_succ_of_le hlost
        · show s.position + 1 ≤ b.sent
          have hlength := congrArg List.length hdue
          rw [due_of_oldest_le hlost, since, List.length_reverse, List.length_take,
            List.length_cons] at hlength
          omega
        · show (b.due { s with position := s.position + 1 }).length < fuel
          rw [hdue, List.length_cons] at hfuel
          rw [hshort]
          omega

/-- **A stream gives what a subscription gives**, and leaves the same bus. -/
theorem next_eq_read (hs : b.subscribers[id]? = some s) (hsent : s.position ≤ b.sent) :
    b.next id = b.read id := by
  by_cases hlost : b.oldest ≤ s.position
  · exact nextFor_eq_read hs hlost hsent (Nat.lt_succ_of_le (Nat.le_succ_of_le (b.length_due_le s)))
  · -- The first piece is the news of the loss, which takes the stream to what is kept.
    have hmax : max s.position b.oldest = b.oldest := Nat.max_eq_right (by omega)
    have hskip := read_moved hs (show b.due s = [] ++ b.due s from rfl) nofun
    rw [hmax, List.length_nil, Nat.add_zero] at hskip
    rw [next, nextFor, poll, hs]
    dsimp only
    rw [if_pos (Nat.lt_of_not_le hlost), moveTo_eq_moved hs, ← hskip]
    refine nextFor_eq_read (subscribers_moved b id s b.oldest) (Nat.le_refl _) (Nat.sub_le _ _) ?_
    exact Nat.lt_succ_of_le ((b.moved id s b.oldest).length_due_le _)

/-- Whoever has a backlog is not ahead of the bus. -/
theorem Attended.next_eq (h : Attended b) (id : Nat) : b.next id = b.read id := by
  cases hs : b.subscribers[id]? with
  | none => simp [next, nextFor, poll, read, hs]
  | some s =>
    obtain ⟨unread, hbacklog⟩ := h id s hs
    obtain ⟨s', hs', _, hposition⟩ := hbacklog.subscriber
    obtain rfl := Option.some.inj (hs.symm.trans hs')
    exact next_eq_read hs (by omega)

end

/-! ## Runs with streams -/

/-- What a listener takes next. A stream takes it piece after piece. -/
def receive (streams : Nat → Bool) (b : Bus) (id : Nat) : Bus × Reading :=
  if streams id then b.next id else b.read id

/-- The bus after an action, if some listeners are streams. -/
def actAmong (streams : Nat → Bool) (b : Bus) : Action → Bus
  | .read id => (b.receive streams id).1
  | a => b.act a

/-- What a listener is given in a run, if some listeners are streams. -/
def readingsAmong (streams : Nat → Bool) (b : Bus) (id : Nat) : List Action → List Reading
  | [] => []
  | a :: rest =>
    (if a = .read id then [(b.receive streams id).2] else []) ++
      (b.actAmong streams a).readingsAmong streams id rest

/-- A run of two listeners that nobody else reads or drops: whenever the first one
is read, so is the second one. -/
def jointly (first second : Nat) (h : List Action) : List Action :=
  (h.filter fun a => a ≠ .drop first ∧ a ≠ .drop second ∧ a ≠ .read second).flatMap fun a =>
    if a = .read first then [a, .read second] else [a]

section
variable {b : Bus} {first second : Nat} {s : Subscriber}

/-- **In a run a stream can stand for a subscription**, and nobody is given anything
else for it. -/
theorem Attended.readingsAmong_eq (h : Attended b) (streams : Nat → Bool) (id : Nat)
    (run : List Action) : b.readingsAmong streams id run = b.readings id run := by
  have hreceive : ∀ {b : Bus}, Attended b → ∀ id, b.receive streams id = b.read id := by
    intro b h id
    rw [receive]
    split
    · exact h.next_eq id
    · rfl
  induction run generalizing b with
  | nil => rfl
  | cons a rest ih =>
    have hact : b.actAmong streams a = b.act a := by
      cases a with
      | read other => exact congrArg Prod.fst (hreceive h other)
      | _ => rfl
    rw [readingsAmong, readings, reading?, hact, ih (h.act a), hreceive h]
    split
    · rfl
    · rfl

/-- Two listeners are at the same place, with the same wishes. -/
structure Aligned (b : Bus) (first second : Nat) (s : Subscriber) : Prop where
  ne : first ≠ second
  first_lt : first < b.nextId
  second_lt : second < b.nextId
  first_eq : b.subscribers[first]? = some s
  second_eq : b.subscribers[second]? = some s

theorem Aligned.moved (h : Aligned b first second s) (position : Nat) :
    Aligned ((b.moved first s position).moved second s position) first second
      { s with position } where
  ne := h.ne
  first_lt := h.first_lt
  second_lt := h.second_lt
  first_eq := by
    show ((b.moved first s position).subscribers.insert second _)[first]? = _
    rw [Entries.getElem?_insert, if_neg (Ne.symm h.ne)]
    exact subscribers_moved b first s position
  second_eq := subscribers_moved _ second s position

/-- Read one after the other, two such listeners are given the same, and are at the
same place again. -/
theorem Aligned.read (h : Aligned b first second s) :
    ((b.read first).1.read second).2 = (b.read first).2 ∧
      ∃ s', Aligned ((b.read first).1.read second).1 first second s' := by
  have hsecond : ∀ position, (b.moved first s position).subscribers[second]? = some s := by
    intro position
    show (b.subscribers.insert first _)[second]? = _
    rw [Entries.getElem?_insert, if_neg h.ne]
    exact h.second_eq
  -- Where the first one goes is no matter for what is due to the second one.
  have hdue : ∀ position, (b.moved first s position).due s = b.due s := fun _ => rfl
  have holdest : ∀ position, (b.moved first s position).oldest = b.oldest := fun _ => rfl
  cases hfirst : firstWanted s.topics (max s.position b.oldest) (b.due s) with
  | none =>
    rw [read_eq h.first_eq, hfirst]
    dsimp only
    rw [read_eq (hsecond b.sent), hdue, holdest, hfirst]
    exact ⟨rfl, _, h.moved b.sent⟩
  | some found =>
    obtain ⟨e, position⟩ := found
    rw [read_eq h.first_eq, hfirst]
    dsimp only
    rw [read_eq (hsecond position), hdue, holdest, hfirst]
    exact ⟨rfl, _, h.moved position⟩

theorem subscribers_act {id : Nat} {a : Action} (hid : id < b.nextId) (hread : a ≠ .read id)
    (hdrop : a ≠ .drop id) : (b.act a).subscribers[id]? = b.subscribers[id]? := by
  cases hoffer : offer? b.closed a with
  | none => exact (undisturbed_act hid hoffer hread hdrop).subscriber_eq
  | some e =>
    cases a with
    | publish e' =>
      have hopen : b.closed = false := by
        cases hclosed : b.closed with
        | false => rfl
        | true => simp [offer?, hclosed] at hoffer
      rw [act, publish_of_open hopen]
    | _ => simp [offer?] at hoffer

theorem nextId_le_act (b : Bus) (a : Action) : b.nextId ≤ (b.act a).nextId := by
  cases a with
  | subscribe topics => exact Nat.le_succ _
  | publish e =>
    cases hclosed : b.closed with
    | false => exact Nat.le_of_eq (congrArg nextId (publish_of_open hclosed e)).symm
    | true => exact Nat.le_of_eq (congrArg (fun p => nextId p.1) (publish_of_closed hclosed e)).symm
  | read id =>
    rcases b.read_eq_or_moved id with h | ⟨s, position, h⟩
    · exact Nat.le_of_eq (congrArg nextId h).symm
    · exact Nat.le_of_eq (congrArg nextId h).symm
  | drop id => exact Nat.le_refl _
  | close => exact Nat.le_refl _

theorem Aligned.act (h : Aligned b first second s) {a : Action} (hread : a ≠ .read first)
    (hread' : a ≠ .read second) (hdrop : a ≠ .drop first) (hdrop' : a ≠ .drop second) :
    Aligned (b.act a) first second s where
  ne := h.ne
  first_lt := Nat.lt_of_lt_of_le h.first_lt (nextId_le_act b a)
  second_lt := Nat.lt_of_lt_of_le h.second_lt (nextId_le_act b a)
  first_eq := (subscribers_act h.first_lt hread hdrop).trans h.first_eq
  second_eq := (subscribers_act h.second_lt hread' hdrop').trans h.second_eq

/-- **Two listeners that are read at the same points** of a run are given the same. -/
theorem Aligned.readings_jointly (h : Aligned b first second s) (run : List Action) :
    b.readings first (jointly first second run) = b.readings second (jointly first second run) := by
  induction run generalizing b s with
  | nil => rfl
  | cons a rest ih =>
    by_cases hothers : a ≠ .drop first ∧ a ≠ .drop second ∧ a ≠ .read second
    · have hstep : jointly first second (a :: rest)
          = (if a = .read first then [a, .read second] else [a]) ++ jointly first second rest := by
        rw [jointly, List.filter_cons, if_pos (by simpa using hothers), List.flatMap_cons]
        rfl
      rw [hstep]
      by_cases hread : a = .read first
      · subst hread
        obtain ⟨hsame, s', h'⟩ := h.read
        have hne : Action.read first ≠ .read second := by simpa using h.ne
        rw [if_pos rfl]
        simp only [List.cons_append, List.nil_append, readings, reading?, if_pos, if_neg hne,
          if_neg (Ne.symm hne), Option.toList_none, Option.toList_some]
        show [(b.read first).2] ++ ([] ++ ((b.read first).1.read second).1.readings first _)
          = [] ++ ([((b.read first).1.read second).2] ++ ((b.read first).1.read second).1.readings second _)
        rw [hsame, ih h']
        rfl
      · have h' := h.act hread hothers.2.2 hothers.1 hothers.2.1
        rw [if_neg hread]
        simp only [List.singleton_append, readings, reading?, if_neg hread, if_neg hothers.2.2,
          Option.toList_none, List.nil_append]
        exact ih h'
    · have hskip : jointly first second (a :: rest) = jointly first second rest := by
        rw [jointly, List.filter_cons, if_neg (by simpa using hothers)]
        rfl
      rw [hskip]
      exact ih h

theorem aligned_subscribe (b : Bus) (topics : List Topic) :
    Aligned ((b.subscribe topics).1.subscribe topics).1 (b.subscribe topics).2
      ((b.subscribe topics).1.subscribe topics).2 ⟨topics, b.sent⟩ where
  ne := Nat.ne_of_lt (Nat.lt_succ_self b.nextId)
  first_lt := Nat.lt_succ_of_lt (Nat.lt_succ_self b.nextId)
  second_lt := Nat.lt_succ_self _
  first_eq := by
    show ((b.subscribers.insert b.nextId _).insert (b.nextId + 1) _)[b.nextId]? = _
    rw [Entries.getElem?_insert, if_neg (Nat.succ_ne_self b.nextId), Entries.getElem?_insert, if_pos rfl]
  second_eq := by
    show ((b.subscribers.insert b.nextId _).insert (b.nextId + 1) _)[b.nextId + 1]? = _
    rw [Entries.getElem?_insert, if_pos rfl]
    rfl

/-- **Streams and subscriptions are interchangeable.** In any run each listener is
given the same, whichever listeners are streams. And two listeners that are made at
one point of a run, for the same topics, are given the same whenever they are read at
the same points, whichever of them is a stream. -/
theorem streams_interchangeable (capacity : Nat) (before : List Action) (topics : List Topic)
    (after : List Action) (streams : Nat → Bool) :
    (∀ id, (new capacity).readingsAmong streams id before = (new capacity).readings id before) ∧
      let made := ((new capacity).run before).subscribe topics
      let made' := made.1.subscribe topics
      made'.1.readingsAmong streams made.2 (jointly made.2 made'.2 after)
        = made'.1.readingsAmong streams made'.2 (jointly made.2 made'.2 after) := by
  have hnew := attended_new capacity
  refine ⟨fun id => hnew.readingsAmong_eq streams id before, ?_⟩
  intro made made'
  have hmade : Attended made'.1 := ((hnew.run before).act (.subscribe topics)).act (.subscribe topics)
  rw [hmade.readingsAmong_eq, hmade.readingsAmong_eq]
  exact (aligned_subscribe _ topics).readings_jointly after

end

end TxRelay.Bus
