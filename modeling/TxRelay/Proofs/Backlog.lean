/-
What a subscriber of a bus has still to read.

A subscriber has a backlog: everything that was sent since it last looked. The
bus keeps the end of it, as much as it has slots, so what a reading passes over
is either unwanted or was followed by as many further events as the bus keeps.
An action does one of four things to a subscriber: it sends it something, gives
it something to read, tells it that there is nothing, or does not concern it.

A run is any sequence of actions of anybody on the bus. Whoever listens at some point of a
run from a new bus has a backlog.
-/
import TxRelay.Proofs.Delivery

set_option autoImplicit false

namespace TxRelay.Bus

/-! ## Runs -/

/-- What is done with a bus (`InMemoryEventBus`). -/
inductive Action where
  | subscribe (topics : List Topic)
  | publish (e : Event)
  /-- A subscriber reads, waiting or not. -/
  | read (id : Nat)
  | drop (id : Nat)
  | close
deriving DecidableEq

/-- The bus after an action. -/
def act (b : Bus) : Action → Bus
  | .subscribe topics => (b.subscribe topics).1
  | .publish e => (b.publish e).1
  | .read id => (b.read id).1
  | .drop id => b.drop id
  | .close => b.close

/-- The bus after some actions. -/
def run (b : Bus) (h : List Action) : Bus := h.foldl act b

/-- What an action gives a subscriber to read, if it is a reading of it. -/
def reading? (b : Bus) (id : Nat) (a : Action) : Option Reading :=
  if a = .read id then some (b.read id).2 else none

/-- What the readings of a subscriber give. -/
def readings (b : Bus) (id : Nat) : List Action → List Reading
  | [] => []
  | a :: rest => (b.reading? id a).toList ++ (b.act a).readings id rest

/-- The events among what was read. -/
def received (rs : List Reading) : List Event :=
  rs.filterMap fun
    | .event e => some e
    | _ => none

/-- The event that an action sends, if it is published before the bus is closed. -/
def offer? (closed : Bool) : Action → Option Event
  | .publish e => if closed then none else some e
  | _ => none

/-- **The events that are published before the bus is closed.** -/
def offered (closed : Bool) : List Action → List Event
  | [] => []
  | a :: rest => (offer? closed a).toList ++ offered (closed || a == .close) rest

/-- How many times something is published. -/
def publications (h : List Action) : Nat :=
  h.countP fun
    | .publish _ => true
    | _ => false

section
variable {b : Bus} {id : Nat} {a : Action} {h h' : List Action}

theorem run_append (b : Bus) (h h' : List Action) : b.run (h ++ h') = (b.run h).run h' :=
  List.foldl_append

theorem readings_append (b : Bus) (id : Nat) (h h' : List Action) :
    b.readings id (h ++ h') = b.readings id h ++ (b.run h).readings id h' := by
  induction h generalizing b with
  | nil => rfl
  | cons a rest ih =>
    rw [List.cons_append, readings, readings, ih, List.append_assoc]
    rfl

theorem received_append (rs rs' : List Reading) : received (rs ++ rs') = received rs ++ received rs' :=
  List.filterMap_append

/-- A reading only moves a subscriber, if it does anything. -/
theorem read_eq_or_moved (b : Bus) (id : Nat) :
    (b.read id).1 = b ∨ ∃ s position, (b.read id).1 = b.moved id s position := by
  unfold read
  split
  · exact Or.inl rfl
  · next s hs =>
    dsimp only
    split
    · next e position hwanted => exact Or.inr ⟨s, position, rfl⟩
    · exact Or.inr ⟨s, b.sent, rfl⟩

/-- **A closed bus** counts what is published, and delivers nothing. -/
theorem publish_of_closed (hclosed : b.closed = true) (e : Event) :
    b.publish e = ({ b with published := b.published + 1 }, 0) := by
  unfold publish
  dsimp only
  rw [if_pos hclosed]

theorem publish_of_open (hopen : b.closed = false) (e : Event) :
    (b.publish e).1 = { b with published := b.published + 1, sent := b.sent + 1,
                               recent := (e :: b.recent).take b.slots } := by
  unfold publish
  dsimp only
  rw [hopen, if_neg Bool.false_ne_true]
  rfl

/-- A bus is closed by closing it, and by nothing else. -/
theorem closed_act (b : Bus) (a : Action) : (b.act a).closed = (b.closed || a == .close) := by
  cases a with
  | subscribe topics => simp [act, subscribe]
  | publish e =>
    cases hclosed : b.closed with
    | false => simp [act, publish_of_open hclosed, hclosed]
    | true => simp [act, publish_of_closed hclosed, hclosed]
  | read id =>
    rcases b.read_eq_or_moved id with h | ⟨s, position, h⟩
    · simp [act, h]
    · simp [act, h, moved]
  | drop id => simp [act, drop]
  | close => simp [act, close]

theorem slots_act (b : Bus) (a : Action) : (b.act a).slots = b.slots := by
  have hcapacity : (b.act a).capacity = b.capacity := by
    cases a with
    | subscribe topics => rfl
    | publish e =>
      cases hclosed : b.closed with
      | false => simp [act, publish_of_open hclosed]
      | true => simp [act, publish_of_closed hclosed]
    | read id =>
      rcases b.read_eq_or_moved id with h | ⟨s, position, h⟩
      · rw [act, h]
      · rw [act, h, moved]
    | drop id => rfl
    | close => rfl
  rw [slots, slots, hcapacity]

theorem closed_run (b : Bus) (h : List Action) :
    (b.run h).closed = (b.closed || h.contains .close) := by
  induction h generalizing b with
  | nil => simp [run]
  | cons a rest ih =>
    show ((b.act a).run rest).closed = _
    rw [ih, closed_act, List.contains_cons, Bool.or_assoc, Bool.beq_comm]

theorem slots_run (b : Bus) (h : List Action) : (b.run h).slots = b.slots := by
  induction h generalizing b with
  | nil => rfl
  | cons a rest ih =>
    show ((b.act a).run rest).slots = _
    rw [ih, slots_act]

/-- **Everything published is counted**, before and after the bus is closed. -/
theorem published_run (b : Bus) (h : List Action) :
    (b.run h).published = b.published + publications h := by
  induction h generalizing b with
  | nil => rfl
  | cons a rest ih =>
    show ((b.act a).run rest).published = _
    rw [ih, publications, publications, List.countP_cons]
    cases a with
    | publish e =>
      cases hclosed : b.closed with
      | false => simp [act, publish_of_open hclosed]; omega
      | true => simp [act, publish_of_closed hclosed]; omega
    | read id =>
      rcases b.read_eq_or_moved id with h | ⟨s, position, h⟩
      · simp [act, h]
      · simp [act, h, moved]
    | subscribe topics => simp [act, subscribe]
    | drop id => simp [act, drop]
    | close => simp [act, close]

end

/-! ## Backlogs -/

/-- **The backlog of a subscriber**: everything that was sent since it looked (`Subscription`).
The bus keeps the last of it. -/
structure Backlog (b : Bus) (id : Nat) (topics : List Topic) (unread : List Event) : Prop where
  subscriber : ∃ s, b.subscribers[id]? = some s ∧ s.topics = topics ∧
    s.position + unread.length = b.sent
  kept : b.recent.take unread.length = unread.reverse.take b.slots
  id_lt : id < b.nextId

/-- **What a reading passes over** on its way to what comes after: all of it is
unwanted, or was followed by as many events as the bus keeps. -/
def PassedOver (c : Nat) (topics : List Topic) (skipped after : List Event) : Prop :=
  ∀ l x r, skipped = l ++ x :: r → x.matches topics = false ∨ c ≤ r.length + after.length

/-- **What an action is to a subscriber**: the backlog before, what is sent, what is
read, and the backlog afterwards. -/
inductive Turn (c : Nat) (topics : List Topic) (closed : Bool) :
    List Event → Option Event → Option Reading → List Event → Prop where
  | sent {unread : List Event} (e : Event) (hopen : closed = false) :
    Turn c topics closed unread (some e) none (unread ++ [e])
  | quiet {unread : List Event} : Turn c topics closed unread none none unread
  | event {skipped rest : List Event} {e : Event} (hskipped : PassedOver c topics skipped (e :: rest))
    (he : e.matches topics = true) :
    Turn c topics closed (skipped ++ e :: rest) none (some (.event e)) rest
  | nothing {unread : List Event} (hunread : PassedOver c topics unread []) :
    Turn c topics closed unread none (some (if closed then .ended else .waiting)) []

section
variable {b : Bus} {id : Nat} {topics : List Topic} {unread : List Event}

theorem slots_pos (b : Bus) : 0 < b.slots := Nat.pos_of_isPowerOfTwo (Nat.isPowerOfTwo_nextPowerOfTwo _)

/-- A new subscriber has no backlog. -/
theorem backlog_subscribe (b : Bus) (topics : List Topic) :
    Backlog (b.subscribe topics).1 (b.subscribe topics).2 topics [] where
  subscriber := by
    refine ⟨⟨topics, b.sent⟩, ?_, rfl, rfl⟩
    show (b.subscribers.insert b.nextId _)[b.nextId]? = _
    rw [Entries.getElem?_insert, if_pos rfl]
  kept := by rw [List.length_nil, List.take_zero, List.reverse_nil, List.take_nil]
  id_lt := Nat.lt_succ_self _

namespace Backlog

/-- **The end of the backlog is due**, as much as the bus keeps. -/
theorem due_eq (h : Backlog b id topics unread) {s : Subscriber}
    (hposition : s.position + unread.length = b.sent) :
    b.due s = unread.drop (unread.length - b.slots) := by
  have htake : b.recent.take (b.sent - max s.position (b.sent - b.recent.length))
      = b.recent.take unread.length := by
    rw [List.take_eq_take_iff]
    omega
  rw [due, since, htake, h.kept, List.take_reverse, List.reverse_reverse]

/-- Reading past a part of the backlog leaves the rest. -/
theorem moved (h : Backlog b id topics unread) {s : Subscriber} (htopics : s.topics = topics)
    {before rest : List Event} (hunread : unread = before ++ rest) (hkept : rest.length ≤ b.slots)
    {position : Nat} (hposition : position + rest.length = b.sent) :
    Backlog (b.moved id s position) id topics rest where
  subscriber := by
    exact ⟨{ s with position }, subscribers_moved b id s position, htopics, hposition⟩
  kept := by
    show b.recent.take rest.length = rest.reverse.take b.slots
    have hle : rest.length ≤ unread.length := by
      rw [hunread, List.length_append]
      omega
    have hmore : b.recent.take rest.length = (b.recent.take unread.length).take rest.length := by
      rw [List.take_take, Nat.min_eq_left hle]
    rw [hmore, h.kept, List.take_take, Nat.min_eq_left hkept, hunread, List.reverse_append,
      List.take_left' List.length_reverse, List.take_of_length_le (by simpa using hkept)]
  id_lt := h.id_lt

/-- What the bus has lost was followed by as much as it keeps. -/
theorem passedOver_lost {c : Nat} {lost skipped after : List Event}
    (hlost : lost = [] ∨ c ≤ skipped.length + after.length)
    (hskipped : ∀ x ∈ skipped, x.matches topics = false) :
    PassedOver c topics (lost ++ skipped) after := by
  intro l x r hsplit
  by_cases hx : x ∈ skipped
  · exact Or.inl (hskipped x hx)
  · refine Or.inr ?_
    -- It stands among what was lost, so all that was not is behind it.
    rcases List.append_eq_append_iff.mp hsplit with ⟨l', hl, hskip⟩ | ⟨l', hl, hr⟩
    · exact absurd (by rw [hskip]; simp) hx
    · rcases hlost with rfl | hc
      · rw [eq_comm, List.append_eq_nil_iff] at hl
        obtain ⟨rfl, rfl⟩ := hl
        exact absurd (by rw [← List.nil_append skipped, ← hr]; simp) hx
      · cases l' with
        | nil => exact absurd (by rw [← List.nil_append skipped, ← hr]; simp) hx
        | cons y l' =>
          rw [List.cons_append, List.cons.injEq] at hr
          rw [hr.2, List.length_append]
          omega

/-- **What a reading can give**, and what is left of the backlog. -/
theorem read (h : Backlog b id topics unread) :
    ∃ unread', Backlog (b.read id).1 id topics unread' ∧
      Turn b.slots topics b.closed unread none (some (b.read id).2) unread' := by
  obtain ⟨s, hs, htopics, hposition⟩ := h.subscriber
  have hdue := h.due_eq hposition
  obtain ⟨lost, hunread, hlost⟩ : ∃ lost, unread = lost ++ b.due s ∧
      (lost = [] ∨ b.slots ≤ (b.due s).length) := by
    refine ⟨unread.take (unread.length - b.slots), ?_, ?_⟩
    · rw [hdue, List.take_append_drop]
    · by_cases hshort : unread.length ≤ b.slots
      · exact Or.inl (by rw [Nat.sub_eq_zero_of_le hshort, List.take_zero])
      · refine Or.inr ?_
        rw [hdue, List.length_drop]
        omega
  rcases unwanted_or_first s.topics (b.due s) with hnone | ⟨skipped, e, rest, happend, hskipped, hwanted⟩
  · rw [read_of_due_unwanted hs hnone]
    refine ⟨[], h.moved htopics (List.append_nil unread).symm (Nat.zero_le _) rfl, ?_⟩
    apply Turn.nothing
    rw [hunread]
    rw [htopics] at hnone
    exact passedOver_lost hlost hnone
  · have hsplit : b.due s = skipped ++ e :: rest := by
      rw [happend, List.append_assoc, List.singleton_append]
    have hparts : (skipped ++ [e]).length + rest.length = (b.due s).length := by
      rw [happend, ← List.length_append]
    have hlength : (b.due s).length
        = min (b.sent - max s.position (b.sent - b.recent.length)) b.recent.length := by
      rw [due, since, List.length_reverse, List.length_take]
    have hslots : (b.due s).length ≤ b.slots := by
      rw [hdue, List.length_drop]
      omega
    rw [read_of_due_append hs happend hskipped hwanted]
    rw [htopics] at hskipped hwanted
    have hread : unread = (lost ++ (skipped ++ [e])) ++ rest := by
      rw [List.append_assoc, ← happend]
      exact hunread
    refine ⟨rest, h.moved htopics hread ?_ ?_, ?_⟩
    · omega
    · omega
    · have hwhole : unread = (lost ++ skipped) ++ e :: rest := by
        rw [List.append_assoc, ← hsplit]
        exact hunread
      have hpast : PassedOver b.slots topics (lost ++ skipped) (e :: rest) := by
        rw [hsplit, List.length_append] at hlost
        exact passedOver_lost hlost hskipped
      rw [hwhole]
      exact Turn.event hpast hwanted

end Backlog

end

/-! ## What does not concern a subscriber -/

/-- Nothing has changed for a subscriber. -/
structure Undisturbed (id : Nat) (b b' : Bus) : Prop where
  subscriber_eq : b'.subscribers[id]? = b.subscribers[id]?
  sent_eq : b'.sent = b.sent
  recent_eq : b'.recent = b.recent
  capacity_eq : b'.capacity = b.capacity
  nextId_le : b.nextId ≤ b'.nextId

section
variable {b b' : Bus} {id : Nat} {topics : List Topic} {unread : List Event} {a : Action}

theorem undisturbed_read {other : Nat} (hother : other ≠ id) : Undisturbed id b (b.read other).1 := by
  rcases b.read_eq_or_moved other with h | ⟨s, position, h⟩
  · rw [h]
    exact ⟨rfl, rfl, rfl, rfl, Nat.le_refl _⟩
  · rw [h]
    refine ⟨?_, rfl, rfl, rfl, Nat.le_refl _⟩
    show (b.subscribers.insert other _)[id]? = _
    rw [Entries.getElem?_insert, if_neg hother]

/-- What sends nothing, and is neither a reading nor the end of a subscription, does
not concern it. -/
theorem undisturbed_act (hid : id < b.nextId) (hquiet : offer? b.closed a = none)
    (hread : a ≠ .read id) (hdrop : a ≠ .drop id) : Undisturbed id b (b.act a) := by
  cases a with
  | subscribe topics =>
    refine ⟨?_, rfl, rfl, rfl, Nat.le_succ _⟩
    show (b.subscribers.insert b.nextId _)[id]? = _
    rw [Entries.getElem?_insert, if_neg (Nat.ne_of_gt hid)]
  | publish e =>
    have hclosed : b.closed = true := by simpa [offer?] using hquiet
    rw [act, publish_of_closed hclosed]
    exact ⟨rfl, rfl, rfl, rfl, Nat.le_refl _⟩
  | read other => exact undisturbed_read fun hother => hread (by rw [hother])
  | drop other =>
    refine ⟨?_, rfl, rfl, rfl, Nat.le_refl _⟩
    show (b.subscribers.erase other)[id]? = _
    rw [Entries.getElem?_erase, if_neg fun hother => hdrop (by rw [hother])]
  | close => exact ⟨rfl, rfl, rfl, rfl, Nat.le_refl _⟩

theorem Undisturbed.due_eq (h : Undisturbed id b b') (s : Subscriber) : b'.due s = b.due s := by
  rw [due, due, since, since, h.sent_eq, h.recent_eq]

namespace Backlog

theorem of_undisturbed (h : Backlog b id topics unread) (hsame : Undisturbed id b b') :
    Backlog b' id topics unread where
  subscriber := by
    rw [hsame.subscriber_eq, hsame.sent_eq]
    exact h.subscriber
  kept := by
    rw [hsame.recent_eq, slots, hsame.capacity_eq]
    exact h.kept
  id_lt := Nat.lt_of_lt_of_le h.id_lt hsame.nextId_le

/-- What is sent comes at the end of the backlog. -/
theorem publish (h : Backlog b id topics unread) (hopen : b.closed = false) (e : Event) :
    Backlog (b.publish e).1 id topics (unread ++ [e]) := by
  rw [publish_of_open hopen]
  refine ⟨?_, ?_, h.id_lt⟩
  · obtain ⟨s, hs, htopics, hposition⟩ := h.subscriber
    refine ⟨s, hs, htopics, ?_⟩
    rw [List.length_append, List.length_singleton, ← Nat.add_assoc, hposition]
  · show ((e :: b.recent).take b.slots).take (unread ++ [e]).length
      = (unread ++ [e]).reverse.take b.slots
    obtain ⟨n, hn⟩ : ∃ n, b.slots = n + 1 := Nat.exists_eq_succ_of_ne_zero (Nat.ne_of_gt b.slots_pos)
    have hkept : (b.recent.take unread.length).take n = (unread.reverse.take (n + 1)).take n := by
      rw [h.kept, hn]
    rw [List.take_take, List.take_take, Nat.min_eq_left (Nat.le_succ n)] at hkept
    rw [hn, List.length_append, List.length_singleton, List.reverse_append, List.reverse_singleton,
      List.singleton_append, List.take_succ_cons, List.take_succ_cons, List.take_succ_cons,
      List.take_take, Nat.min_comm, hkept]

/-- **The four things an action can be** to a subscriber. -/
theorem act (h : Backlog b id topics unread) (hdrop : a ≠ .drop id) :
    ∃ unread', Backlog (b.act a) id topics unread' ∧
      Turn b.slots topics b.closed unread (offer? b.closed a) (b.reading? id a) unread' := by
  by_cases hread : a = .read id
  · subst hread
    rw [reading?, if_pos rfl]
    exact h.read
  · rw [reading?, if_neg hread]
    cases hoffer : offer? b.closed a with
    | none => exact ⟨unread, h.of_undisturbed (undisturbed_act h.id_lt hoffer hread hdrop), Turn.quiet⟩
    | some e =>
      cases a with
      | publish e' =>
        by_cases hclosed : b.closed = true
        · rw [offer?, if_pos hclosed] at hoffer
          cases hoffer
        · rw [offer?, if_neg hclosed] at hoffer
          cases hoffer
          have hopen : b.closed = false := Bool.eq_false_iff.mpr hclosed
          exact ⟨unread ++ [e], h.publish hopen e, Turn.sent e hopen⟩
      | subscribe topics => cases hoffer
      | read other => cases hoffer
      | drop other => cases hoffer
      | close => cases hoffer

end Backlog

end

/-! ## Everybody has a backlog -/

/-- Every subscriber has a backlog. -/
def Attended (b : Bus) : Prop :=
  ∀ (id : Nat) (s : Subscriber), b.subscribers[id]? = some s →
    ∃ unread, Backlog b id s.topics unread

theorem attended_new (capacity : Nat) : Attended (new capacity) := by
  intro id s hs
  simp [new] at hs

section
variable {b : Bus} {id : Nat} {a : Action}

/-- Whoever listens after an action has just come, or listened before and was not
dropped. -/
theorem subscribed_before {s : Subscriber} (hs : (b.act a).subscribers[id]? = some s) :
    (a = .subscribe s.topics ∧ id = b.nextId) ∨
      (a ≠ .drop id ∧ ∃ s', b.subscribers[id]? = some s') := by
  cases a with
  | subscribe topics =>
    rw [act, subscribe, Entries.getElem?_insert] at hs
    split at hs
    · next heq =>
      rw [← Option.some.inj hs]
      exact Or.inl ⟨rfl, heq.symm⟩
    · exact Or.inr ⟨by simp, s, hs⟩
  | publish e =>
    refine Or.inr ⟨by simp, s, ?_⟩
    cases hclosed : b.closed with
    | false => rwa [act, publish_of_open hclosed] at hs
    | true => rwa [act, publish_of_closed hclosed] at hs
  | read other =>
    refine Or.inr ⟨by simp, Option.isSome_iff_exists.mp (Option.isSome_iff_ne_none.mpr fun hnone => ?_)⟩
    by_cases hother : other = id
    · rw [act, read, hother, hnone, hnone] at hs
      cases hs
    · rw [act, (undisturbed_read hother).subscriber_eq, hnone] at hs
      cases hs
  | drop other =>
    rw [act, drop, Entries.getElem?_erase] at hs
    split at hs
    · cases hs
    · next hother => exact Or.inr ⟨fun heq => hother (by injection heq), s, hs⟩
  | close => exact Or.inr ⟨by simp, s, hs⟩

theorem Attended.act (h : Attended b) (a : Action) : Attended (b.act a) := by
  intro id s hs
  rcases subscribed_before hs with ⟨rfl, rfl⟩ | ⟨hdrop, s', hs'⟩
  · exact ⟨[], backlog_subscribe b s.topics⟩
  · obtain ⟨unread, hbacklog⟩ := h id s' hs'
    obtain ⟨unread', hbacklog', _⟩ := hbacklog.act hdrop
    -- What it wants stays.
    obtain ⟨s'', hs'', htopics, _⟩ := hbacklog'.subscriber
    rw [Option.some.inj (hs.symm.trans hs''), htopics]
    exact ⟨unread', hbacklog'⟩

theorem Attended.run (h : Attended b) (history : List Action) : Attended (b.run history) := by
  induction history generalizing b with
  | nil => exact h
  | cons a rest ih => exact ih (h.act a)

end

end TxRelay.Bus
