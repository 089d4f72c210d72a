/-
What a subscriber of a bus reads.

A bus keeps the last announcements only, so what a subscriber can read depends
on how much was announced since it looked. As long as that is no more than the
bus keeps, nothing is lost: the subscriber reads all of it that it wants, in
order, and is at the end then.
-/
import TxRelay.Bus
import TxRelay.Proofs.Entries

set_option autoImplicit false

namespace TxRelay.Bus

/-! ## Reading -/

/-- What a subscriber has still to read, wanted or not, oldest first. -/
def due (b : Bus) (s : Subscriber) : List Event := b.since (max s.position (b.sent - b.recent.length))

/-- The bus with a subscriber at another position. -/
def moved (b : Bus) (id : Nat) (s : Subscriber) (position : Nat) : Bus :=
  { b with subscribers := b.subscribers.insert id { s with position } }

section
variable {topics : List Topic} {position : Nat} {e : Event}

theorem firstWanted_eq_none {es : List Event} (h : ∀ x ∈ es, x.matches topics = false) :
    firstWanted topics position es = none := by
  induction es generalizing position with
  | nil => rfl
  | cons x rest ih =>
    obtain ⟨hx, hrest⟩ := List.forall_mem_cons.mp h
    rw [firstWanted, hx, if_neg Bool.false_ne_true]
    exact ih hrest

/-- Either nothing is wanted, or there is a first that is. -/
theorem unwanted_or_first (topics : List Topic) (es : List Event) :
    (∀ x ∈ es, x.matches topics = false) ∨
      ∃ skipped e rest, es = (skipped ++ [e]) ++ rest ∧
        (∀ x ∈ skipped, x.matches topics = false) ∧ e.matches topics = true := by
  cases hfind : es.find? fun e => e.matches topics with
  | none =>
    refine Or.inl ?_
    intro x hx
    exact Bool.eq_false_iff.mpr (List.find?_eq_none.mp hfind x hx)
  | some e =>
    obtain ⟨he, skipped, rest, hsplit, hskipped⟩ := List.find?_eq_some_iff_append.mp hfind
    refine Or.inr ⟨skipped, e, rest, ?_, ?_, he⟩
    · rw [hsplit, List.append_assoc, List.singleton_append]
    · intro x hx
      simpa using hskipped x hx

theorem firstWanted_append {skipped rest : List Event} (h : ∀ x ∈ skipped, x.matches topics = false)
    (he : e.matches topics = true) :
    firstWanted topics position (skipped ++ e :: rest) = some (e, position + skipped.length + 1) := by
  induction skipped generalizing position with
  | nil =>
    rw [List.nil_append, firstWanted, if_pos he]
    rfl
  | cons x skipped ih =>
    obtain ⟨hx, hskipped⟩ := List.forall_mem_cons.mp h
    rw [List.cons_append, firstWanted, hx, if_neg Bool.false_ne_true, ih hskipped, List.length_cons]
    congr 2
    omega

end

section
variable {b : Bus} {id : Nat} {s : Subscriber}

theorem subscribers_moved (b : Bus) (id : Nat) (s : Subscriber) (position : Nat) :
    (b.moved id s position).subscribers[id]? = some { s with position } :=
  (Entries.getElem?_insert _ _ _ _).trans (if_pos rfl)

theorem length_due_le (b : Bus) (s : Subscriber) : (b.due s).length ≤ b.recent.length := by
  rw [due, since, List.length_reverse, List.length_take]
  omega

/-- After some of what is due the rest is due. -/
theorem due_of_append {read rest : List Event} (h : b.due s = read ++ rest) :
    b.due { s with position := max s.position (b.sent - b.recent.length) + read.length } = rest := by
  have hrest : rest = (b.due s).drop read.length := by rw [h, List.drop_left]
  have hposition : max (max s.position (b.sent - b.recent.length) + read.length)
      (b.sent - b.recent.length) = max s.position (b.sent - b.recent.length) + read.length := by
    omega
  have hlength : (b.recent.take (b.sent - max s.position (b.sent - b.recent.length))).length
      = b.sent - max s.position (b.sent - b.recent.length) := by
    rw [List.length_take]
    omega
  rw [hrest, due, due, hposition, since, since, List.drop_reverse, hlength, List.take_take]
  congr 2
  omega

/-- **Reading** takes a subscriber over what it does not want. -/
theorem read_of_due_append (hs : b.subscribers[id]? = some s) {skipped rest : List Event} {e : Event}
    (hdue : b.due s = (skipped ++ [e]) ++ rest) (hskipped : ∀ x ∈ skipped, x.matches s.topics = false)
    (he : e.matches s.topics = true) :
    b.read id = (b.moved id s (max s.position (b.sent - b.recent.length) + (skipped ++ [e]).length),
      .event e) := by
  have hsince : b.since (max s.position (b.sent - b.recent.length)) = skipped ++ e :: rest := by
    rw [List.append_assoc, List.singleton_append] at hdue
    exact hdue
  rw [read, hs]
  dsimp only
  rw [hsince, firstWanted_append hskipped he, List.length_append, List.length_singleton, ← Nat.add_assoc]
  rfl

/-- If nothing wanted is left then a subscriber is at the end. -/
theorem read_of_due_unwanted (hs : b.subscribers[id]? = some s)
    (hdue : ∀ x ∈ b.due s, x.matches s.topics = false) :
    b.read id = (b.moved id s b.sent, if b.closed then .ended else .waiting) := by
  have hnone : firstWanted s.topics (max s.position (b.sent - b.recent.length))
      (b.since (max s.position (b.sent - b.recent.length))) = none := firstWanted_eq_none hdue
  rw [read, hs]
  dsimp only
  rw [hnone]
  rfl

theorem moved_moved (b : Bus) (id : Nat) (s : Subscriber) (position position' : Nat) :
    (b.moved id s position).moved id { s with position } position' = b.moved id s position' := by
  have hsubscribers :
      (b.subscribers.insert id { s with position }).insert id { s with position := position' }
        = b.subscribers.insert id { s with position := position' } := by
    refine Std.ExtTreeMap.ext_getElem? fun {k} => ?_
    rw [Entries.getElem?_insert, Entries.getElem?_insert, Entries.getElem?_insert]
    split
    · rfl
    · rfl
  rw [moved, moved, moved]
  exact congrArg (fun subscribers => { b with subscribers }) hsubscribers

theorem drainFor_eq {fuel : Nat} (hs : b.subscribers[id]? = some s) (hfuel : (b.due s).length < fuel) :
    drainFor fuel b id = (b.moved id s b.sent, (b.due s).filter fun e => e.matches s.topics,
      if b.closed then .ended else .waiting) := by
  induction fuel generalizing b s with
  | zero => cases hfuel
  | succ fuel ih =>
    rw [drainFor]
    rcases unwanted_or_first s.topics (b.due s) with hdue | ⟨skipped, e, rest, happend, hskipped, he⟩
    · rw [read_of_due_unwanted hs hdue,
        List.filter_eq_nil_iff.mpr fun x hx => Bool.eq_false_iff.mp (hdue x hx)]
      split
      · next heq =>
        have hread := (Prod.mk.inj heq).2
        split at hread
        · cases hread
        · cases hread
      · next heq =>
        obtain ⟨rfl, rfl⟩ := Prod.mk.inj heq
        rfl
    · have hread := read_of_due_append hs happend hskipped he
      have hrest := due_of_append happend
      generalize max s.position (b.sent - b.recent.length) + (skipped ++ [e]).length = position
        at hread hrest
      -- The rest is shorter, and is read next.
      have hmoved := subscribers_moved b id s position
      have hshort : ((b.moved id s position).due { s with position }).length < fuel := by
        show (b.due { s with position }).length < fuel
        rw [happend, List.length_append, List.length_append, List.length_singleton] at hfuel
        rw [hrest]
        omega
      have hnext : drainFor fuel (b.moved id s position) id = (b.moved id s b.sent,
          rest.filter fun e => e.matches s.topics, if b.closed then .ended else .waiting) := by
        rw [ih hmoved hshort, moved_moved]
        exact congrArg (fun es : List Event => (b.moved id s b.sent,
          es.filter fun e => e.matches s.topics, if b.closed then Reading.ended else .waiting)) hrest
      have hwanted : ((b.due s).filter fun e => e.matches s.topics)
          = e :: rest.filter fun e => e.matches s.topics := by
        rw [happend, List.append_assoc, List.singleton_append, List.filter_append, List.filter_cons,
          if_pos he, List.filter_eq_nil_iff.mpr fun x hx => Bool.eq_false_iff.mp (hskipped x hx),
          List.nil_append]
      rw [hread, hwanted]
      dsimp only
      rw [hnext]

/-- **Draining** a subscription gives all that is due and wanted, and leaves
nothing; the subscription has ended if the bus is closed. -/
theorem drain_eq (hs : b.subscribers[id]? = some s) :
    b.drain id = (b.moved id s b.sent, (b.due s).filter fun e => e.matches s.topics,
      if b.closed then .ended else .waiting) :=
  drainFor_eq hs (Nat.lt_succ_of_le (b.length_due_le s))

end

/-! ## What was announced meanwhile -/

/-- **A bus went on**, and announced some events meanwhile, given oldest first; a
listener has read nothing. What is kept begins with the last announcements. -/
structure Delivered (listener : Nat) (b b' : Bus) (es : List Event) : Prop where
  capacity_eq : b'.capacity = b.capacity
  sent_eq : b'.sent = b.sent + es.length
  kept : (es.reverse ++ b.recent).take b.slots <+: b'.recent
  closed_of : b.closed = true → b'.closed = true
  nextId_le : b.nextId ≤ b'.nextId
  listener_eq : b'.subscribers[listener]? = b.subscribers[listener]?

variable {listener : Nat} {b b' b'' : Bus} {es es' : List Event}

theorem take_prefix_take {l l' : List Event} (h : l <+: l') (n : Nat) : l.take n <+: l'.take n := by
  obtain ⟨rest, rfl⟩ := h
  rw [List.take_append]
  exact List.prefix_append _ _

namespace Delivered

theorem refl (listener : Nat) (b : Bus) : Delivered listener b b [] where
  capacity_eq := rfl
  sent_eq := rfl
  kept := List.take_prefix _ _
  closed_of h := h
  nextId_le := Nat.le_refl _
  listener_eq := rfl

theorem slots_eq (h : Delivered listener b b' es) : b'.slots = b.slots := by
  rw [slots, slots, h.capacity_eq]

theorem trans (h : Delivered listener b b' es) (h' : Delivered listener b' b'' es') :
    Delivered listener b b'' (es ++ es') where
  capacity_eq := h'.capacity_eq.trans h.capacity_eq
  sent_eq := by rw [h'.sent_eq, h.sent_eq, List.length_append, Nat.add_assoc]
  kept := by
    have hkept := h'.kept
    rw [h.slots_eq, List.take_append] at hkept
    rw [List.reverse_append, List.append_assoc, List.take_append]
    -- Of the older announcements fewer are asked for than the first bus kept.
    have hfewer : (es.reverse ++ b.recent).take (b.slots - es'.reverse.length)
        = ((es.reverse ++ b.recent).take b.slots).take (b.slots - es'.reverse.length) := by
      rw [List.take_take, Nat.min_eq_left (Nat.sub_le _ _)]
    have holder : (es.reverse ++ b.recent).take (b.slots - es'.reverse.length)
        <+: b'.recent.take (b.slots - es'.reverse.length) := by
      rw [hfewer]
      exact take_prefix_take h.kept _
    exact ((List.prefix_append_right_inj _).mpr holder).trans hkept
  closed_of hclosed := h'.closed_of (h.closed_of hclosed)
  nextId_le := Nat.le_trans h.nextId_le h'.nextId_le
  listener_eq := h'.listener_eq.trans h.listener_eq

theorem open_of (h : Delivered listener b b' es) (hopen : b'.closed = false) : b.closed = false :=
  Bool.eq_false_iff.mpr fun hclosed => Bool.eq_false_iff.mp hopen (h.closed_of hclosed)

/-- An announcement goes to all who listen, unless the bus is closed. -/
theorem publish (listener : Nat) (b : Bus) (e : Event) :
    Delivered listener b (b.publish e).1 (if b.closed then [] else [e]) := by
  rw [Bus.publish]
  dsimp only
  by_cases hclosed : b.closed = true
  · rw [if_pos hclosed, if_pos hclosed]
    exact ⟨rfl, rfl, List.take_prefix _ _, fun h => h, Nat.le_refl _, rfl⟩
  · rw [if_neg hclosed, if_neg hclosed]
    exact ⟨rfl, rfl, List.prefix_refl _, fun h => h, Nat.le_refl _, rfl⟩

theorem close (listener : Nat) (b : Bus) : Delivered listener b b.close [] :=
  ⟨rfl, rfl, List.take_prefix _ _, fun _ => rfl, Nat.le_refl _, rfl⟩

/-- New subscribers are others. -/
theorem subscribe (hlistener : listener < b.nextId) (topics : List Topic) :
    Delivered listener b (b.subscribe topics).1 [] where
  capacity_eq := rfl
  sent_eq := rfl
  kept := List.take_prefix _ _
  closed_of h := h
  nextId_le := Nat.le_succ _
  listener_eq := by
    show (b.subscribers.insert b.nextId _)[listener]? = _
    rw [Entries.getElem?_insert, if_neg (Nat.ne_of_gt hlistener)]

/-- What others read does not concern a listener. -/
theorem read {id : Nat} (hid : id ≠ listener) : Delivered listener b (b.read id).1 [] := by
  have hmoved : ∀ s position, Delivered listener b (b.moved id s position) [] := fun s position =>
    { refl listener b with
      listener_eq := by
        show (b.subscribers.insert id _)[listener]? = _
        rw [Entries.getElem?_insert, if_neg hid] }
  rw [Bus.read]
  split
  · exact refl listener b
  · dsimp only
    split
    · exact hmoved _ _
    · exact hmoved _ _

theorem drop {id : Nat} (hid : id ≠ listener) : Delivered listener b (b.drop id) [] :=
  { refl listener b with
    listener_eq := by
      show (b.subscribers.erase id)[listener]? = _
      rw [Entries.getElem?_erase, if_neg hid] }

/-- **What the bus still keeps is due**: everything that was announced after a
subscriber looked, if it is no more than the bus keeps. -/
theorem mem_due (h : Delivered listener b b' es) {s : Subscriber} (hs : s.position ≤ b.sent)
    (hfew : es.length ≤ b.slots) {e : Event} (he : e ∈ es) : e ∈ b'.due s := by
  have hlength : es.reverse.length ≤ b.slots := by rwa [List.length_reverse]
  have hprefix : es.reverse <+: b'.recent := by
    refine List.IsPrefix.trans ?_ h.kept
    rw [List.take_append, List.take_of_length_le hlength]
    exact List.prefix_append _ _
  obtain ⟨older, holder⟩ := hprefix
  have hrecent : b'.recent.length = es.length + older.length := by
    rw [← holder, List.length_append, List.length_reverse]
  have hsent := h.sent_eq
  -- The subscriber reads from its position on, or as far back as the bus goes.
  rw [due, since, List.mem_reverse, ← holder, List.take_append]
  refine List.mem_append_left _ ?_
  rw [List.take_of_length_le (by rw [List.length_reverse, holder]; omega)]
  exact List.mem_reverse.mpr he

end Delivered

end TxRelay.Bus
