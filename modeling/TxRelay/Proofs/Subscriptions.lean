/-
What a subscription delivers over the life of a bus.

All that is said here of whole runs follows from the four things that an action
can be to a subscriber. The subscription that is looked at lives from the action
that makes it until it is dropped.
-/
import TxRelay.Proofs.Backlog

set_option autoImplicit false

open scoped List

namespace TxRelay.Bus

/-! ## Whole runs -/

/-- **An event in its turn**: either a subscriber has not come to it, and all that it
has read since gave it what was sent before; or it has read the event, after some of
what was sent before and before some of what was sent later. -/
inductive InTurn (topics : List Topic) (before : List Event) (e : Event) (after : List Event)
    (whole since : List Reading) : Prop where
  | ahead (hsince : ∀ x ∈ since, ∃ e', x = .event e')
    (hreceived : received whole <+ before.filter (·.matches topics))
  | read (earlier later : List Event) (hreceived : received whole = earlier ++ e :: later)
    (hearlier : earlier <+ before.filter (·.matches topics))
    (hlater : later <+ after.filter (·.matches topics))

section
variable {c : Nat} {topics : List Topic} {closed : Bool} {unread unread' : List Event}
  {sent? : Option Event} {reading? : Option Reading} {b : Bus} {id : Nat} {h : List Action}

/-- What is read was in the backlog, and in its order. -/
theorem Turn.received_sublist (h : Turn c topics closed unread sent? reading? unread') :
    received reading?.toList ++ unread'.filter (·.matches topics)
      <+ (unread ++ sent?.toList).filter (·.matches topics) := by
  cases h with
  | sent e hopen => exact List.Sublist.refl _
  | quiet =>
    rw [Option.toList_none, Option.toList_none, List.append_nil]
    exact List.Sublist.refl _
  | @event skipped rest e hskipped he =>
    rw [Option.toList_none, List.append_nil, List.filter_append, List.filter_cons, if_pos he]
    exact List.sublist_append_right _ _
  | nothing hunread =>
    have hnone : received (Option.toList (some (if closed then Reading.ended else .waiting))) = [] := by
      cases closed with
      | false => rfl
      | true => rfl
    rw [hnone]
    exact List.nil_sublist _

/-- An open bus ends no subscription. -/
theorem Turn.ne_ended (h : Turn c topics false unread sent? reading? unread') :
    reading? ≠ some .ended := by
  cases h with
  | sent e hopen => simp
  | quiet => simp
  | event hskipped he => simp
  | nothing hunread => simp

/-- An event that is wanted, and was not followed by as many as the bus keeps, is
read when its turn comes. -/
theorem Turn.in_turn {before after : List Event} {e : Event}
    (h : Turn c topics closed (before ++ e :: after) sent? reading? unread')
    (he : e.matches topics = true) (hfew : after.length < c) :
    (∃ before', unread' = before' ++ e :: (after ++ sent?.toList) ∧
      received reading?.toList ++ before'.filter (·.matches topics)
        <+ before.filter (·.matches topics) ∧
      ∀ x ∈ reading?, ∃ e', x = .event e') ∨
    (unread' = after ++ sent?.toList ∧ reading? = some (.event e)) := by
  have hpassed : ∀ {skipped rest : List Event}, PassedOver c topics skipped rest →
      ∀ l, skipped = before ++ e :: l → l.length + rest.length ≤ after.length → False := by
    intro skipped rest hskipped l hsplit hle
    rcases hskipped before e l hsplit with hunwanted | hmany
    · rw [he] at hunwanted
      cases hunwanted
    · omega
  generalize hunread : before ++ e :: after = unread at h
  cases h with
  | sent e' hopen =>
    refine Or.inl ⟨before, ?_, List.Sublist.refl _, ?_⟩
    · rw [← hunread, List.append_assoc, List.cons_append]
      rfl
    · intro x hx
      cases hx
  | quiet =>
    refine Or.inl ⟨before, ?_, List.Sublist.refl _, ?_⟩
    · rw [← hunread, Option.toList_none, List.append_nil]
    · intro x hx
      cases hx
  | @event skipped rest e' hskipped he' =>
    rw [Option.toList_none, List.append_nil]
    rcases List.append_eq_append_iff.mp hunread with ⟨l, hl, hrest⟩ | ⟨l, hl, hrest⟩
    · cases l with
      | nil =>
        rw [List.nil_append, List.cons.injEq] at hrest
        exact Or.inr ⟨hrest.2.symm, by rw [hrest.1]⟩
      | cons x l =>
        rw [List.cons_append, List.cons.injEq] at hrest
        obtain ⟨rfl, hafter⟩ := hrest
        have hlength : l.length + (e' :: unread').length = after.length := by
          rw [hafter, List.length_append]
        exact (hpassed hskipped l hl (Nat.le_of_eq hlength)).elim
    · cases l with
      | nil =>
        rw [List.nil_append, List.cons.injEq] at hrest
        exact Or.inr ⟨hrest.2, by rw [hrest.1]⟩
      | cons x l =>
        rw [List.cons_append, List.cons.injEq] at hrest
        obtain ⟨rfl, hrest⟩ := hrest
        refine Or.inl ⟨l, hrest, ?_, ?_⟩
        · rw [hl, List.filter_append, List.filter_cons, if_pos he']
          exact List.sublist_append_right _ _
        · intro x hx
          exact ⟨e', (Option.mem_some_iff.mp hx).symm⟩
  | nothing hall => exact (hpassed hall after hunread.symm (Nat.le_refl _)).elim

namespace Backlog

/-- **What is read so far, and what is still to come**, is from what was sent, in its
order. -/
theorem run (hbacklog : Backlog b id topics unread) (hdrop : .drop id ∉ h) :
    ∃ unread', Backlog (b.run h) id topics unread' ∧
      received (b.readings id h) ++ unread'.filter (·.matches topics)
        <+ (unread ++ offered b.closed h).filter (·.matches topics) := by
  induction h generalizing b unread with
  | nil =>
    refine ⟨unread, hbacklog, ?_⟩
    rw [offered, List.append_nil]
    exact List.Sublist.refl _
  | cons a rest ih =>
    rw [List.mem_cons, not_or] at hdrop
    obtain ⟨unread₁, hbacklog₁, hturn⟩ := hbacklog.act (Ne.symm hdrop.1)
    obtain ⟨unread₂, hbacklog₂, hrest⟩ := ih hbacklog₁ hdrop.2
    refine ⟨unread₂, hbacklog₂, ?_⟩
    have hfirst := hturn.received_sublist
    rw [closed_act, List.filter_append] at hrest
    rw [readings, received_append, offered, List.append_assoc, ← List.append_assoc unread,
      List.filter_append]
    calc received (b.reading? id a).toList ++ (received ((b.act a).readings id rest) ++ _)
        <+ received (b.reading? id a).toList ++ (unread₁.filter (·.matches topics) ++ _) :=
          (List.append_sublist_append_left _).mpr hrest
      _ <+ _ := by
          rw [← List.append_assoc]
          exact (List.append_sublist_append_right _).mpr hfirst

/-- **An event is read in its turn** if few enough are sent after it. -/
theorem in_turn {before after : List Event} {e : Event}
    (hbacklog : Backlog b id topics (before ++ e :: after)) (hdrop : .drop id ∉ h)
    (he : e.matches topics = true) (hfew : (after ++ offered b.closed h).length < b.slots) :
    InTurn topics before e (after ++ offered b.closed h) (b.readings id h) (b.readings id h) := by
  induction h generalizing b before after with
  | nil =>
    refine InTurn.ahead ?_ (List.nil_sublist _)
    intro x hx
    cases hx
  | cons a rest ih =>
    rw [List.mem_cons, not_or] at hdrop
    obtain ⟨unread', hbacklog', hturn⟩ := hbacklog.act (Ne.symm hdrop.1)
    rw [offered, ← List.append_assoc] at hfew ⊢
    have hfew' : after.length < b.slots := by
      rw [List.length_append, List.length_append] at hfew
      omega
    rw [readings]
    rcases hturn.in_turn he hfew' with ⟨before', rfl, hreceived, hevent⟩ | ⟨rfl, hread⟩
    · have hnext := ih hbacklog' hdrop.2 (by rwa [closed_act, slots_act])
      rw [closed_act] at hnext
      cases hnext with
      | ahead hsince hsublist =>
        refine InTurn.ahead ?_ ?_
        · intro x hx
          rcases List.mem_append.mp hx with hx | hx
          · exact hevent x (Option.mem_toList.mp hx)
          · exact hsince x hx
        · rw [received_append]
          exact ((List.append_sublist_append_left _).mpr hsublist).trans hreceived
      | read earlier later hsplit hearlier hafter =>
        refine InTurn.read (received (b.reading? id a).toList ++ earlier) later ?_ ?_ hafter
        · rw [received_append, hsplit, List.append_assoc]
        · exact ((List.append_sublist_append_left _).mpr hearlier).trans hreceived
    · obtain ⟨unread'', -, hsublist⟩ := hbacklog'.run hdrop.2
      rw [closed_act] at hsublist
      refine InTurn.read [] _ ?_ (List.nil_sublist _)
        ((List.sublist_append_left _ _).trans hsublist)
      rw [hread]
      rfl

/-- The same for an event of a run. -/
theorem in_turn_of_published {h₁ h₂ : List Action} {e : Event}
    (hbacklog : Backlog b id topics []) (hdrop₁ : .drop id ∉ h₁) (hdrop₂ : .drop id ∉ h₂)
    (hopen : (b.run h₁).closed = false) (he : e.matches topics = true)
    (hfew : (offered false h₂).length < b.slots) :
    InTurn topics (offered false h₁) e (offered false h₂)
      (b.readings id (h₁ ++ .publish e :: h₂)) ((b.run h₁).readings id (.publish e :: h₂)) := by
  obtain ⟨unread, hbacklog₁, hearlier⟩ := hbacklog.run hdrop₁
  have hopen₁ : b.closed = false := by
    rw [closed_run, Bool.or_eq_false_iff] at hopen
    exact hopen.1
  have hopen₂ : ((b.run h₁).publish e).1.closed = false := by
    rw [publish_of_open hopen]
    exact hopen
  have hslots₂ : ((b.run h₁).publish e).1.slots = b.slots :=
    (slots_act (b.run h₁) (.publish e)).trans (slots_run b h₁)
  have hsince : (b.run h₁).readings id (.publish e :: h₂) = ((b.run h₁).publish e).1.readings id h₂ := rfl
  rw [hopen₁, List.nil_append] at hearlier
  have hnext := (hbacklog₁.publish hopen e).in_turn hdrop₂ he
  rw [List.nil_append, hopen₂, hslots₂] at hnext
  rw [readings_append, hsince]
  cases hnext hfew with
  | ahead hevents hreceived =>
    refine InTurn.ahead hevents ?_
    rw [received_append]
    exact ((List.append_sublist_append_left _).mpr hreceived).trans hearlier
  | read earlier later hreceived hearlier' hlater =>
    refine InTurn.read (received (b.readings id h₁) ++ earlier) later ?_ ?_ hlater
    · rw [received_append, hreceived, List.append_assoc]
    · exact ((List.append_sublist_append_left _).mpr hearlier').trans hearlier

/-- No subscription ends while the bus is open. -/
theorem ended_not_mem (hbacklog : Backlog b id topics unread) (hdrop : .drop id ∉ h)
    (hopen : (b.run h).closed = false) : .ended ∉ b.readings id h := by
  induction h generalizing b unread with
  | nil => exact List.not_mem_nil
  | cons a rest ih =>
    rw [List.mem_cons, not_or] at hdrop
    obtain ⟨unread', hbacklog', hturn⟩ := hbacklog.act (Ne.symm hdrop.1)
    have hnow : b.closed = false := by
      rw [closed_run, Bool.or_eq_false_iff] at hopen
      exact hopen.1
    rw [readings, List.mem_append, not_or]
    refine ⟨?_, ih hbacklog' hdrop.2 hopen⟩
    rw [hnow] at hturn
    rw [Option.mem_toList]
    exact hturn.ne_ended

end Backlog

end

/-! ## Closed buses -/

/-- What a subscriber wants of what it has still to read. -/
def remaining (b : Bus) (id : Nat) : List Event :=
  match b.subscribers[id]? with
  | none => []
  | some s => (b.due s).filter (·.matches s.topics)

/-- **The end**: some readings of a closed bus give what remains, and then that the
subscription has ended, for ever. -/
def lastReadings (es : List Event) (n : Nat) : List Reading :=
  (es.take n).map .event ++ List.replicate (n - es.length) .ended

section
variable {b b' : Bus} {id : Nat} {topics : List Topic} {unread : List Event} {h : List Action}

theorem remaining_eq {s : Subscriber} (hs : b.subscribers[id]? = some s) :
    b.remaining id = (b.due s).filter (·.matches s.topics) := by
  rw [remaining, hs]

theorem Undisturbed.remaining_eq (h : Undisturbed id b b') : b'.remaining id = b.remaining id := by
  rw [remaining, remaining, h.subscriber_eq]
  cases b.subscribers[id]? with
  | none => rfl
  | some s => exact congrArg (List.filter _) (h.due_eq s)

theorem Backlog.remaining_nil (hbacklog : Backlog b id topics []) : b.remaining id = [] := by
  obtain ⟨s, hs, -, hposition⟩ := hbacklog.subscriber
  rw [remaining_eq hs, hbacklog.due_eq hposition, List.drop_nil, List.filter_nil]

theorem moved_remaining (s : Subscriber) (position : Nat) :
    (b.moved id s position).remaining id
      = (b.due { s with position }).filter (·.matches s.topics) := by
  rw [Bus.remaining_eq (subscribers_moved b id s position)]
  rfl

/-- A reading gives the first of what remains, and leaves the rest. -/
theorem Backlog.read_remaining (hbacklog : Backlog b id topics unread) :
    (b.remaining id = [] ∧ (b.read id).1.remaining id = [] ∧
      (b.read id).2 = if b.closed then .ended else .waiting) ∨
    ∃ e, b.remaining id = e :: (b.read id).1.remaining id ∧ (b.read id).2 = .event e := by
  obtain ⟨s, hs, -, hposition⟩ := hbacklog.subscriber
  have hunwanted : ∀ {es : List Event}, (∀ x ∈ es, x.matches s.topics = false) →
      es.filter (·.matches s.topics) = [] := by
    intro es hes
    exact List.filter_eq_nil_iff.mpr fun x hx => Bool.eq_false_iff.mp (hes x hx)
  rcases unwanted_or_first s.topics (b.due s) with hnone | ⟨skipped, e, rest, hdue, hskipped, he⟩
  · rw [read_of_due_unwanted hs hnone, moved_remaining, Bus.remaining_eq hs, hunwanted hnone]
    have hnext : b.due { s with position := b.sent } = [] := by
      rw [due, since, Nat.sub_eq_zero_of_le (Nat.le_max_left _ _), List.take_zero, List.reverse_nil]
    exact Or.inl ⟨rfl, by rw [hnext, List.filter_nil], rfl⟩
  · refine Or.inr ⟨e, ?_, ?_⟩
    · rw [read_of_due_append hs hdue hskipped he, moved_remaining, due_of_append hdue,
        Bus.remaining_eq hs, hdue, List.append_assoc, List.filter_append, hunwanted hskipped,
        List.nil_append, List.singleton_append, List.filter_cons, if_pos he]
    · rw [read_of_due_append hs hdue hskipped he]

/-- **After the bus is closed** a subscriber reads what remains, and then for ever
that the subscription has ended. -/
theorem Backlog.readings_of_closed (hbacklog : Backlog b id topics unread)
    (hclosed : b.closed = true) (hdrop : .drop id ∉ h) :
    b.readings id h = lastReadings (b.remaining id) (h.count (.read id)) := by
  induction h generalizing b unread with
  | nil =>
    rw [readings, List.count_nil, lastReadings, List.take_zero, Nat.zero_sub]
    rfl
  | cons a rest ih =>
    rw [List.mem_cons, not_or] at hdrop
    obtain ⟨unread', hbacklog', hturn⟩ := hbacklog.act (Ne.symm hdrop.1)
    have hclosed' : (b.act a).closed = true := by
      rw [closed_act, hclosed, Bool.true_or]
    rw [readings, ih hbacklog' hclosed' hdrop.2]
    by_cases hread : a = .read id
    · subst hread
      rw [reading?, if_pos rfl, Option.toList_some, List.count_cons_self]
      rcases hbacklog.read_remaining with ⟨hnil, hnil', hended⟩ | ⟨e, hcons, hevent⟩
      · rw [hnil, hended, hclosed, if_pos rfl]
        show Reading.ended :: lastReadings ((b.read id).1.remaining id) _ = _
        rw [hnil', lastReadings, lastReadings, List.take_nil, List.take_nil, List.length_nil]
        rfl
      · rw [hcons, hevent, lastReadings, lastReadings, List.take_succ_cons, List.length_cons,
          Nat.add_sub_add_right]
        rfl
    · have hoffer : offer? b.closed a = none := by
        rw [hclosed]
        cases a with
        | publish e => rfl
        | subscribe topics => rfl
        | read other => rfl
        | drop other => rfl
        | close => rfl
      rw [reading?, if_neg hread, List.count_cons_of_ne hread,
        (undisturbed_act hbacklog.id_lt hoffer hread (Ne.symm hdrop.1)).remaining_eq]
      rfl

/-- **A closed bus ends every subscription** after what remains. -/
theorem Attended.ends (h : Attended b) (hclosed : b.closed = true) {s : Subscriber}
    (hs : b.subscribers[id]? = some s) {later : List Action} (hdrop : .drop id ∉ later) :
    b.readings id later = lastReadings (b.remaining id) (later.count (.read id)) := by
  obtain ⟨unread, hbacklog⟩ := h id s hs
  exact hbacklog.readings_of_closed hclosed hdrop

end

/-! ## What a subscription delivers -/

/-- **What a subscription delivers** over its life, on a bus that keeps `c` events
(`Subscription::recv`). -/
structure Delivers (c : Nat) (b : Bus) (id : Nat) (topics : List Topic) (life : List Action) : Prop where
  /-- Wanted events only, that are published after the subscription and before the bus
  is closed, in their order and each at most once. -/
  in_order : received (b.readings id life) <+ (offered b.closed life).filter (·.matches topics)
  /-- A wanted event is read in its turn, unless `c` more events were published before
  the subscriber came to it. -/
  in_turn : ∀ h₁ e h₂, h₁ ++ .publish e :: h₂ <+: life → (b.run h₁).closed = false →
    e.matches topics = true → (offered false h₂).length < c →
    InTurn topics (offered false h₁) e (offered false h₂)
      (b.readings id (h₁ ++ .publish e :: h₂)) ((b.run h₁).readings id (.publish e :: h₂))
  /-- It does not end as long as the bus is open. -/
  not_ended : ∀ h₁, h₁ <+: life → (b.run h₁).closed = false → .ended ∉ b.readings id h₁
  /-- Once the bus is closed all that remains is read, and then it has ended. -/
  ends : ∀ h₁ h₂, life = h₁ ++ h₂ → (b.run h₁).closed = true →
    (b.run h₁).readings id h₂ = lastReadings ((b.run h₁).remaining id) (h₂.count (.read id))

/-- **Subscriptions of a bus, closed buses and the count of publications**, after
whatever was done with the bus before. -/
theorem subscription_delivers (capacity : Nat) (before : List Action) (topics : List Topic)
    (after : List Action) :
    let b := (new capacity).run before
    let b' := (b.subscribe topics).1
    let id := (b.subscribe topics).2
    let life := after.takeWhile (· != .drop id)
    b.closed = before.contains .close ∧
      Delivers (max 1 capacity).nextPowerOfTwo b' id topics life ∧
      (b.closed = true →
        b'.readings id life = List.replicate (life.count (.read id)) .ended ∧
        ∀ e, b.publish e = ({ b with published := b.published + 1 }, 0)) ∧
      (b'.run after).published = publications (before ++ after) := by
  intro b b' id life
  have hlife : .drop id ∉ life := by
    intro hmem
    have hne := List.all_eq_true.mp List.all_takeWhile _ hmem
    simp at hne
  have hbacklog : Backlog b' id topics [] := backlog_subscribe b topics
  have hslots : b'.slots = (max 1 capacity).nextPowerOfTwo := slots_run (new capacity) before
  refine ⟨?_, ⟨?_, ?_, ?_, ?_⟩, ?_, ?_⟩
  · exact (closed_run (new capacity) before).trans (Bool.false_or _)
  · obtain ⟨unread, -, hsublist⟩ := hbacklog.run hlife
    exact (List.sublist_append_left _ _).trans hsublist
  · intro h₁ e h₂ hinit hopen he hfew
    have hmem : ∀ a, a ∈ h₁ ∨ a ∈ h₂ → a ∈ life := by
      intro a ha
      refine hinit.subset (List.mem_append.mpr ?_)
      exact ha.imp_right (List.mem_cons_of_mem _)
    rw [← hslots] at hfew
    exact hbacklog.in_turn_of_published (fun h => hlife (hmem _ (Or.inl h)))
      (fun h => hlife (hmem _ (Or.inr h))) hopen he hfew
  · intro h₁ hinit hopen
    exact hbacklog.ended_not_mem (fun hmem => hlife (hinit.subset hmem)) hopen
  · intro h₁ h₂ hsplit hclosed
    rw [hsplit, List.mem_append, not_or] at hlife
    obtain ⟨unread, hbacklog₁, -⟩ := hbacklog.run hlife.1
    exact hbacklog₁.readings_of_closed hclosed hlife.2
  · intro hclosed
    refine ⟨?_, fun e => publish_of_closed hclosed e⟩
    rw [hbacklog.readings_of_closed hclosed hlife, hbacklog.remaining_nil, lastReadings,
      List.take_nil, List.map_nil, List.nil_append, List.length_nil, Nat.sub_zero]
  · rw [published_run, publications, publications, List.countP_append]
    exact congrArg (· + _) ((published_run (new capacity) before).trans (Nat.zero_add _))

end TxRelay.Bus
