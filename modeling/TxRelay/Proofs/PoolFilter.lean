/-
What the filter over the ordinary transactions covers.

The filter begins with what is executable and takes in what was announced since,
whenever it is asked for. So of what is held it reports everything but two
kinds of transactions: those that were not executable when it was begun, and
those whose announcement was overwritten before anybody asked for the filter.
-/
import TxRelay.Proofs.Admission
import TxRelay.Proofs.FilterBytes
import TxRelay.Proofs.PoolHistory

set_option autoImplicit false

namespace TxRelay.PoolSet

open Bus (Delivered)
open NoncePool (Held)

/-! ## Feeding -/

theorem feed_eq (f : Bloom.RollingFilter) (txs : List Transaction) :
    feed f txs = (txs.map Transaction.hash).foldl (fun f id => f.add id.toList) f := by
  rw [feed, List.foldl_map]

theorem resets_feed (f : Bloom.RollingFilter) (txs : List Transaction) :
    (feed f txs).resets = f.resets := by
  rw [feed_eq]
  exact Bloom.RollingFilter.resets_foldl_add f _

section
variable {f : Bloom.RollingFilter}

theorem sound_feed (h : f.Sound) (txs : List Transaction) : (feed f txs).Sound := by
  rw [feed_eq]
  exact h.foldl_add _

/-- What is fed is reported, and what was reported still is. -/
theorem has_feed (h : f.Sound) (txs : List Transaction) {hash : Digest}
    (hhash : (∃ tx ∈ txs, tx.hash = hash) ∨ f.has hash.toList = true) :
    (feed f txs).has hash.toList = true := by
  rw [feed_eq]
  refine (Bloom.RollingFilter.has_foldl_add h.fits _).2 hash ?_
  rwa [List.mem_map]

end

/-! ## One action -/

theorem executable_congr {c c' : Coordinator NoncePool} (h : c.pools = c'.pools) (views : Views) :
    c.executable views = c'.executable views := by
  rw [Coordinator.executable, Coordinator.executable, Coordinator.viewed, Coordinator.viewed, h]

theorem has_congr {c c' : Coordinator NoncePool} (h : c.pools = c'.pools) (hash : Digest) :
    c.has hash = c'.has hash := by
  rw [Coordinator.has, Coordinator.has, h]

/-- A subscriber is the one that feeds the filter; it is not ahead of the bus. -/
structure Feeds (s : PoolSet) (l : Subscriber) : Prop where
  subscribed : s.bus.subscribers[s.subscription]? = some l
  topics_eq : l.topics = [.transactions]
  position_le : l.position ≤ s.bus.sent
  lt_nextId : s.subscription < s.bus.nextId

section
variable {s : PoolSet} {l : Subscriber} {hash : Digest}

theorem Feeds.of_delivered (h : s.Feeds l) {s' : PoolSet} {es : List Event}
    (hsame : s'.subscription = s.subscription) (hd : Delivered s.subscription s.bus s'.bus es) :
    s'.Feeds l where
  subscribed := by rw [hsame, hd.listener_eq, h.subscribed]
  topics_eq := h.topics_eq
  position_le := by
    rw [hd.sent_eq]
    exact Nat.le_add_right_of_le h.position_le
  lt_nextId := by
    rw [hsame]
    exact Nat.lt_of_lt_of_le h.lt_nextId hd.nextId_le

/-- **What happens between calls for the filter** goes on openly and leaves the
filter alone. -/
theorem openly_act (h : s.Feeds l) {action : Action} (hother : ∀ views, action ≠ .filter views) :
    (s.act action).filter = s.filter ∧ (s.act action).subscription = s.subscription ∧
      ∃ es, Openly s.subscription (Held s.pool.pools) (Held (s.act action).pool.pools)
        s.pool.commons (s.act action).pool.commons es := by
  have hbus : ∀ {bus : Bus} {es : List Event}, Delivered s.subscription s.bus bus es →
      ∃ es, Openly s.subscription (Held s.pool.pools) (Held (s.onBus bus).pool.pools)
        s.pool.commons (s.onBus bus).pool.commons es :=
    fun hd => ⟨_, Openly.of_subset hd fun _ hheld => hheld⟩
  cases action with
  | pool action => exact ⟨rfl, rfl, s.pool.openly_act s.subscription action⟩
  | announce e => exact ⟨rfl, rfl, hbus (Delivered.publish _ _ e)⟩
  | subscribe topics => exact ⟨rfl, rfl, hbus (Delivered.subscribe h.lt_nextId topics)⟩
  | read id =>
    rw [act]
    split
    · exact ⟨rfl, rfl, _, Openly.refl _ _ _⟩
    · next hne => exact ⟨rfl, rfl, hbus (Delivered.read hne)⟩
  | unsubscribe id =>
    rw [act]
    split
    · exact ⟨rfl, rfl, _, Openly.refl _ _ _⟩
    · next hne => exact ⟨rfl, rfl, hbus (Delivered.drop hne)⟩
  | filter views => exact absurd rfl (hother views)

/-- The announcements that a call for the filter reads. -/
def unread (s : PoolSet) (l : Subscriber) : List Event :=
  (s.bus.due l).filter fun e => e.matches l.topics

/-- **A call for the filter** reads what is due, feeds the filter with it and
refreshes the filter with what is executable, unless the bus is closed. -/
theorem sync_eq (h : s.Feeds l) (views : Views) :
    (s.sync views).1.pool.pools = s.pool.pools ∧
      (s.sync views).1.subscription = s.subscription ∧
      (s.sync views).1.bus = s.bus.moved s.subscription l s.bus.sent ∧
      if s.bus.closed then
        (s.sync views).1.filter = feed s.filter (announced (s.unread l)) ∧
          (s.sync views).2 = .error .closed
      else
        (s.sync views).2 = .ok () ∧
          ∃ room, (s.sync views).1.filter = (feed s.filter (announced (s.unread l))).refresh room
            ((s.pool.executable views).map Transaction.hash) := by
  have hdrain : s.drain s.subscription = (s.onBus (s.bus.moved s.subscription l s.bus.sent),
      s.unread l, if s.bus.closed then .ended else .waiting) := by
    have hbus : s.pool.commons.bus.drain s.subscription = (s.bus.moved s.subscription l s.bus.sent,
        s.unread l, if s.bus.closed then .ended else .waiting) := Bus.drain_eq h.subscribed
    rw [drain, hbus]
    rfl
  rw [sync, hdrain]
  dsimp only
  by_cases hclosed : s.bus.closed = true
  · rw [if_pos hclosed, if_pos hclosed, if_pos rfl]
    exact ⟨rfl, rfl, rfl, rfl, rfl⟩
  · rw [if_neg hclosed, if_neg hclosed, if_neg (by decide)]
    exact ⟨rfl, rfl, rfl, rfl, _, rfl⟩

theorem has_sync (h : s.Feeds l) (views : Views) (hash : Digest) :
    (s.sync views).1.pool.has hash = s.pool.has hash :=
  has_congr (sync_eq h views).1 hash

theorem closed_sync (h : s.Feeds l) (views : Views) :
    (s.sync views).1.bus.closed = s.bus.closed := by
  rw [(sync_eq h views).2.2.1]
  rfl

theorem Feeds.sync (h : s.Feeds l) (views : Views) :
    (s.sync views).1.Feeds { l with position := s.bus.sent } := by
  obtain ⟨_, hsubscription, hbus, _⟩ := sync_eq h views
  refine ⟨?_, h.topics_eq, ?_, ?_⟩
  · rw [hsubscription, hbus]
    exact Bus.subscribers_moved _ _ _ _
  · rw [hbus]
    exact Nat.le_refl _
  · rw [hsubscription, hbus]
    exact h.lt_nextId

theorem sound_sync (h : s.Feeds l) (hsound : s.filter.Sound) (views : Views) :
    (s.sync views).1.filter.Sound := by
  have hfed := sound_feed hsound (announced (s.unread l))
  obtain ⟨_, _, _, hfilter⟩ := sync_eq h views
  split at hfilter
  · rw [hfilter.1]
    exact hfed
  · obtain ⟨_, room, hfilter⟩ := hfilter
    rw [hfilter]
    exact hfed.refresh _ _

end

/-! ## Everything is accounted for -/

/-- A transaction was let in and its announcement was not read yet. -/
def Unread (s : PoolSet) (history : List Action) (hash : Digest) : Prop :=
  ∃ i es, LetIn s history i history.length hash ∧
    Delivered (s.run history).subscription (s.moment history i).bus (s.run history).bus es ∧
    (∃ tx ∈ announced es, tx.hash = hash) ∧
    ∃ l, (s.run history).Feeds l ∧ l.position ≤ (s.moment history i).bus.sent

/-- The filter reports a transaction, or there is a reason why not. -/
def Accounted (s : PoolSet) (views : Views) (history : List Action) (hash : Digest) : Prop :=
  (s.run history).filter.has hash.toList = true ∨ LeftOut s views history hash ∨
    Overtaken s history hash

/-- **The filter covers the pool** after a history (`PoolGossipSet::filter`). -/
structure Covers (s : PoolSet) (views : Views) (history : List Action) : Prop where
  sound : (s.run history).filter.Sound
  feeds : ∃ l, (s.run history).Feeds l
  accounted : (s.run history).bus.closed = false → ∀ hash, (s.run history).pool.has hash = true →
    Accounted s views history hash ∨ Unread s history hash

variable {s : PoolSet} {views : Views} {history : List Action} {hash : Digest}

section
variable {action : Action} {es : List Event} {l : Subscriber}

/-- What was accounted for still is, as long as the filter goes on. -/
theorem Accounted.concat (h : Accounted s views history hash)
    (hhas : (s.run history).filter.has hash.toList = true →
      ((s.run history).act action).filter.has hash.toList = true)
    (hcurrent : ((s.run history).act action).filter.resets = (s.run history).filter.resets)
    (hheld : ((s.run history).act action).pool.has hash = true) :
    Accounted s views (history ++ [action]) hash := by
  rcases h with hreported | hleft | hovertaken
  · refine Or.inl ?_
    rw [run_concat]
    exact hhas hreported
  · exact Or.inr (Or.inl (hleft.concat hcurrent hheld))
  · exact Or.inr (Or.inr (hovertaken.concat hcurrent hheld))

/-- No call for the filter is added to a history. -/
theorem quiet_concat (hother : ∀ views, action ≠ .filter views) (views : Views) :
    (history ++ [action])[history.length]? ≠ some (.filter views) := by
  intro heq
  rw [List.getElem?_concat_length] at heq
  exact hother views (Option.some.inj heq)

/-- What is to be read still is, and more was announced after it. -/
theorem Unread.concat (h : Unread s history hash) (hother : ∀ views, action ≠ .filter views)
    (hsubscription : ((s.run history).act action).subscription = (s.run history).subscription)
    (hdelivered : Delivered (s.run history).subscription (s.run history).bus
      ((s.run history).act action).bus es)
    (hcurrent : ((s.run history).act action).filter.resets = (s.run history).filter.resets)
    (hheld : ((s.run history).act action).pool.has hash = true) :
    Unread s (history ++ [action]) hash := by
  obtain ⟨i, es', hletIn, hsent, ⟨tx, htx, heq⟩, l, hl, hle⟩ := h
  have hi : i ≤ history.length := Nat.le_of_lt hletIn.lt
  refine ⟨i, es' ++ es, ?_, ?_, ⟨tx, ?_, heq⟩, l, ?_, ?_⟩
  · rw [List.length_append, List.length_singleton]
    exact (hletIn.concat (Nat.le_refl _) hcurrent hheld).extend (quiet_concat hother)
  · rw [run_concat, hsubscription, moment_concat hi]
    exact hsent.trans hdelivered
  · rw [Openly.announced_append]
    exact List.mem_append_left _ htx
  · rw [run_concat]
    exact hl.of_delivered hsubscription hdelivered
  · rw [moment_concat hi]
    exact hle

/-- What was let in just now is to be read. -/
theorem unread_of_named (hl : (s.run history).Feeds l) (hother : ∀ views, action ≠ .filter views)
    (hsubscription : ((s.run history).act action).subscription = (s.run history).subscription)
    (hdelivered : Delivered (s.run history).subscription (s.run history).bus
      ((s.run history).act action).bus es)
    (habsent : ¬(s.run history).pool.has hash = true)
    (hnamed : ∃ tx ∈ announced es, tx.hash = hash)
    (hheld : ((s.run history).act action).pool.has hash = true) :
    Unread s (history ++ [action]) hash := by
  have hnow : s.moment (history ++ [action]) history.length = s.run history := by
    rw [moment_concat (Nat.le_refl _), moment_length]
  have hletIn : LetIn s (history ++ [action]) history.length (history ++ [action]).length hash := by
    rw [List.length_append, List.length_singleton]
    refine ⟨Nat.lt_succ_self _, fun j hi hj => ?_, ?_, HeldSince.now hheld⟩
    · rw [Nat.le_antisymm (Nat.le_of_lt_succ hj) hi]
      exact quiet_concat hother
    · rw [hnow]
      exact habsent
  refine ⟨history.length, es, hletIn, ?_, hnamed, l, ?_, ?_⟩
  · rw [run_concat, hsubscription, hnow]
    exact hdelivered
  · rw [run_concat]
    exact hl.of_delivered hsubscription hdelivered
  · rw [hnow]
    exact hl.position_le

/-- **Between calls for the filter**, what comes to be held is announced. -/
theorem Covers.other (h : Covers s views history) (hother : ∀ views, action ≠ .filter views) :
    Covers s views (history ++ [action]) := by
  obtain ⟨l, hl⟩ := h.feeds
  obtain ⟨hfilter, hsubscription, es, hopenly⟩ := openly_act hl hother
  have hcurrent : ((s.run history).act action).filter.resets = (s.run history).filter.resets :=
    congrArg Bloom.RollingFilter.resets hfilter
  have hdelivered : Delivered (s.run history).subscription (s.run history).bus
    ((s.run history).act action).bus es := hopenly.delivered
  refine ⟨?_, ⟨l, ?_⟩, fun hopen hash hheld => ?_⟩
  · rw [run_concat, hfilter]
    exact h.sound
  · rw [run_concat]
    exact hl.of_delivered hsubscription hdelivered
  rw [run_concat] at hopen hheld
  by_cases hbefore : (s.run history).pool.has hash = true
  · rcases h.accounted (hdelivered.open_of hopen) hash hbefore with haccounted | hunread
    · refine Or.inl (haccounted.concat (fun hreported => ?_) hcurrent hheld)
      rw [hfilter]
      exact hreported
    · exact Or.inr (hunread.concat hother hsubscription hdelivered hcurrent hheld)
  · have htold := hopenly.told hopen hash ((Coordinator.has_iff _ hash).mp hheld)
    have hnamed := htold.resolve_left fun hheld' => hbefore ((Coordinator.has_iff _ hash).mpr hheld')
    exact Or.inr (unread_of_named hl hother hsubscription hdelivered hbefore hnamed hheld)

end

/-- What is still to be read when the filter is asked for is read then, or was
overtaken. -/
theorem Unread.read_or (h : Unread s history hash) {l : Subscriber} (hl : (s.run history).Feeds l) :
    ∃ i, LetIn s history i history.length hash ∧
      ((∃ tx ∈ announced ((s.run history).unread l), tx.hash = hash) ∨
        (s.run history).bus.slots < (s.run history).bus.sent - (s.moment history i).bus.sent) := by
  obtain ⟨i, es, hletIn, hdelivered, ⟨tx, htx, heq⟩, l', hl', hle⟩ := h
  obtain rfl : l = l' := Option.some.inj (hl.subscribed.symm.trans hl'.subscribed)
  refine ⟨i, hletIn, ?_⟩
  have hsent := hdelivered.sent_eq
  have hslots := hdelivered.slots_eq
  by_cases hfew : es.length ≤ (s.moment history i).bus.slots
  · refine Or.inl ⟨tx, ?_, heq⟩
    obtain ⟨e, he, hmem⟩ := List.mem_flatMap.mp htx
    refine List.mem_flatMap.mpr ⟨e, List.mem_filter.mpr ⟨hdelivered.mem_due hle hfew he, ?_⟩, hmem⟩
    -- Only announcements of transactions name any.
    rw [hl.topics_eq]
    cases e with
    | transactions txs isLocal => rfl
    | transfers txs isLocal => cases hmem
    | reorg head => cases hmem
  · refine Or.inr ?_
    omega

/-- A filter that goes on takes in what is read, and misses what was overtaken. -/
theorem Covers.accounted_of_fed (h : Covers s views history)
    (hopen : (s.run history).bus.closed = false)
    (hbefore : (s.run history).pool.has hash = true) {l : Subscriber} (hl : (s.run history).Feeds l)
    {views' : Views}
    (hfilter : ((s.run history).act (.filter views')).filter
      = feed (s.run history).filter (announced ((s.run history).unread l)))
    (hheld : ((s.run history).act (.filter views')).pool.has hash = true) :
    Accounted s views (history ++ [.filter views']) hash := by
  have hcurrent : ((s.run history).act (.filter views')).filter.resets
      = (s.run history).filter.resets := by
    rw [hfilter, resets_feed]
  rcases h.accounted hopen hash hbefore with haccounted | hunread
  · refine haccounted.concat (fun hreported => ?_) hcurrent hheld
    rw [hfilter]
    exact has_feed h.sound _ (Or.inr hreported)
  · obtain ⟨i, hletIn, hread | hlost⟩ := hunread.read_or hl
    · refine Or.inl ?_
      rw [run_concat, hfilter]
      exact has_feed h.sound _ (Or.inl hread)
    · refine Or.inr (Or.inr ⟨i, history.length, views', List.getElem?_concat_length,
        hletIn.concat (Nat.le_refl _) hcurrent hheld, ?_⟩)
      rw [moment_concat (Nat.le_refl _), moment_concat (Nat.le_of_lt hletIn.lt), moment_length]
      exact hlost

/-- A filter that is built anew reports what is executable, and leaves out the rest. -/
theorem accounted_of_rebuilt {views' : Views}
    (hnew : ((s.run history).act (.filter views')).filter.resets ≠ (s.run history).filter.resets)
    (hhas : ∀ id ∈ (((s.run history).act (.filter views')).pool.executable views').map Transaction.hash,
      ((s.run history).act (.filter views')).filter.has id.toList = true)
    (hheld : ((s.run history).act (.filter views')).pool.has hash = true) :
    Accounted s views (history ++ [.filter views']) hash := by
  by_cases hexecutable : hash ∈
      (((s.run history).act (.filter views')).pool.executable views').map Transaction.hash
  · refine Or.inl ?_
    rw [run_concat]
    exact hhas hash hexecutable
  · refine Or.inr (Or.inl ⟨history.length + 1, views',
      .rebuilt List.getElem?_concat_length ?_, HeldSince.now hheld, ?_⟩)
    · rw [moment_concat_length, moment_concat (Nat.le_refl _), moment_length]
      exact hnew
    · rw [moment_concat_length]
      exact hexecutable

/-- **A call for the filter** covers what was announced, and what is executable
if the filter is built anew. -/
theorem Covers.filter (h : Covers s views history) (views' : Views) :
    Covers s views (history ++ [.filter views']) := by
  obtain ⟨l, hl⟩ := h.feeds
  obtain ⟨hpools, _, _, hfilter⟩ := sync_eq hl views'
  refine ⟨?_, ⟨{ l with position := (s.run history).bus.sent }, ?_⟩, fun hopen hash hheld => Or.inl ?_⟩
  · rw [run_concat]
    exact sound_sync hl h.sound views'
  · rw [run_concat]
    exact hl.sync views'
  rw [run_concat] at hopen hheld
  have hopen : (s.run history).bus.closed = false := (closed_sync hl views').symm.trans hopen
  have hbefore : (s.run history).pool.has hash = true := (has_sync hl views' hash).symm.trans hheld
  rw [hopen, if_neg Bool.false_ne_true] at hfilter
  obtain ⟨_, room, hfilter⟩ := hfilter
  rcases Bloom.RollingFilter.refresh_or (feed (s.run history).filter
      (announced ((s.run history).unread l))) room
      (((s.run history).pool.executable views').map Transaction.hash) with hsame | ⟨hresets, hhas⟩
  · exact h.accounted_of_fed hopen hbefore hl (hfilter.trans hsame) hheld
  · rw [← hfilter] at hresets hhas
    have hexecutable := executable_congr hpools views'
    refine accounted_of_rebuilt ?_ ?_ hheld
    · show ((s.run history).sync views').1.filter.resets ≠ _
      rw [hresets, resets_feed]
      exact Nat.succ_ne_self _
    · show ∀ id ∈ (((s.run history).sync views').1.pool.executable views').map Transaction.hash, _
      rw [hexecutable]
      exact hhas

theorem Covers.concat (h : Covers s views history) (action : Action) :
    Covers s views (history ++ [action]) := by
  cases action with
  | filter views' => exact h.filter views'
  | _ => exact h.other nofun

theorem Covers.append (h : Covers s views history) (rest : List Action) :
    Covers s views (history ++ rest) := by
  induction rest generalizing history with
  | nil => rwa [List.append_nil]
  | cons action rest ih =>
    rw [List.append_cons]
    exact ih (h.concat action)

/-! ## From the beginning -/

theorem new_eq_ok_iff {c : Coordinator NoncePool} {settings : Bloom.Settings} {salts : Nat → Salt} :
    new c views settings salts = .ok s ↔ settings.validate = .ok () ∧
      ({ pool := (c.subscribe [.transactions]).1
         filter := feed (.start settings salts) (c.executable views)
         subscription := c.commons.bus.nextId } : PoolSet) = s := by
  rw [new, Bloom.RollingFilter.new]
  cases settings.validate with
  | error e => exact ⟨nofun, fun h => nomatch h.1⟩
  | ok _ => exact ⟨fun h => ⟨rfl, Except.ok.inj h⟩, fun h => congrArg Except.ok h.2⟩

/-- A new set covers its pool. -/
theorem covers_new {c : Coordinator NoncePool} {settings : Bloom.Settings} {salts : Nat → Salt}
    (hnew : new c views settings salts = .ok s) : Covers s views [] := by
  obtain ⟨_, rfl⟩ := new_eq_ok_iff.mp hnew
  have hsound := Bloom.RollingFilter.sound_start settings salts
  refine ⟨sound_feed hsound _, ⟨⟨[.transactions], c.commons.bus.sent⟩, ?_, rfl, Nat.le_refl _,
    Nat.lt_succ_self _⟩, fun _ hash hheld => Or.inl ?_⟩
  · exact (Entries.getElem?_insert _ _ _ _).trans (if_pos rfl)
  by_cases hexecutable : hash ∈ (c.executable views).map Transaction.hash
  · exact Or.inl (has_feed hsound _ (Or.inl (List.mem_map.mp hexecutable)))
  · refine Or.inr (Or.inl ⟨0, views, .created, ⟨Nat.le_refl _, rfl, fun j _ hj => ?_⟩, hexecutable⟩)
    rw [Nat.le_zero.mp hj]
    exact hheld

/-- What is handed out is the filter after the call. -/
theorem filter_eq_ok_iff {sent : Bytes × Salt} :
    (GossipSet.filter s views).2 = .ok sent ↔
      (s.sync views).2 = .ok () ∧ (s.act (.filter views)).filter.marshal = sent := by
  simp only [GossipSet.filter, act]
  generalize s.sync views = synced
  obtain ⟨s', r⟩ := synced
  cases r with
  | error e =>
    constructor
    · intro h
      cases h
    · rintro ⟨h, _⟩
      cases h
  | ok _ => exact ⟨fun h => ⟨rfl, Except.ok.inj h⟩, fun h => congrArg Except.ok h.2⟩

/-- **The filter covers the pool.** Whatever happens to a coordinator and the set
on it, a filter is handed out until the bus is closed, and reports to everybody
whom it is sent to each transaction that the coordinator holds, but for those
that were left out when the filter was begun, for not being executable, and
those that were overtaken on the bus. -/
theorem reports_of_history {c : Coordinator NoncePool} {settings : Bloom.Settings}
    {salts : Nat → Salt} (hnew : new c views settings salts = .ok s) (history : List Action)
    (views' : Views) :
    ((s.run history).bus.closed = false →
      ∃ sent, (GossipSet.filter (s.run history) views').2 = .ok sent) ∧
    ∀ sent, (GossipSet.filter (s.run history) views').2 = .ok sent →
      ∀ hash, (s.run history).pool.has hash = true →
        Bloom.Reports sent hash ∨ LeftOut s views (history ++ [.filter views']) hash ∨
          Overtaken s (history ++ [.filter views']) hash := by
  have hcovers := (covers_new hnew).append history
  rw [List.nil_append] at hcovers
  obtain ⟨l, hl⟩ := hcovers.feeds
  obtain ⟨_, _, _, hfilter⟩ := sync_eq hl views'
  constructor
  · intro hopen
    rw [hopen, if_neg Bool.false_ne_true] at hfilter
    exact ⟨_, filter_eq_ok_iff.mpr ⟨hfilter.1, rfl⟩⟩
  · intro sent hsent hash hbefore
    obtain ⟨hok, hmarshal⟩ := filter_eq_ok_iff.mp hsent
    have hopen : (s.run history).bus.closed = false := by
      refine Bool.eq_false_iff.mpr fun hclosed => ?_
      rw [if_pos hclosed, hok] at hfilter
      cases hfilter.2
    have hafter := hcovers.filter views'
    have hopenAfter : (s.run (history ++ [.filter views'])).bus.closed = false := by
      rw [run_concat]
      exact (closed_sync hl views').trans hopen
    have hheld : (s.run (history ++ [.filter views'])).pool.has hash = true := by
      rw [run_concat]
      exact (has_sync hl views' hash).trans hbefore
    rcases hafter.accounted hopenAfter hash hheld with (hhas | hexcused) | hunread
    · refine Or.inl ?_
      rw [run_concat] at hhas
      have hsound := hafter.sound
      rw [run_concat] at hsound
      rw [← hmarshal]
      exact hsound.reports_iff.mpr hhas
    · exact Or.inr hexcused
    · -- The filter was asked for just now.
      obtain ⟨i, _, hletIn, _⟩ := hunread
      have hlt := hletIn.lt
      rw [List.length_append, List.length_singleton] at hletIn hlt
      exact absurd List.getElem?_concat_length
        (hletIn.quiet history.length (Nat.le_of_lt_succ hlt) (Nat.lt_succ_self _) views')

/-! ## One transaction that waits for its turn -/

/-- An execution layer to which everything is acceptable, with one nonce for all
accounts. -/
def answering (nonce : UInt64) : Views := fun _ => ⟨fun _ => .ok (), fun _ => nonce⟩

/-- A transaction that is second. -/
def second : Transaction := { (default : Transaction) with nonce := 1 }

/-- A coordinator of one new sub-pool for everything. -/
def single : Coordinator NoncePool where
  pools := [{ NoncePool.new "" .small (fun _ => true) with seat := some 0, head := some default }]
  commons := ⟨Reservations.new 1, Bus.new Bus.standardCapacity⟩
  head := default
  resets := 0
  loop := ResetLoop.start default
  closed := false
  journal := [.attach 0]

theorem start_single :
    Coordinator.start default (Coordinator.freshPools [("", .small, fun _ => true)])
      = .running single := rfl

/-- The coordinator that was offered the second transaction before the first. -/
def holding : Coordinator NoncePool := single.act (.add (answering 0) [second] true false)

/-- The transaction is held, and executable once it is its turn. -/
theorem executable_holding : holding.has second.hash = true ∧
    holding.executable (answering 0) = [] ∧ holding.executable (answering 1) = [second] := by
  decide +kernel

/-- There is a set on a coordinator. -/
theorem exists_new (c : Coordinator NoncePool) (views : Views) :
    ∃ s, new c views .small (fun _ => default) = .ok s ∧
      s.pool = (c.subscribe [.transactions]).1 ∧
      s.filter = feed (.start .small fun _ => default) (c.executable views) ∧
      s.Feeds ⟨[.transactions], s.bus.sent⟩ := by
  have hvalid : Bloom.Settings.small.validate = .ok () := rfl
  refine ⟨_, new_eq_ok_iff.mpr ⟨hvalid, rfl⟩, rfl, rfl, ?_, rfl, Nat.le_refl _, Nat.lt_succ_self _⟩
  exact (Entries.getElem?_insert _ _ _ _).trans (if_pos rfl)

theorem eq_of_getElem?_singleton {k : Nat} {views views' : Views}
    (h : [Action.filter views][k]? = some (.filter views')) : k = 0 ∧ views = views' := by
  cases k with
  | zero => exact ⟨rfl, Action.filter.inj (Option.some.inj h)⟩
  | succ k => cases h

/-- If it is its turn when the set is made then the transaction is reported. -/
theorem reports_second :
    ∃ s sent, new holding (answering 1) .small (fun _ => default) = .ok s ∧
      (GossipSet.filter s (answering 1)).2 = .ok sent ∧ s.pool.has second.hash = true ∧
      Bloom.Reports sent second.hash := by
  obtain ⟨hheld, _, hexecutable⟩ := executable_holding
  obtain ⟨s, hnew, hpool, _, hfeeds⟩ := exists_new holding (answering 1)
  have hpools : s.pool.pools = holding.pools := by rw [hpool]; rfl
  have hopen : s.bus.closed = false := by rw [bus, hpool]; rfl
  obtain ⟨hsome, hreports⟩ := reports_of_history hnew [] (answering 1)
  obtain ⟨sent, hsent⟩ := hsome hopen
  have hhas : s.pool.has second.hash = true := (has_congr hpools _).trans hheld
  refine ⟨s, sent, hnew, hsent, hhas, ?_⟩
  have hpresent : ∀ c : Coordinator NoncePool, c.pools = holding.pools →
      second.hash ∈ (c.executable (answering 1)).map Transaction.hash := by
    intro c hc
    rw [executable_congr hc, hexecutable]
    exact List.mem_cons_self
  rcases hreports sent hsent _ hhas with
    hreported | ⟨i, views', hbegun, _, hnot⟩ | ⟨i, k, _, hcall, hletIn, _⟩
  · exact hreported
  · -- It is executable in both moments.
    cases hbegun with
    | created => exact absurd (hpresent s.pool hpools) hnot
    | rebuilt hcall _ =>
      obtain ⟨rfl, rfl⟩ := eq_of_getElem?_singleton hcall
      refine absurd (hpresent (s.sync (answering 1)).1.pool ?_) hnot
      exact (sync_eq hfeeds (answering 1)).1.trans hpools
  · -- There is no moment before the call.
    obtain ⟨rfl, _⟩ := eq_of_getElem?_singleton hcall
    exact absurd hletIn.lt (Nat.not_lt_zero i)

/-! ## Two ways of not being reported -/

/-- A filter without insertions reports nothing. -/
theorem not_reports_start (settings : Bloom.Settings) (salts : Nat → Salt) (id : Digest) :
    ¬Bloom.Reports (Bloom.RollingFilter.start settings salts).marshal id := by
  rw [(Bloom.RollingFilter.sound_start settings salts).reports_iff, Bool.not_eq_true]
  exact Bloom.BloomFilter.not_contains_new _ _ _ _

/-- A filter that was begun with nothing reports nothing until something is read. -/
theorem not_reports_of_unread {s : PoolSet} {l : Subscriber} (hfeeds : s.Feeds l)
    (hopen : s.bus.closed = false) (hfilter : s.filter = .start .small fun _ => default)
    (hunread : announced (s.unread l) = []) (views : Views) (hash : Digest) :
    ∃ sent, (GossipSet.filter s views).2 = .ok sent ∧ ¬Bloom.Reports sent hash := by
  obtain ⟨_, _, _, hsync⟩ := sync_eq hfeeds views
  rw [hopen, if_neg Bool.false_ne_true, hunread, hfilter] at hsync
  obtain ⟨hok, room, hafter⟩ := hsync
  have hstart : (s.act (.filter views)).filter = .start .small fun _ => default := hafter
  refine ⟨_, filter_eq_ok_iff.mpr ⟨hok, rfl⟩, ?_⟩
  rw [hstart]
  exact not_reports_start _ _ _

/-- The transaction is held and executable, but had to wait for its turn when the
set was made. -/
theorem not_reports_of_waiting :
    ∃ s sent, new holding (answering 0) .small (fun _ => default) = .ok s ∧
      (GossipSet.filter s (answering 1)).2 = .ok sent ∧ s.pool.has second.hash = true ∧
      s.pool.executable (answering 1) = [second] ∧ ¬Bloom.Reports sent second.hash := by
  obtain ⟨hheld, hwaits, hexecutable⟩ := executable_holding
  obtain ⟨s, hnew, hpool, hfilter, hfeeds⟩ := exists_new holding (answering 0)
  rw [hwaits] at hfilter
  have hpools : s.pool.pools = holding.pools := by rw [hpool]; rfl
  have hopen : s.bus.closed = false := by rw [bus, hpool]; rfl
  -- Nothing was announced since, so nothing is due.
  have hunread : announced (s.unread ⟨[.transactions], s.bus.sent⟩) = [] := by
    have hdue : s.bus.due ⟨[.transactions], s.bus.sent⟩ = [] := by
      rw [Bus.due, Nat.max_eq_left (Nat.sub_le _ _), Bus.since, Nat.sub_self]
      rfl
    rw [unread, hdue]
    rfl
  obtain ⟨sent, hsent, hnot⟩ :=
    not_reports_of_unread hfeeds hopen hfilter hunread (answering 1) second.hash
  exact ⟨s, sent, hnew, hsent, (has_congr hpools _).trans hheld,
    (executable_congr hpools _).trans hexecutable, hnot⟩

/-- Something is announced so many times, and nothing else happens. -/
theorem run_announce {s : PoolSet} (hopen : s.bus.closed = false)
    (hroom : s.bus.recent.length ≤ s.bus.slots) (listener : Nat) (e : Event) (n : Nat) :
    ∃ bus, s.run (List.replicate n (.announce e)) = s.onBus bus ∧ bus.closed = false ∧
      bus.recent.length ≤ s.bus.slots ∧ Delivered listener s.bus bus (List.replicate n e) := by
  induction n generalizing s with
  | zero => exact ⟨s.bus, rfl, hopen, hroom, Delivered.refl listener s.bus⟩
  | succ n ih =>
    have hpublish := Delivered.publish listener s.bus e
    rw [hopen, if_neg Bool.false_ne_true] at hpublish
    have hslots : (s.act (.announce e)).bus.slots = s.bus.slots := hpublish.slots_eq
    have hnext : (s.act (.announce e)).bus.closed = false ∧
        (s.act (.announce e)).bus.recent.length ≤ s.bus.slots := by
      show (s.bus.publish e).1.closed = false ∧ (s.bus.publish e).1.recent.length ≤ s.bus.slots
      rw [Bus.publish]
      dsimp only
      rw [if_neg (Bool.eq_false_iff.mp hopen), List.length_take]
      exact ⟨hopen, Nat.min_le_left _ _⟩
    obtain ⟨bus, hrun, hclosed, hlength, hdelivered⟩ := ih hnext.1 (hslots ▸ hnext.2)
    rw [hslots] at hlength
    rw [List.replicate_succ, List.replicate_succ]
    exact ⟨bus, hrun, hclosed, hlength, hpublish.trans hdelivered⟩

/-- A bus that has announced one event more often than it keeps announcements
keeps nothing else. -/
theorem eq_of_mem_due {b b' : Bus} {listener n : Nat} {e x : Event} {l : Subscriber}
    (hd : Delivered listener b b' (List.replicate n e)) (hn : b.slots ≤ n)
    (hroom : b'.recent.length ≤ b.slots) (hx : x ∈ b'.due l) : x = e := by
  have hkept := hd.kept
  rw [List.reverse_replicate, List.take_append, List.length_replicate, Nat.sub_eq_zero_of_le hn,
    List.take_zero, List.append_nil, List.take_replicate, Nat.min_eq_left hn] at hkept
  have hrecent : List.replicate b.slots e = b'.recent :=
    hkept.eq_of_length_le (by rw [List.length_replicate]; exact hroom)
  rw [Bus.due, Bus.since, List.mem_reverse, ← hrecent] at hx
  exact List.eq_of_mem_replicate (List.mem_of_mem_take hx)

/-- The transaction is offered, and then resets are announced. -/
def crowded : List Action :=
  .pool (.add (answering 0) [second] true false) ::
    List.replicate Bus.standardCapacity (.announce (.reorg default))

/-- The transaction was let in after the set was made, but its announcement is
not kept any more. -/
theorem not_reports_of_crowd :
    ∃ s sent, new single (answering 0) .small (fun _ => default) = .ok s ∧
      (GossipSet.filter (s.run crowded) (answering 1)).2 = .ok sent ∧
      (s.run crowded).pool.has second.hash = true ∧
      (s.run crowded).pool.executable (answering 1) = [second] ∧ ¬Bloom.Reports sent second.hash := by
  obtain ⟨hheld, _, hexecutable⟩ := executable_holding
  obtain ⟨s, hnew, hpool, hfilter, hfeeds⟩ := exists_new single (answering 0)
  have hnothing : single.executable (answering 0) = [] := rfl
  rw [hnothing] at hfilter
  -- The set after the transaction was let in.
  have hother : ∀ views, Action.pool (.add (answering 0) [second] true false) ≠ .filter views := nofun
  obtain ⟨hsame, hsubscription, es, hopenly⟩ := openly_act hfeeds hother
  have hpool' : (s.act (.pool (.add (answering 0) [second] true false))).pool
      = (single.subscribe [.transactions]).1.act (.add (answering 0) [second] true false) := by
    rw [← hpool]
    rfl
  have hfeeds' := hfeeds.of_delivered hsubscription hopenly.delivered
  have hrun : s.run crowded = (s.act (.pool (.add (answering 0) [second] true false))).run
      (List.replicate Bus.standardCapacity (.announce (.reorg default))) := by
    rw [crowded, run, List.foldl_cons, run]
  generalize s.act (.pool (.add (answering 0) [second] true false)) = s' at hsame hpool' hfeeds' hrun
  have hopen : s'.bus.closed = false := by rw [bus, hpool']; rfl
  have hslots : s'.bus.slots = Bus.standardCapacity := by rw [bus, hpool']; decide +kernel
  have hroom : s'.bus.recent.length ≤ s'.bus.slots := by rw [bus, hpool']; decide +kernel
  -- And the set after the announcements.
  obtain ⟨bus', hcrowd, hclosed, hlength, hdelivered⟩ :=
    run_announce hopen hroom s'.subscription (.reorg default) Bus.standardCapacity
  rw [hcrowd] at hrun
  have hfeeds'' : (s'.onBus bus').Feeds ⟨[.transactions], s.bus.sent⟩ :=
    hfeeds'.of_delivered rfl hdelivered
  have hunread : announced ((s'.onBus bus').unread ⟨[.transactions], s.bus.sent⟩) = [] := by
    refine List.flatMap_eq_nil_iff.mpr fun x hx => ?_
    rw [eq_of_mem_due hdelivered (Nat.le_of_eq hslots) hlength (List.mem_filter.mp hx).1]
  have hpools : (s'.onBus bus').pool.pools = holding.pools := by
    show s'.pool.pools = holding.pools
    rw [hpool']
    rfl
  obtain ⟨sent, hsent, hnot⟩ :=
    not_reports_of_unread hfeeds'' hclosed (hsame.trans hfilter) hunread (answering 1) second.hash
  rw [← hrun] at hsent hpools
  exact ⟨s, sent, hnew, hsent, (has_congr hpools _).trans hheld,
    (executable_congr hpools _).trans hexecutable, hnot⟩

/-- **Not everything that is held is reported**, not even if it is executable: the
transaction may have had to wait when the set was made, or so much may have been
announced that its own announcement was overwritten. -/
theorem exists_unreported :
    ∃ c, Coordinator.start default (Coordinator.freshPools [("", .small, fun _ => true)]) = .running c ∧
      (∃ s sent,
        new (c.act (.add (answering 0) [second] true false)) (answering 0) .small (fun _ => default)
          = .ok s ∧
        (GossipSet.filter s (answering 1)).2 = .ok sent ∧ s.pool.has second.hash = true ∧
        s.pool.executable (answering 1) = [second] ∧ ¬Bloom.Reports sent second.hash) ∧
      ∃ s sent, new c (answering 0) .small (fun _ => default) = .ok s ∧
        (GossipSet.filter (s.run crowded) (answering 1)).2 = .ok sent ∧
        (s.run crowded).pool.has second.hash = true ∧
        (s.run crowded).pool.executable (answering 1) = [second] ∧
        ¬Bloom.Reports sent second.hash :=
  ⟨single, start_single, not_reports_of_waiting, not_reports_of_crowd⟩

end TxRelay.PoolSet
