/-
The filter over the transfer pool.

Nothing that is asked of the pool touches its filter, but for a transfer that
is put in and for the look afterwards whether the filter has taken in too much.
So the filter stays one that a stranger accepts, it reports everything that is
pooled, and at the end of every look it is within its bounds or new.
-/
import TxRelay.Proofs.FilterBytes
import TxRelay.Proofs.Mempool

set_option autoImplicit false

namespace TxRelay

namespace TransferStore

/-! ## What leaves the filter alone -/

section
variable (s : TransferStore)

theorem filter_remove (id : Digest) : (s.remove id).1.filter = s.filter := by
  rw [remove]
  split
  · rfl
  · rfl

theorem filter_removeAll (ids : List Digest) : (s.removeAll ids).1.filter = s.filter := by
  induction ids generalizing s with
  | nil => rfl
  | cons id rest ih => rw [removeAll_cons, ih, filter_remove]

theorem filter_evict : s.evict.1.filter = s.filter := by
  rw [evict]
  split
  · rfl
  · exact s.filter_remove _

theorem filter_issue (id : Digest) : (s.issue id).1.filter = s.filter := by
  rw [issue]
  split
  · rfl
  · split
    · rfl
    · rfl

theorem filter_issueAll (picked : List PooledTransfer) :
    (picked.foldl (fun s e => (s.issue e.id).1) s).filter = s.filter := by
  induction picked generalizing s with
  | nil => rfl
  | cons e rest ih => rw [List.foldl_cons, ih, filter_issue]

theorem filter_reopen (id : Digest) : (s.reopen id).1.filter = s.filter := by
  rw [reopen]
  split
  · rfl
  · split
    · rfl
    · rfl

theorem filter_reopenAll (ids : List Digest) : (s.reopenAll ids).1.filter = s.filter := by
  induction ids generalizing s with
  | nil => rfl
  | cons id rest ih => exact (ih (s.reopen id).1).trans (s.filter_reopen id)

end

/-! ## Bounds -/

/-- **The filter is within its bounds**: it has taken in no more than it may, or
it is the generation after a given one and has taken in each transfer once. -/
def InBounds (before : Bloom.RollingFilter) (s : TransferStore) : Prop :=
  s.filter.filter.n ≤ s.filter.maxCount ∨
    ∃ (room : Nat) (ids : List Digest), ids.Nodup ∧ (∀ id, id ∈ ids ↔ s.contains id = true) ∧
      s.filter = ids.foldl (fun f id => f.add id.toList) (before.reset room) ∧
      s.filter.filter.n = s.size

/-- Each insertion is counted. -/
theorem count_foldl_add (f : Bloom.RollingFilter) (ids : List Digest) :
    (ids.foldl (fun f id => f.add id.toList) f).filter.n = f.filter.n + ids.length := by
  induction ids generalizing f with
  | nil => rfl
  | cons id rest ih =>
    have hone : (f.add id.toList).filter.n = f.filter.n + 1 := rfl
    rw [List.foldl_cons, ih, hone, List.length_cons]
    omega

/-- **After a look** the filter is within its bounds. -/
theorem inBounds_refresh (s : TransferStore) : s.refresh.InBounds s.filter := by
  by_cases hstale : s.filter.isStale = true
  · have hfilter : s.refresh.filter = s.entries.keys.foldl (fun f id => f.add id.toList)
        (s.filter.reset (s.size * s.filter.settings.churn)) := if_pos hstale
    refine Or.inr ⟨_, s.entries.keys, Std.ExtTreeMap.nodup_keys, fun id => ?_, hfilter, ?_⟩
    · exact Std.ExtTreeMap.mem_keys.trans Std.ExtTreeMap.contains_iff_mem.symm
    · have hempty : (s.filter.reset (s.size * s.filter.settings.churn)).filter.n = 0 := rfl
      rw [hfilter, count_foldl_add, hempty, Nat.zero_add, Std.ExtTreeMap.length_keys]
      rfl
  · have hfilter : s.refresh.filter = s.filter := if_neg hstale
    have hcount : ¬s.filter.maxCount < s.filter.filter.n := fun hlt => hstale (decide_eq_true hlt)
    refine Or.inl ?_
    rw [hfilter]
    exact Nat.le_of_not_lt hcount

end TransferStore

namespace Mempool

open TransferStore (InBounds)

/-! ## Letting in -/

theorem filter_evictUpTo (n : Nat) (s : TransferStore) : (evictUpTo n s).1.filter = s.filter := by
  induction n generalizing s with
  | zero => rfl
  | succ n ih =>
    have he := s.filter_evict
    rw [evictUpTo]
    generalize s.evict = evicted at he ⊢
    obtain ⟨s', e⟩ := evicted
    cases e with
    | none => exact he
    | some e => exact (ih s').trans he

/-- A transfer is put into the filter, and then the filter is looked at. -/
theorem exists_place_eq_refresh (maxSize : Nat) (s : TransferStore) (tx : Transfer) (isLocal : Bool) :
    ∃ kept : TransferStore, kept.filter = s.filter.add tx.id.toList ∧
      (place maxSize s tx isLocal).1 = kept.refresh := by
  refine ⟨_, ?_, rfl⟩
  have hinserted : ((s.removeAll (s.rivals tx)).1.insert tx isLocal).filter
      = (s.removeAll (s.rivals tx)).1.filter.add tx.id.toList := rfl
  rw [filter_evictUpTo, hinserted, s.filter_removeAll]

/-- A check has nothing to say about room. -/
theorem check_ne_full (b : TransferBackend) (s : TransferStore) (tx : Transfer) :
    check b s tx ≠ .error .full := by
  intro hfull
  rw [check] at hfull
  split at hfull
  · cases hfull
  · split at hfull
    · cases hfull
    · split at hfull
      · cases hfull
      · cases hfull

variable {p : Mempool}

/-- **An offer** is placed, or it leaves the filter alone and was refused for
another reason than room. -/
theorem placed_or_refused (p : Mempool) (b : TransferBackend) (tx : Transfer) (isLocal : Bool) :
    (p.add b tx isLocal).1.store
        = (place p.settings.maxSize (p.store.verdict tx.id).1 tx isLocal).1 ∨
      (p.add b tx isLocal).1.store.filter = p.store.filter ∧
        ∃ e, (p.add b tx isLocal).2 = .error e ∧ e ≠ .full := by
  rw [add]
  dsimp only
  split
  · refine Or.inr ⟨rfl, _, rfl, fun hfull => ?_⟩
    cases hfull
  have hsame : (p.store.verdict tx.id).1.filter = p.store.filter := rfl
  split
  · next s reason heq =>
    rw [heq] at hsame
    refine Or.inr ⟨hsame, _, rfl, fun hfull => ?_⟩
    cases hfull
  next s heq =>
  rw [heq] at hsame ⊢
  split
  · next e hcheck =>
    refine Or.inr ⟨?_, e, rfl, fun hfull => check_ne_full b s tx (by rw [hcheck, hfull])⟩
    show (if e.isMemorable then s.remember tx.id e.message else s).filter = _
    split
    · exact hsame
    · exact hsame
  · refine Or.inl ?_
    split
    · rfl
    · rfl

/-- What is inserted is inserted within the bounds. -/
theorem inBounds_add {b : TransferBackend} {tx : Transfer} {isLocal : Bool}
    (hinserted : (p.add b tx isLocal).2 = .ok () ∨ (p.add b tx isLocal).2 = .error .full) :
    (p.add b tx isLocal).1.store.InBounds p.store.filter := by
  rcases placed_or_refused p b tx isLocal with hplaced | ⟨_, e, herror, hne⟩
  · obtain ⟨kept, hfilter, hkept⟩ :=
      exists_place_eq_refresh p.settings.maxSize (p.store.verdict tx.id).1 tx isLocal
    have hbounds := kept.inBounds_refresh
    -- The next generation is the same, whatever the last one has taken in.
    rw [hfilter] at hbounds
    rw [hplaced, hkept]
    exact hbounds
  · rw [herror] at hinserted
    rcases hinserted with hok | hfull
    · cases hok
    · exact absurd (Except.error.inj hfull) hne

theorem inBounds_confirm (p : Mempool) (ids : List Digest) :
    (p.confirm ids).1.store.InBounds p.store.filter := by
  have hbounds := (p.store.removeAll ids).1.inBounds_refresh
  rw [TransferStore.filter_removeAll] at hbounds
  exact hbounds

/-! ## Runs -/

/-- **Whatever is asked of the pool**, a stranger would accept its filter. -/
theorem sound_act (h : p.store.filter.Sound) (action : Action) : (p.act action).store.filter.Sound := by
  cases action with
  | add b tx isLocal =>
    show (p.add b tx isLocal).1.store.filter.Sound
    rcases placed_or_refused p b tx isLocal with hplaced | ⟨hsame, _⟩
    · obtain ⟨kept, hfilter, hkept⟩ :=
        exists_place_eq_refresh p.settings.maxSize (p.store.verdict tx.id).1 tx isLocal
      have hsound : kept.filter.Sound := by
        rw [hfilter]
        exact Bloom.RollingFilter.Sound.add h tx.id.toList
      rw [hplaced, hkept]
      exact hsound.refresh _ _
    · rw [hsame]
      exact h
  | propose max =>
    show (p.propose max).1.store.filter.Sound
    rw [propose, TransferStore.filter_issueAll]
    exact h
  | confirm ids =>
    have hsound : (p.store.removeAll ids).1.filter.Sound := by
      rw [TransferStore.filter_removeAll]
      exact h
    exact hsound.refresh _ _
  | rollback ids =>
    show (p.store.reopenAll ids).1.filter.Sound
    rw [TransferStore.filter_reopenAll]
    exact h
  | discard id reason =>
    show (p.store.remove id).1.filter.Sound
    rw [TransferStore.filter_remove]
    exact h

theorem sound_run (h : p.store.filter.Sound) (actions : List Action) :
    (p.run actions).store.filter.Sound := by
  induction actions generalizing p with
  | nil => exact h
  | cons action rest ih => exact ih (sound_act h action)

theorem sound_new {settings : MempoolSettings} {salts : Nat → Salt}
    (hnew : new settings salts = .ok p) : p.store.filter.Sound := by
  rw [new] at hnew
  split at hnew
  · cases hnew
  · rw [← Except.ok.inj hnew]
    exact Bloom.RollingFilter.sound_start _ _

/-- A filter that is built on request reports what is pooled. -/
theorem reports_buildFilter (hc : p.store.Coherent) {rate : Float} (hpos : 0 < rate) (hlt : rate < 1)
    (salt : Salt) :
    ∃ bytes, p.buildFilter rate salt = .ok (bytes, salt) ∧
      ∀ id, p.has id = true → Bloom.Reports (bytes, salt) id := by
  have hrate : Bloom.Settings.isRate rate = true := by
    rw [Bloom.Settings.isRate, decide_eq_true hpos, decide_eq_true hlt]
    rfl
  obtain ⟨hsound, hcontains⟩ := (Bloom.BloomFilter.sound_sized
    (max p.size p.settings.filter.minElements) rate).foldl_insert
      (fun e : PooledTransfer => e.id.toList) salt.toList p.store.newestFirst
  refine ⟨_, ?_, fun id hid => hsound.reports_iff.mpr (hcontains id.toList (Or.inl ?_))⟩
  · rw [buildFilter, hrate]
    rfl
  · obtain ⟨e, he⟩ := exists_get?_of_has hid
    refine List.mem_map.mpr ⟨e, hc.mem_newestFirst.mpr ⟨id, he⟩, ?_⟩
    rw [(hc.id_eq he).1]

/-- **The filter over the pool is sound.** Whatever was asked of the pool and
whichever salts were drawn, the filter reports every pooled transfer, here and
to everybody whom it is sent to, and so does one that is built on request. Each
insertion and each confirmation leaves it within its bounds. -/
theorem filter_sound_of_run {settings : MempoolSettings} {salts : Nat → Salt}
    (hnew : new settings salts = .ok p) (actions : List Action) :
    (∀ id, (p.run actions).has id = true →
      (p.run actions).filterHas id = true ∧ Bloom.Reports (p.run actions).filter id) ∧
    (∀ (rate : Float) (salt : Salt), 0 < rate → rate < 1 →
      ∃ bytes, (p.run actions).buildFilter rate salt = .ok (bytes, salt) ∧
        ∀ id, (p.run actions).has id = true → Bloom.Reports (bytes, salt) id) ∧
    (∀ (b : TransferBackend) (tx : Transfer) (isLocal : Bool),
      ((p.run actions).add b tx isLocal).2 = .ok () ∨
          ((p.run actions).add b tx isLocal).2 = .error .full →
        ((p.run actions).add b tx isLocal).1.store.InBounds (p.run actions).store.filter) ∧
    ∀ ids : List Digest,
      ((p.run actions).confirm ids).1.store.InBounds (p.run actions).store.filter := by
  have hc := coherent_run (coherent_new hnew) actions
  have hsound := sound_run (sound_new hnew) actions
  refine ⟨fun id hid => ?_, fun rate salt hpos hlt => reports_buildFilter hc hpos hlt salt,
    fun b tx isLocal hinserted => inBounds_add hinserted, fun ids => inBounds_confirm _ ids⟩
  obtain ⟨e, he⟩ := exists_get?_of_has hid
  have hreported := hc.reported he
  exact ⟨hreported, hsound.reports_iff.mpr hreported⟩

/-- A small pool that was offered one transfer. -/
theorem filter_sound_of_offer :
    ∃ p, new .small (fun _ => default) = .ok p ∧
      (p.run [.add ⟨fun _ => .ok (), fun _ => 0⟩ default true]).has (default : Transfer).id = true ∧
      Bloom.Reports (p.run [.add ⟨fun _ => .ok (), fun _ => 0⟩ default true]).filter
        (default : Transfer).id := by
  obtain ⟨p, hp⟩ := exists_new_small
  have hhas : (p.run [.add ⟨fun _ => .ok (), fun _ => 0⟩ default true]).has (default : Transfer).id
      = true := by
    have hvalid : (⟨fun _ => .ok (), fun _ => 0⟩ : TransferBackend).validate default = .ok () := rfl
    have hentries := entries_add_of_new hp hvalid (by decide) true
    show (p.add ⟨fun _ => .ok (), fun _ => 0⟩ default true).1.store.entries.contains _ = true
    rw [hentries]
    exact Std.ExtTreeMap.contains_insert_self
  exact ⟨p, hp, hhas, ((filter_sound_of_run hp _).1 _ hhas).2⟩

end Mempool

end TxRelay
