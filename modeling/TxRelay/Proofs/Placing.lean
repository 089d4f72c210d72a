/-
How a transfer finds its place in the pool.

A transfer takes the place of its rivals, or it takes up room of its own: where
rivals have gone there is room for it, since the pool never held too many. So
whoever is evicted makes way for a transfer without rivals, one for one, and it
is the newcomer itself if that is the first to go. Hence it is known for every
answer to an offer what the pool is afterwards.
-/
import TxRelay.Proofs.Handover

set_option autoImplicit false

namespace TxRelay

/-- Whoever comes first in the order of eviction is from outside where the other is
not, or else arrived no later. -/
theorem EvictionKey.of_isLE {key key' : EvictionKey} (hle : (compare key key').isLE = true) :
    (key.isLocal = false ∧ key'.isLocal = true) ∨
      (key.isLocal = key'.isLocal ∧ key.seq ≤ key'.seq) := by
  have hle : ((compare key.isLocal key'.isLocal).then
      ((compare key.seq key'.seq).then (compare key.id key'.id))).isLE = true := hle
  rw [Ordering.isLE_then_iff_or, Ordering.isLE_then_iff_and, Std.compare_eq_iff_eq] at hle
  rcases hle with hlocal | ⟨hlocal, hseq, _⟩
  · left
    revert hlocal
    cases key.isLocal <;> cases key'.isLocal <;> decide
  · exact Or.inr ⟨hlocal, Nat.isLE_compare.mp hseq⟩

/-- Whether a transfer is evicted before another one. -/
def PooledTransfer.GoesBefore (e e' : PooledTransfer) : Prop :=
  (e.isLocal = false ∧ e'.isLocal = true) ∨ (e.isLocal = e'.isLocal ∧ e.seq < e'.seq)

theorem PooledTransfer.GoesBefore.asymm {e e' : PooledTransfer} (h : e.GoesBefore e') :
    ¬e'.GoesBefore e := by
  unfold GoesBefore at *
  rintro (⟨hremote, hlocal⟩ | ⟨hsame, hlt⟩)
  · rw [hremote, hlocal] at h
    simp at h
  · rw [hsame] at h
    rcases h with ⟨hremote, hlocal⟩ | ⟨_, hgt⟩
    · rw [hremote] at hlocal
      cases hlocal
    · omega

namespace TransferStore

variable {s : TransferStore} {tx : Transfer} {isLocal : Bool} {e : PooledTransfer}

/-! ## Counting -/

theorem size_insert (hnew : s.get? tx.id = none) (isLocal : Bool) :
    (s.insert tx isLocal).size = s.size + 1 :=
  Entries.size_insert hnew (s.arriving tx isLocal)

theorem size_without (he : s.get? e.id = some e) : (s.without e).size + 1 = s.size :=
  Entries.size_erase he

theorem Coherent.size_remove_le (hc : s.Coherent) (id : Digest) : (s.remove id).1.size ≤ s.size := by
  unfold TransferStore.remove
  split
  · exact Nat.le_refl _
  · next e he =>
    have hsize := size_without (hc.remove_of_some he).2
    show (s.without e).size ≤ s.size
    omega

theorem Coherent.size_removeAll_le (hc : s.Coherent) (ids : List Digest) :
    (s.removeAll ids).1.size ≤ s.size := by
  induction ids generalizing s with
  | nil => exact Nat.le_refl _
  | cons id rest ih =>
    rw [removeAll_cons]
    exact Nat.le_trans (ih (hc.remove id)) (hc.size_remove_le id)

/-- Something is gone if the first of them was there. -/
theorem Coherent.size_removeAll_lt (hc : s.Coherent) {id : Digest} (he : s.get? id = some e)
    (rest : List Digest) : (s.removeAll (id :: rest)).1.size < s.size := by
  obtain ⟨hremove, hown⟩ := hc.remove_of_some he
  have hsize := size_without hown
  have hrest := (hc.without hown).size_removeAll_le rest
  rw [removeAll_cons, hremove]
  dsimp only
  omega

/-- Nothing comes or goes while marks are set. -/
theorem size_eq_of_marks {s' : TransferStore} {issued : Bool} {ids : List Digest}
    (hmarks : ∀ id, s'.get? id
      = if id ∈ ids then (s.get? id).map ({ · with issued }) else s.get? id) : s'.size = s.size := by
  apply Entries.size_congr
  intro id
  have hid : s'.entries[id]? = _ := hmarks id
  rw [hid]
  split
  · exact Option.isSome_map
  · rfl

/-! ## The first to go -/

/-- Two transfers that arrived at the same time are one. -/
theorem Coherent.eq_of_seq (hc : s.Coherent) {id id' : Digest} {e e' : PooledTransfer}
    (he : s.get? id = some e) (he' : s.get? id' = some e') (hseq : e.seq = e'.seq) : e = e' := by
  have hid := hc.arrival.mpr ⟨e, he, hseq⟩
  rw [hc.arrival.mpr ⟨e', he', rfl⟩] at hid
  rw [Option.some.inj hid] at he'
  exact Option.some.inj (he.symm.trans he')

/-- **The first to go**: of the transfers that were not handed over the oldest from outside, or
the oldest of all if none is from outside (`MempoolStore::evict_one`). -/
structure FirstToGo (s : TransferStore) (e : PooledTransfer) : Prop where
  held : s.get? e.id = some e
  free : e.issued = false
  least : ∀ e', s.get? e'.id = some e' → e'.issued = false → e' ≠ e → e.GoesBefore e'

theorem FirstToGo.unique {e' : PooledTransfer} (h : s.FirstToGo e) (h' : s.FirstToGo e') : e = e' := by
  by_cases heq : e = e'
  · exact heq
  · exact absurd (h'.least e h.held h.free heq) (h.least e' h'.held h'.free (Ne.symm heq)).asymm

theorem Coherent.firstToGo_of_min? (hc : s.Coherent) {key : EvictionKey}
    (hkey : s.evictable.min? = some key) : ∃ e, s.FirstToGo e ∧ EvictionKey.of e = key := by
  obtain ⟨hmem, hmin⟩ := Std.ExtTreeSet.min?_eq_some_iff_mem_and_forall.mp hkey
  obtain ⟨e, he, hfree, rfl⟩ := hc.evictable.mp hmem
  refine ⟨e, ⟨he, hfree, ?_⟩, rfl⟩
  intro e' he' hfree' hne
  have hle := hmin (EvictionKey.of e') (hc.evictable.mpr ⟨e', he', hfree', rfl⟩)
  rcases EvictionKey.of_isLE hle with hlocal | ⟨hlocal, hseq⟩
  · exact Or.inl hlocal
  · -- No two transfers arrived at the same time.
    refine Or.inr ⟨hlocal, Nat.lt_of_le_of_ne hseq ?_⟩
    intro hsame
    exact hne (hc.eq_of_seq he' he hsame.symm)

/-- **The first to go is evicted.** -/
theorem Coherent.evict_eq (hc : s.Coherent) (h : s.FirstToGo e) : s.evict = (s.without e, some e) := by
  have hmem := hc.evictable.mpr ⟨e, h.held, h.free, rfl⟩
  unfold TransferStore.evict
  split
  · next hnone =>
    rw [Std.ExtTreeSet.min?_eq_none_iff.mp hnone] at hmem
    exact absurd hmem Std.ExtTreeSet.not_mem_empty
  · next key hkey =>
    obtain ⟨e', h', rfl⟩ := hc.firstToGo_of_min? hkey
    obtain rfl := h.unique h'
    exact (hc.remove_of_some h.held).1

/-- Somebody is the first to go, unless everything was handed over. -/
theorem Coherent.exists_firstToGo (hc : s.Coherent) {id : Digest} (he : s.get? id = some e)
    (hfree : e.issued = false) : ∃ e', s.FirstToGo e' := by
  have hmem : EvictionKey.of e ∈ s.evictable := by
    apply hc.evictable.mpr
    exact ⟨e, (hc.remove_of_some he).2, hfree, rfl⟩
  cases hkey : s.evictable.min? with
  | none =>
    rw [Std.ExtTreeSet.min?_eq_none_iff.mp hkey] at hmem
    exact absurd hmem Std.ExtTreeSet.not_mem_empty
  | some key =>
    obtain ⟨e', h', _⟩ := hc.firstToGo_of_min? hkey
    exact ⟨e', h'⟩

/-- Nobody is evicted where everything was handed over. -/
theorem Coherent.evict_of_issued (hc : s.Coherent)
    (hissued : ∀ id e, s.get? id = some e → e.issued = true) : s.evict = (s, none) := by
  unfold TransferStore.evict
  split
  · rfl
  · next key hkey =>
    obtain ⟨e, hfirst, _⟩ := hc.firstToGo_of_min? hkey
    have hfree := hfirst.free
    rw [hissued e.id e hfirst.held] at hfree
    cases hfree

/-! ## In and out again -/

/-- Taking out stops no clock and forgets no verdict. -/
theorem rest_remove (s : TransferStore) (id : Digest) :
    (s.remove id).1.nextSeq = s.nextSeq ∧ (s.remove id).1.verdicts = s.verdicts := by
  unfold TransferStore.remove
  split
  · exact ⟨rfl, rfl⟩
  · exact ⟨rfl, rfl⟩

theorem rest_removeAll (s : TransferStore) (ids : List Digest) :
    (s.removeAll ids).1.nextSeq = s.nextSeq ∧ (s.removeAll ids).1.verdicts = s.verdicts := by
  induction ids generalizing s with
  | nil => exact ⟨rfl, rfl⟩
  | cons id rest ih =>
    obtain ⟨hseq, hverdicts⟩ := ih (s.remove id).1
    rw [removeAll_cons, hseq, hverdicts]
    exact s.rest_remove id

/-- So does handing back. -/
theorem rest_reopenAll (s : TransferStore) (ids : List Digest) :
    (s.reopenAll ids).1.nextSeq = s.nextSeq ∧ (s.reopenAll ids).1.verdicts = s.verdicts := by
  induction ids generalizing s with
  | nil => exact ⟨rfl, rfl⟩
  | cons id rest ih =>
    obtain ⟨hseq, hverdicts⟩ := ih (s.reopen id).1
    have hreopen : (s.reopen id).1.nextSeq = s.nextSeq ∧ (s.reopen id).1.verdicts = s.verdicts := by
      unfold TransferStore.reopen
      split
      · exact ⟨rfl, rfl⟩
      · split
        · exact ⟨rfl, rfl⟩
        · exact ⟨rfl, rfl⟩
    show ((s.reopen id).1.reopenAll rest).1.nextSeq = _ ∧ ((s.reopen id).1.reopenAll rest).1.verdicts = _
    rw [hseq, hverdicts]
    exact hreopen

theorem unspend_insert {m : Std.ExtTreeMap Digest Digest} (id : Digest) {inputs : List Digest}
    (hfree : ∀ input ∈ inputs, m[input]? = none) :
    unspend id (inputs.foldl (fun m input => m.insert input id) m) inputs = m := by
  apply Std.ExtTreeMap.ext_getElem?
  intro input
  rw [getElem?_unspend, getElem?_foldl_insert]
  by_cases hinput : input ∈ inputs
  · rw [if_pos hinput, if_pos ⟨hinput, rfl⟩, hfree input hinput]
  · rw [if_neg hinput, if_neg (fun h => hinput h.1)]

/-- **A newcomer that is thrown out at once** leaves its mark on the filter and on the
times of arrival, and nowhere else. -/
theorem Coherent.without_arriving (hc : s.Coherent) (hnew : s.get? tx.id = none)
    (hrivals : s.rivals tx = []) :
    (s.insert tx isLocal).without (s.arriving tx isLocal)
      = { s with filter := s.filter.add tx.id.toList, nextSeq := s.nextSeq + 1 } := by
  have hentries : (s.entries.insert tx.id (s.arriving tx isLocal)).erase tx.id = s.entries :=
    Entries.erase_insert hnew (s.arriving tx isLocal)
  have harrival : (s.byArrival.insert s.nextSeq tx.id).erase s.nextSeq = s.byArrival := by
    apply Entries.erase_insert
    cases hid : s.byArrival[s.nextSeq]? with
    | none => rfl
    | some id =>
      obtain ⟨e, he, hseq⟩ := hc.arrival.mp hid
      exact absurd hseq (Nat.ne_of_lt (hc.seq_lt he))
  have hevictable : (s.evictable.insert (EvictionKey.of (s.arriving tx isLocal))).erase
      (EvictionKey.of (s.arriving tx isLocal)) = s.evictable := by
    apply Std.ExtTreeSet.ext_mem
    intro key
    rw [Std.ExtTreeSet.mem_erase, Std.ExtTreeSet.mem_insert, Ne, Std.LawfulEqCmp.compare_eq_iff_eq]
    constructor
    · rintro ⟨hne, heq | hkey⟩
      · exact absurd heq hne
      · exact hkey
    · intro hkey
      refine ⟨?_, Or.inr hkey⟩
      rintro rfl
      obtain ⟨e, he, _, hof⟩ := hc.evictable.mp hkey
      have hid : e.id = tx.id := congrArg EvictionKey.id hof
      rw [hid, hnew] at he
      cases he
  have hspenders : unspend tx.id (tx.inputs.foldl (fun m input => m.insert input tx.id) s.spenders)
      tx.inputs = s.spenders := by
    apply unspend_insert
    intro input hinput
    cases hid : s.spenders[input]? with
    | none => rfl
    | some id =>
      have hrival := mem_rivals.mpr ⟨input, hinput, hid⟩
      rw [hrivals] at hrival
      cases hrival
  show ({ s with
      entries := (s.entries.insert tx.id (s.arriving tx isLocal)).erase tx.id
      evictable := (s.evictable.insert (EvictionKey.of (s.arriving tx isLocal))).erase
        (EvictionKey.of (s.arriving tx isLocal))
      byArrival := (s.byArrival.insert s.nextSeq tx.id).erase s.nextSeq
      spenders := unspend tx.id (tx.inputs.foldl (fun m input => m.insert input tx.id) s.spenders)
        tx.inputs
      filter := s.filter.add tx.id.toList
      nextSeq := s.nextSeq + 1 } : TransferStore) = _
  rw [hentries, hevictable, harrival, hspenders]

end TransferStore

namespace Mempool

open TransferStore (Coherent FirstToGo)

/-! ## Placing -/

section
variable {s : TransferStore} {tx : Transfer} {isLocal : Bool} {maxSize : Nat}

/-- **How a transfer is taken in**: what the transfers are afterwards, and who was
evicted for it. -/
inductive Takes (maxSize : Nat) (s : TransferStore) (tx : Transfer) (isLocal : Bool) :
    TransferStore → List Digest → Prop where
  /-- There is room, or there are rivals whose place it takes. -/
  | entered (hroom : (s.removeAll (s.rivals tx)).1.size < maxSize) :
      Takes maxSize s tx isLocal ((s.removeAll (s.rivals tx)).1.insert tx isLocal).refresh []
  /-- The first to go makes way. -/
  | displacing (e : PooledTransfer) (hrivals : s.rivals tx = []) (hfull : s.size = maxSize)
      (hfirst : s.FirstToGo e) (hbefore : e.GoesBefore (s.arriving tx isLocal)) :
      Takes maxSize s tx isLocal ((s.insert tx isLocal).without e).refresh [e.id]

/-- **What placing can come to.** -/
inductive Placing (maxSize : Nat) (s : TransferStore) (tx : Transfer) (isLocal : Bool) :
    TransferStore × List Digest → Prop where
  | taken (s' : TransferStore) (evicted : List Digest) (h : Takes maxSize s tx isLocal s' evicted) :
      Placing maxSize s tx isLocal (s', evicted)
  /-- The newcomer itself is the first to go. -/
  | turnedAway (hrivals : s.rivals tx = []) (hfull : s.size = maxSize)
      (hlast : ∀ e, s.get? e.id = some e → e.issued = false → (s.arriving tx isLocal).GoesBefore e) :
      Placing maxSize s tx isLocal
        (((s.insert tx isLocal).without (s.arriving tx isLocal)).refresh, [tx.id])

/-- What is taken in is not evicted. -/
theorem Takes.stays {s' : TransferStore} {evicted : List Digest}
    (h : Takes maxSize s tx isLocal s' evicted) (hnew : s.get? tx.id = none) : tx.id ∉ evicted := by
  cases h with
  | entered hroom => exact List.not_mem_nil
  | displacing e hrivals hfull hfirst hbefore =>
    rw [List.mem_singleton]
    intro hid
    have hheld := hfirst.held
    rw [← hid, hnew] at hheld
    cases hheld

theorem get?_removeAll_of_none (hc : s.Coherent) {id : Digest} (hnew : s.get? id = none)
    (ids : List Digest) : (s.removeAll ids).1.get? id = none := by
  rw [hc.get?_removeAll, hnew]
  exact ite_self none

/-- There is room for it. -/
theorem Takes.size_le {s' : TransferStore} {evicted : List Digest}
    (h : Takes maxSize s tx isLocal s' evicted) (hc : s.Coherent) (hnew : s.get? tx.id = none) :
    s'.size ≤ maxSize := by
  cases h with
  | entered hroom =>
    have hgrown :=
      TransferStore.size_insert (get?_removeAll_of_none hc hnew (s.rivals tx)) isLocal
    show ((s.removeAll (s.rivals tx)).1.insert tx isLocal).size ≤ maxSize
    omega
  | displacing e hrivals hfull hfirst hbefore =>
    have hgrown := TransferStore.size_insert hnew isLocal
    have hkept : (s.insert tx isLocal).get? e.id = some e :=
      Coherent.get?_insert_of_some hnew hfirst.held
    have hshrunk := TransferStore.size_without hkept
    show ((s.insert tx isLocal).without e).size ≤ maxSize
    omega

/-- Nothing is remembered about it. -/
theorem Takes.verdicts_eq {s' : TransferStore} {evicted : List Digest}
    (h : Takes maxSize s tx isLocal s' evicted) : s'.verdicts = s.verdicts := by
  cases h with
  | entered hroom => exact (TransferStore.rest_removeAll s _).2
  | displacing e hrivals hfull hfirst hbefore => rfl

/-- The one transfer that is too many is the first to go. -/
theorem evictUpTo_one (hc : s.Coherent) {e : PooledTransfer} (hfirst : s.FirstToGo e) :
    evictUpTo 1 s = (s.without e, [e.id]) := by
  unfold evictUpTo
  rw [hc.evict_eq hfirst]
  rfl

/-- In a full pool a transfer without rivals makes somebody go. -/
theorem placing_of_full (hc : s.Coherent) (hnew : s.get? tx.id = none) (hrivals : s.rivals tx = [])
    (hfull : s.size = maxSize) : Placing maxSize s tx isLocal (place maxSize s tx isLocal) := by
  have hfree := hc.spenders_removeAll_rivals tx
  rw [hrivals] at hfree
  have hplaced : (s.insert tx isLocal).Coherent := hc.insert isLocal hnew hfree
  have hone : (s.insert tx isLocal).size - maxSize = 1 := by
    rw [TransferStore.size_insert hnew isLocal]
    omega
  have harrived : (s.insert tx isLocal).get? tx.id = some (s.arriving tx isLocal) := by
    rw [TransferStore.get?_insert, if_pos rfl]
  obtain ⟨e, hfirst⟩ := hplaced.exists_firstToGo harrived rfl
  have hplace : place maxSize s tx isLocal = (((s.insert tx isLocal).without e).refresh, [e.id]) := by
    unfold place
    rw [hrivals]
    show (let r := evictUpTo ((s.insert tx isLocal).size - maxSize) (s.insert tx isLocal)
      (r.1.refresh, r.2)) = _
    rw [hone, evictUpTo_one hplaced hfirst]
  rw [hplace]
  by_cases hself : e = s.arriving tx isLocal
  · rw [hself] at hfirst ⊢
    apply Placing.turnedAway hrivals hfull
    intro e' he' hfree'
    apply hfirst.least e' (Coherent.get?_insert_of_some hnew he') hfree'
    rintro rfl
    have he' : s.get? tx.id = some (s.arriving tx isLocal) := he'
    rw [hnew] at he'
    cases he'
  · have hold : s.get? e.id = some e := by
      have hheld := hfirst.held
      rw [TransferStore.get?_insert] at hheld
      split at hheld
      · exact absurd (Option.some.inj hheld).symm hself
      · exact hheld
    apply Placing.taken _ _ (Takes.displacing e hrivals hfull ?_ ?_)
    · refine ⟨hold, hfirst.free, fun e' he' hfree' hne => ?_⟩
      exact hfirst.least e' (Coherent.get?_insert_of_some hnew he') hfree' hne
    · exact hfirst.least (s.arriving tx isLocal) harrived rfl (Ne.symm hself)

/-- **Placing** in a pool that does not hold too many. -/
theorem placing_place (hc : s.Coherent) (hnew : s.get? tx.id = none) (hsize : s.size ≤ maxSize)
    (isLocal : Bool) : Placing maxSize s tx isLocal (place maxSize s tx isLocal) := by
  by_cases hroom : (s.removeAll (s.rivals tx)).1.size < maxSize
  · -- Nobody is too many.
    have hgrown := TransferStore.size_insert (get?_removeAll_of_none hc hnew (s.rivals tx)) isLocal
    have hnone : ((s.removeAll (s.rivals tx)).1.insert tx isLocal).size - maxSize = 0 := by omega
    unfold place
    dsimp only
    rw [hnone]
    exact Placing.taken _ _ (Takes.entered hroom)
  · cases hids : s.rivals tx with
    | nil =>
      rw [hids] at hroom
      have hroom : ¬s.size < maxSize := hroom
      exact placing_of_full hc hnew hids (by omega)
    | cons id rest =>
      -- The rivals that have gone have left room.
      obtain ⟨input, _, hspends⟩ :=
        TransferStore.mem_rivals.mp (hids ▸ List.mem_cons_self : id ∈ s.rivals tx)
      obtain ⟨e, he, _⟩ := hc.spender.mp hspends
      have hlt := hc.size_removeAll_lt he rest
      rw [hids] at hroom
      omega

/-- Looking for a verdict that is not there changes nothing. -/
theorem verdict_of_none {id : Digest} (hverdict : s.verdicts.peek? id = none) :
    s.verdict id = (s, none) := by
  unfold TransferStore.verdict Lru.touch
  rw [hverdict]

/-- What the chain and the rivals say against a transfer is worth remembering. -/
theorem isMemorable_of_check {b : TransferBackend} {e : MempoolError}
    (hcheck : check b s tx = .error e) : e.isMemorable = true := by
  unfold check at hcheck
  split at hcheck
  · rw [← Except.error.inj hcheck]
    rfl
  · split at hcheck
    · rw [← Except.error.inj hcheck]
      rfl
    · split at hcheck
      · cases hcheck
      · rw [← Except.error.inj hcheck]
        rfl

end

/-! ## Offers -/

/-- **A pool in order**: its indices agree, and it holds no more than it may. -/
structure Orderly (p : Mempool) : Prop where
  coherent : p.store.Coherent
  size_le : p.store.size ≤ p.settings.maxSize

/-- A transfer may be let in: it is new, no verdict on it is remembered, and it passes the
check (`Mempool::check`). -/
structure Eligible (p : Mempool) (b : TransferBackend) (tx : Transfer) : Prop where
  fresh : p.store.get? tx.id = none
  unjudged : p.store.verdicts.peek? tx.id = none
  passes : check b p.store tx = .ok ()

/-- **What an offer can come to**, with the pool after it and the answer (`Mempool::add`). -/
inductive Offering (p : Mempool) (b : TransferBackend) (tx : Transfer) (isLocal : Bool) :
    Mempool × Except MempoolError Unit → Prop where
  | known (e : PooledTransfer) (he : p.store.get? tx.id = some e) :
      Offering p b tx isLocal (p, .error (.duplicate tx.id))
  | remembered (reason : String) (hnew : p.store.get? tx.id = none)
      (hverdict : p.store.verdicts.peek? tx.id = some reason) :
      Offering p b tx isLocal
        ({ p with store := (p.store.verdict tx.id).1 }, .error (.previouslyRejected reason))
  | unfit (e : MempoolError) (hnew : p.store.get? tx.id = none)
      (hverdict : p.store.verdicts.peek? tx.id = none) (hcheck : check b p.store tx = .error e) :
      Offering p b tx isLocal ({ p with store := p.store.remember tx.id e.message }, .error e)
  | turnedAway (h : p.Eligible b tx) (hrivals : p.store.rivals tx = [])
      (hfull : p.store.size = p.settings.maxSize)
      (hlast : ∀ e, p.store.get? e.id = some e → e.issued = false →
        (p.store.arriving tx isLocal).GoesBefore e) :
      Offering p b tx isLocal
        ({ p with store :=
            ((p.store.insert tx isLocal).without (p.store.arriving tx isLocal)).refresh },
          .error .full)
  | letIn (s : TransferStore) (evicted : List Digest) (h : p.Eligible b tx)
      (htaken : Takes p.settings.maxSize p.store tx isLocal s evicted) :
      Offering p b tx isLocal
        ({ p with store := s, bus := (p.bus.publish (.transfers [tx] isLocal)).1 }, .ok ())

/-- An eligible transfer is placed, and turned away if it does not find a place. -/
theorem offering_of_eligible {p : Mempool} {b : TransferBackend} {tx : Transfer} (hp : p.Orderly)
    (h : p.Eligible b tx) (isLocal : Bool) :
    p.Offering b tx isLocal
      (let (s, evicted) := place p.settings.maxSize p.store tx isLocal
      if evicted.contains tx.id then ({ p with store := s }, .error .full)
      else ({ p with store := s, bus := (p.bus.publish (.transfers [tx] isLocal)).1 }, .ok ())) := by
  have hplaced := placing_place hp.coherent h.fresh hp.size_le isLocal
  generalize place p.settings.maxSize p.store tx isLocal = placed at hplaced ⊢
  cases hplaced with
  | taken s evicted htaken =>
    have hstays : evicted.contains tx.id = false := by
      rw [List.contains_eq_mem, decide_eq_false_iff_not]
      exact htaken.stays h.fresh
    dsimp only
    rw [hstays]
    exact Offering.letIn s evicted h htaken
  | turnedAway hrivals hfull hlast =>
    have hself : [tx.id].contains tx.id = true := by
      rw [List.contains_eq_mem, decide_eq_true_eq]
      exact List.mem_singleton_self _
    dsimp only
    rw [hself]
    exact Offering.turnedAway h hrivals hfull hlast

/-- **Every offer** comes to one of these. -/
theorem Orderly.offering {p : Mempool} (hp : p.Orderly) (b : TransferBackend) (tx : Transfer)
    (isLocal : Bool) : p.Offering b tx isLocal (p.add b tx isLocal) := by
  unfold add
  dsimp only
  split
  · next hknown =>
    unfold isKnown at hknown
    rw [Bool.and_eq_true, TransferStore.contains_eq_isSome, Option.isSome_iff_exists] at hknown
    obtain ⟨_, e, he⟩ := hknown
    exact Offering.known e he
  next hknown =>
  have hnew := get?_of_not_isKnown hp.coherent hknown
  cases hverdict : p.store.verdicts.peek? tx.id with
  | some reason =>
    have hlook : p.store.verdict tx.id = ((p.store.verdict tx.id).1, some reason) := by
      rw [← hverdict]
      rfl
    rw [hlook]
    exact Offering.remembered reason hnew hverdict
  | none =>
    rw [verdict_of_none hverdict]
    dsimp only
    split
    · next e hcheck =>
      rw [isMemorable_of_check hcheck]
      exact Offering.unfit e hnew hverdict hcheck
    · next hcheck => exact offering_of_eligible hp ⟨hnew, hverdict, hcheck⟩ isLocal

/-- **A refused offer** leaves its mark on the filter, on what is remembered and on the
times of arrival, and nowhere else. -/
theorem Orderly.exists_add_eq_of_error {p : Mempool} (hp : p.Orderly) {b : TransferBackend}
    {tx : Transfer} {isLocal : Bool} {e : MempoolError} (herror : (p.add b tx isLocal).2 = .error e) :
    ∃ filter verdicts n, (p.add b tx isLocal).1
      = { p with store := { p.store with filter, verdicts, nextSeq := p.store.nextSeq + n } } := by
  have hoffering := hp.offering b tx isLocal
  generalize p.add b tx isLocal = result at hoffering herror ⊢
  cases hoffering with
  | known e' he' => exact ⟨p.store.filter, p.store.verdicts, 0, rfl⟩
  | remembered reason hnew hverdict => exact ⟨p.store.filter, _, 0, rfl⟩
  | unfit err hnew hverdict hcheck => exact ⟨p.store.filter, _, 0, rfl⟩
  | turnedAway h hrivals hfull hlast =>
    rw [hp.coherent.without_arriving h.fresh hrivals]
    exact ⟨_, p.store.verdicts, 1, rfl⟩
  | letIn s evicted h htaken => cases herror

section
variable {p : Mempool} {b : TransferBackend} {tx : Transfer} {isLocal : Bool}

/-- **What was let in** was eligible, and taken. -/
theorem Orderly.of_ok (hp : p.Orderly) (hok : (p.add b tx isLocal).2 = .ok ()) :
    p.Eligible b tx ∧
      ∃ evicted, Takes p.settings.maxSize p.store tx isLocal (p.add b tx isLocal).1.store evicted := by
  have hoffering := hp.offering b tx isLocal
  generalize p.add b tx isLocal = result at hoffering hok ⊢
  cases hoffering with
  | known e he => cases hok
  | remembered reason hnew hverdict => cases hok
  | unfit e hnew hverdict hcheck => cases hok
  | turnedAway h hrivals hfull hlast => cases hok
  | letIn s evicted h htaken => exact ⟨h, evicted, htaken⟩

/-- **What does not pass the check** is refused for that, and the verdict is remembered. -/
theorem Orderly.add_of_check (hp : p.Orderly) (hnew : p.store.get? tx.id = none)
    (hverdict : p.store.verdicts.peek? tx.id = none) {err : MempoolError}
    (hcheck : check b p.store tx = .error err) (isLocal : Bool) :
    p.add b tx isLocal = ({ p with store := p.store.remember tx.id err.message }, .error err) := by
  have hoffering := hp.offering b tx isLocal
  generalize p.add b tx isLocal = result at hoffering ⊢
  cases hoffering with
  | known e he =>
    rw [hnew] at he
    cases he
  | remembered reason _ hsome =>
    rw [hverdict] at hsome
    cases hsome
  | unfit err' _ _ herr => rw [Except.error.inj (herr.symm.trans hcheck)]
  | turnedAway h _ _ _ =>
    rw [h.passes] at hcheck
    cases hcheck
  | letIn s evicted h _ =>
    rw [h.passes] at hcheck
    cases hcheck

/-- **A verdict that is remembered** is cited. -/
theorem Orderly.add_of_peek? (hp : p.Orderly) (hnew : p.store.get? tx.id = none) {reason : String}
    (hverdict : p.store.verdicts.peek? tx.id = some reason) (b : TransferBackend) (isLocal : Bool) :
    p.add b tx isLocal
      = ({ p with store := (p.store.verdict tx.id).1 }, .error (.previouslyRejected reason)) := by
  have hoffering := hp.offering b tx isLocal
  generalize p.add b tx isLocal = result at hoffering ⊢
  cases hoffering with
  | known e he =>
    rw [hnew] at he
    cases he
  | remembered reason' _ hverdict' => rw [Option.some.inj (hverdict.symm.trans hverdict')]
  | unfit _ _ hverdict' _ =>
    rw [hverdict] at hverdict'
    cases hverdict'
  | turnedAway heligible _ _ _ =>
    rw [heligible.unjudged] at hverdict
    cases hverdict
  | letIn _ _ heligible _ =>
    rw [heligible.unjudged] at hverdict
    cases hverdict

/-- **What is eligible** is let in, or there is no room for it. -/
theorem Orderly.snd_add_of_eligible (hp : p.Orderly) (h : p.Eligible b tx) (isLocal : Bool) :
    (p.add b tx isLocal).2 = .ok () ∨
      ((p.add b tx isLocal).2 = .error .full ∧ p.store.rivals tx = []) := by
  have hoffering := hp.offering b tx isLocal
  generalize p.add b tx isLocal = result at hoffering ⊢
  cases hoffering with
  | known e he =>
    rw [h.fresh] at he
    cases he
  | remembered reason _ hverdict =>
    rw [h.unjudged] at hverdict
    cases hverdict
  | unfit err _ _ hcheck =>
    rw [h.passes] at hcheck
    cases hcheck
  | turnedAway _ hrivals _ _ => exact Or.inr ⟨rfl, hrivals⟩
  | letIn s evicted _ _ => exact Or.inl rfl

end

/-! ## In order, whatever is asked -/

theorem Orderly.add {p : Mempool} (hp : p.Orderly) (b : TransferBackend) (tx : Transfer)
    (isLocal : Bool) : (p.add b tx isLocal).1.Orderly := by
  have hcoherent := coherent_add hp.coherent b tx isLocal
  have hoffering := hp.offering b tx isLocal
  have hsize := hp.size_le
  generalize p.add b tx isLocal = result at hcoherent hoffering ⊢
  cases hoffering with
  | known e he => exact hp
  | remembered reason hnew hverdict => exact ⟨hcoherent, hsize⟩
  | unfit e hnew hverdict hcheck => exact ⟨hcoherent, hsize⟩
  | turnedAway h hrivals hfull hlast =>
    refine ⟨hcoherent, ?_⟩
    rw [hp.coherent.without_arriving h.fresh hrivals]
    exact hsize
  | letIn s evicted h htaken => exact ⟨hcoherent, htaken.size_le hp.coherent h.fresh⟩

theorem Orderly.act {p : Mempool} (hp : p.Orderly) (action : Action) : (p.act action).Orderly := by
  have hcoherent := coherent_act hp.coherent action
  cases action with
  | add b tx isLocal => exact hp.add b tx isLocal
  | propose max =>
    refine ⟨hcoherent, ?_⟩
    have hmarks := TransferStore.get?_issueAll p.store (p.store.byFee.take max)
    exact Nat.le_trans (Nat.le_of_eq (TransferStore.size_eq_of_marks hmarks)) hp.size_le
  | confirm ids =>
    refine ⟨hcoherent, ?_⟩
    exact Nat.le_trans (hp.coherent.size_removeAll_le ids) hp.size_le
  | rollback ids =>
    refine ⟨hcoherent, ?_⟩
    have hmarks := TransferStore.get?_reopenAll p.store ids
    exact Nat.le_trans (Nat.le_of_eq (TransferStore.size_eq_of_marks hmarks)) hp.size_le
  | discard id reason =>
    refine ⟨hcoherent, ?_⟩
    exact Nat.le_trans (hp.coherent.size_remove_le id) hp.size_le

theorem Orderly.run {p : Mempool} (hp : p.Orderly) (actions : List Action) :
    (p.run actions).Orderly := by
  induction actions generalizing p with
  | nil => exact hp
  | cons action rest ih => exact ih (hp.act action)

/-- A new pool is in order. -/
theorem orderly_new {settings : MempoolSettings} {salts : Nat → Salt} {p : Mempool}
    (hnew : new settings salts = .ok p) : p.Orderly := by
  have hcoherent := coherent_new hnew
  unfold new at hnew
  split at hnew
  · cases hnew
  · obtain rfl := Except.ok.inj hnew
    exact ⟨hcoherent, Nat.zero_le _⟩

section
variable {settings : MempoolSettings} {salts : Nat → Salt} {p : Mempool} {b : TransferBackend}
  {tx : Transfer}

/-- A first offer that the chain has no objection to is let in, -/
theorem ok_add_of_new (hnew : new settings salts = .ok p) (hvalid : b.validate tx = .ok ())
    (hahead : ¬tx.nonce < b.nonce tx.account) (isLocal : Bool) : (p.add b tx isLocal).2 = .ok () := by
  cases houtcome : (p.add b tx isLocal).2 with
  | ok _ => rfl
  | error e =>
    -- A refused transfer would not be there.
    obtain ⟨filter, verdicts, n, hsame⟩ := (orderly_new hnew).exists_add_eq_of_error houtcome
    have hheld := get?_add_of_new hnew hvalid hahead isLocal tx.id
    rw [if_pos rfl, hsame] at hheld
    exact absurd hheld (get?_new hnew _ _)

/-- and no verdict is remembered. -/
theorem peek?_add_of_new (hnew : new settings salts = .ok p) (hvalid : b.validate tx = .ok ())
    (hahead : ¬tx.nonce < b.nonce tx.account) (isLocal : Bool) (id : Digest) :
    (p.add b tx isLocal).1.store.verdicts.peek? id = none := by
  exact congrArg Prod.snd (verdict_add_of_new hnew hvalid hahead isLocal id)

end

/-- Who listens to a pool does not matter to its order. -/
theorem Orderly.with_bus {p : Mempool} (hp : p.Orderly) (bus : Bus) : ({ p with bus } : Mempool).Orderly :=
  ⟨hp.coherent, hp.size_le⟩

end Mempool

end TxRelay
