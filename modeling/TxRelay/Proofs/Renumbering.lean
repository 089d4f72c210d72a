/-
Pools that differ in the times of arrival.

A newcomer that is turned away has used up a time of arrival, so the transfers
after it arrive a moment later than they would have. Nothing depends on when a
transfer arrived, only on which of two came first: the order of eviction and the
order of blocks compare times, and everything else is found by ids and inputs. So
a pool with renumbered times does the same as the pool itself, as long as the two
remember verdicts on the same transfers.
-/
import TxRelay.Proofs.Placing

set_option autoImplicit false

namespace TxRelay

/-- A transfer with another time of arrival. -/
def PooledTransfer.renumber (f : Nat → Nat) (e : PooledTransfer) : PooledTransfer :=
  { e with seq := f e.seq }

namespace TransferStore

/-- **A store with renumbered times of arrival**: the same transfers, in the same
order. -/
structure Renumbered (f : Nat → Nat) (s s' : TransferStore) : Prop where
  coherent : s.Coherent
  coherent' : s'.Coherent
  mono : ∀ {m n}, m < n → f m < f n
  /-- What arrives from now on arrives at the same distance. -/
  next : ∀ n, f (s.nextSeq + n) = s'.nextSeq + n
  get?_eq : ∀ id, s'.get? id = (s.get? id).map (PooledTransfer.renumber f)

namespace Renumbered

variable {f : Nat → Nat} {s s' t t' : TransferStore} {e e' : PooledTransfer} {tx : Transfer}

/-! ## Orders -/

theorem lt_iff (h : s.Renumbered f s') {m n : Nat} : f m < f n ↔ m < n := by
  constructor
  · intro hlt
    apply Nat.lt_of_not_le
    intro hle
    rcases Nat.eq_or_lt_of_le hle with rfl | hgt
    · omega
    · have hgt' := h.mono hgt
      omega
  · exact h.mono

theorem goesBefore_iff (h : s.Renumbered f s') :
    (e.renumber f).GoesBefore (e'.renumber f) ↔ e.GoesBefore e' := by
  unfold PooledTransfer.GoesBefore PooledTransfer.renumber
  rw [h.lt_iff]

theorem before_iff (h : s.Renumbered f s') :
    (e.renumber f).Before (e'.renumber f) ↔ e.Before e' := by
  unfold PooledTransfer.Before PooledTransfer.renumber
  rw [h.lt_iff]

/-! ## What is there -/

theorem of_get? (h : s.Renumbered f s') (he : s.get? e.id = some e) :
    s'.get? (e.renumber f).id = some (e.renumber f) := by
  show s'.get? e.id = _
  rw [h.get?_eq, he, Option.map_some]

/-- What is there is there in the other store as well. -/
theorem exists_get? (h : s.Renumbered f s') {id : Digest} (he' : s'.get? id = some e') :
    ∃ e, s.get? id = some e ∧ e.renumber f = e' := by
  rw [h.get?_eq] at he'
  exact Option.map_eq_some_iff.mp he'

theorem isSome_get? (h : s.Renumbered f s') (id : Digest) : (s'.get? id).isSome = (s.get? id).isSome := by
  rw [h.get?_eq, Option.isSome_map]

theorem size_eq (h : s.Renumbered f s') : s'.size = s.size :=
  Entries.size_congr h.isSome_get?

/-- An input has the same spender. -/
theorem spenders_eq (h : s.Renumbered f s') (input : Digest) :
    s'.spenders[input]? = s.spenders[input]? := by
  apply Option.ext
  intro id
  rw [h.coherent'.spender, h.coherent.spender]
  constructor
  · rintro ⟨e', he', hown⟩
    obtain ⟨e, he, rfl⟩ := h.exists_get? he'
    exact ⟨e, he, hown⟩
  · rintro ⟨e, he, hown⟩
    exact ⟨e.renumber f, by rw [h.get?_eq, he, Option.map_some], hown⟩

theorem rivals_eq (h : s.Renumbered f s') (tx : Transfer) : s'.rivals tx = s.rivals tx := by
  have hsame : (fun input => s'.spenders[input]?) = fun input => s.spenders[input]? :=
    funext h.spenders_eq
  unfold TransferStore.rivals
  rw [hsame]

/-- The same transfer is the first to go. -/
theorem firstToGo (h : s.Renumbered f s') (hfirst : s.FirstToGo e) : s'.FirstToGo (e.renumber f) where
  held := h.of_get? hfirst.held
  free := hfirst.free
  least e' he' hfree' hne := by
    obtain ⟨e₀, he₀, rfl⟩ := h.exists_get? he'
    apply h.goesBefore_iff.mpr
    apply hfirst.least e₀ he₀ hfree'
    rintro rfl
    exact hne rfl

/-- The transfers go into blocks in the same order. -/
theorem byFee_eq (h : s.Renumbered f s') : s'.byFee = s.byFee.map (PooledTransfer.renumber f) := by
  have hranked := h.coherent.ranked_byFee
  apply h.coherent'.ranked_byFee.unique
  refine ⟨fun e' => ?_, List.pairwise_map.mpr (hranked.ordered.imp h.before_iff.mpr)⟩
  rw [List.mem_map]
  constructor
  · rintro ⟨e, he, rfl⟩
    obtain ⟨hget, hfree⟩ := (hranked.mem_iff e).mp he
    exact ⟨h.of_get? hget, hfree⟩
  · rintro ⟨he', hfree'⟩
    obtain ⟨e, he, rfl⟩ := h.exists_get? he'
    exact ⟨e, (hranked.mem_iff e).mpr ⟨he, hfree'⟩, rfl⟩

/-! ## What is done -/

/-- Whatever leaves the clock alone and does the same to what is there. -/
theorem of_get?_eq (h : s.Renumbered f s') (hc : t.Coherent) (hc' : t'.Coherent)
    (hseq : t.nextSeq = s.nextSeq) (hseq' : t'.nextSeq = s'.nextSeq)
    (hget : ∀ id, t'.get? id = (t.get? id).map (PooledTransfer.renumber f)) : t.Renumbered f t' where
  coherent := hc
  coherent' := hc'
  mono := h.mono
  next n := by
    rw [hseq, hseq']
    exact h.next n
  get?_eq := hget

theorem remove (h : s.Renumbered f s') (id : Digest) :
    (s.remove id).1.Renumbered f (s'.remove id).1 := by
  apply h.of_get?_eq (h.coherent.remove id) (h.coherent'.remove id) (s.rest_remove id).1
    (s'.rest_remove id).1
  intro id'
  rw [h.coherent'.get?_remove, h.coherent.get?_remove, h.get?_eq]
  split
  · rfl
  · rfl

theorem removeAll (h : s.Renumbered f s') (ids : List Digest) :
    (s.removeAll ids).1.Renumbered f (s'.removeAll ids).1 := by
  induction ids generalizing s s' with
  | nil => exact h
  | cons id rest ih =>
    rw [removeAll_cons, removeAll_cons]
    exact ih (h.remove id)

/-- What arrives next arrives at the same place. -/
theorem arriving_eq (h : s.Renumbered f s') (tx : Transfer) (isLocal : Bool) :
    s'.arriving tx isLocal = (s.arriving tx isLocal).renumber f := by
  unfold arriving PooledTransfer.renumber
  rw [← Nat.add_zero s'.nextSeq, ← h.next 0]
  rfl

theorem insert (h : s.Renumbered f s') (isLocal : Bool) (hnew : s.get? tx.id = none)
    (hfree : ∀ input ∈ tx.inputs, s.spenders[input]? = none) :
    (s.insert tx isLocal).Renumbered f (s'.insert tx isLocal) where
  coherent := h.coherent.insert isLocal hnew hfree
  coherent' := by
    apply h.coherent'.insert isLocal
    · rw [h.get?_eq, hnew, Option.map_none]
    · intro input hinput
      rw [h.spenders_eq, hfree input hinput]
  mono := h.mono
  next n := by
    show f (s.nextSeq + 1 + n) = s'.nextSeq + 1 + n
    rw [Nat.add_assoc, h.next, Nat.add_assoc]
  get?_eq id := by
    rw [get?_insert, get?_insert, h.arriving_eq, h.get?_eq]
    split
    · rfl
    · rfl

/-- **Both stores evict the same transfer**, or none. -/
theorem evict (h : s.Renumbered f s') :
    s.evict.1.Renumbered f s'.evict.1 ∧
      s'.evict.2.map PooledTransfer.id = s.evict.2.map PooledTransfer.id := by
  by_cases hsome : ∃ id e, s.get? id = some e ∧ e.issued = false
  · obtain ⟨id, e₀, he₀, hfree⟩ := hsome
    obtain ⟨e, hfirst⟩ := h.coherent.exists_firstToGo he₀ hfree
    have hfirst' := h.firstToGo hfirst
    have hheld' : s'.get? e.id = some (e.renumber f) := hfirst'.held
    have hremove := h.remove e.id
    rw [(h.coherent.remove_of_some hfirst.held).1, (h.coherent'.remove_of_some hheld').1] at hremove
    rw [h.coherent.evict_eq hfirst, h.coherent'.evict_eq hfirst']
    exact ⟨hremove, rfl⟩
  · have hissued : ∀ id e, s.get? id = some e → e.issued = true := by
      intro id e he
      cases hfree : e.issued with
      | true => rfl
      | false => exact absurd ⟨id, e, he, hfree⟩ hsome
    have hissued' : ∀ id e', s'.get? id = some e' → e'.issued = true := by
      intro id e' he'
      obtain ⟨e, he, rfl⟩ := h.exists_get? he'
      exact hissued id e he
    rw [h.coherent.evict_of_issued hissued, h.coherent'.evict_of_issued hissued']
    exact ⟨h, rfl⟩

theorem refresh (h : s.Renumbered f s') : s.refresh.Renumbered f s'.refresh :=
  h.of_get?_eq h.coherent.refresh h.coherent'.refresh rfl rfl h.get?_eq

theorem remember (h : s.Renumbered f s') (id : Digest) (reason : String) :
    (s.remember id reason).Renumbered f (s'.remember id reason) :=
  h.of_get?_eq (h.coherent.remember id reason) (h.coherent'.remember id reason) rfl rfl h.get?_eq

theorem verdict (h : s.Renumbered f s') (id : Digest) :
    (s.verdict id).1.Renumbered f (s'.verdict id).1 :=
  h.of_get?_eq (h.coherent.verdict id) (h.coherent'.verdict id) rfl rfl h.get?_eq

/-- Marks are set on the same transfers. -/
theorem of_marks (h : s.Renumbered f s') (hc : t.Coherent) (hc' : t'.Coherent)
    (hseq : t.nextSeq = s.nextSeq) (hseq' : t'.nextSeq = s'.nextSeq) {issued : Bool}
    {ids : List Digest}
    (hmarks : ∀ id, t.get? id = if id ∈ ids then (s.get? id).map ({ · with issued }) else s.get? id)
    (hmarks' : ∀ id, t'.get? id
      = if id ∈ ids then (s'.get? id).map ({ · with issued }) else s'.get? id) :
    t.Renumbered f t' := by
  apply h.of_get?_eq hc hc' hseq hseq'
  intro id
  rw [hmarks', hmarks, h.get?_eq]
  split
  · cases s.get? id with
    | none => rfl
    | some e => rfl
  · rfl

end Renumbered

end TransferStore

namespace Mempool

open TransferStore (Coherent Renumbered)

section
variable {f : Nat → Nat} {s s' : TransferStore} {tx : Transfer}

/-! ## Offers -/

theorem renumbered_evictUpTo (h : s.Renumbered f s') (n : Nat) :
    (evictUpTo n s).1.Renumbered f (evictUpTo n s').1 ∧ (evictUpTo n s').2 = (evictUpTo n s).2 := by
  induction n generalizing s s' with
  | zero => exact ⟨h, rfl⟩
  | succ n ih =>
    obtain ⟨hrest, hid⟩ := h.evict
    rw [evictUpTo, evictUpTo]
    generalize s.evict = evicted at hrest hid ⊢
    generalize s'.evict = evicted' at hrest hid ⊢
    obtain ⟨t, e⟩ := evicted
    obtain ⟨t', e'⟩ := evicted'
    cases e with
    | none =>
      obtain rfl : e' = none := Option.map_eq_none_iff.mp hid
      exact ⟨hrest, rfl⟩
    | some e =>
      obtain ⟨e₁, rfl, hsame⟩ : ∃ e₁, e' = some e₁ ∧ e₁.id = e.id := Option.map_eq_some_iff.mp hid
      obtain ⟨hall, hids⟩ := ih hrest
      refine ⟨hall, ?_⟩
      show e₁.id :: (evictUpTo n t').2 = e.id :: (evictUpTo n t).2
      rw [hsame, hids]

theorem renumbered_place (h : s.Renumbered f s') (maxSize : Nat) (isLocal : Bool)
    (hnew : s.get? tx.id = none) :
    (place maxSize s tx isLocal).1.Renumbered f (place maxSize s' tx isLocal).1 ∧
      (place maxSize s' tx isLocal).2 = (place maxSize s tx isLocal).2 := by
  have hplaced := (h.removeAll (s.rivals tx)).insert isLocal
    (get?_removeAll_of_none h.coherent hnew (s.rivals tx)) (h.coherent.spenders_removeAll_rivals tx)
  unfold place
  dsimp only
  rw [h.rivals_eq, hplaced.size_eq]
  obtain ⟨hall, hids⟩ := renumbered_evictUpTo hplaced
    (((s.removeAll (s.rivals tx)).1.insert tx isLocal).size - maxSize)
  exact ⟨hall.refresh, hids⟩

theorem isKnown_eq (hc : s.Coherent) (id : Digest) : isKnown s id = (s.get? id).isSome := by
  unfold isKnown
  rw [TransferStore.contains_eq_isSome]
  cases he : s.get? id with
  | none => exact Bool.and_false _
  | some e =>
    rw [hc.reported he]
    rfl

theorem outbids_renumbered (h : s.Renumbered f s') (tx : Transfer) : outbids s' tx = outbids s tx := by
  funext id
  unfold outbids
  rw [h.get?_eq]
  cases s.get? id with
  | none => rfl
  | some e => rfl

theorem check_renumbered (h : s.Renumbered f s') (b : TransferBackend) (tx : Transfer) :
    check b s' tx = check b s tx := by
  unfold check
  rw [h.rivals_eq, outbids_renumbered h]

/-- Placing passes no verdict. -/
theorem verdicts_evictUpTo (n : Nat) (s : TransferStore) :
    (evictUpTo n s).1.verdicts = s.verdicts := by
  induction n generalizing s with
  | zero => rfl
  | succ n ih =>
    have hevict : s.evict.1.verdicts = s.verdicts := by
      unfold TransferStore.evict
      split
      · rfl
      · next key _ => exact (s.rest_remove key.id).2
    rw [evictUpTo]
    generalize s.evict = evicted at hevict ⊢
    obtain ⟨t, e⟩ := evicted
    cases e with
    | none => exact hevict
    | some e => exact (ih t).trans hevict

theorem verdicts_place (maxSize : Nat) (s : TransferStore) (tx : Transfer) (isLocal : Bool) :
    (place maxSize s tx isLocal).1.verdicts = s.verdicts :=
  (verdicts_evictUpTo _ _).trans (s.rest_removeAll (s.rivals tx)).2

/-- Handing over stops no clock and forgets no verdict. -/
theorem rest_propose (p : Mempool) (max : Nat) :
    (p.propose max).1.store.nextSeq = p.store.nextSeq ∧
      (p.propose max).1.store.verdicts = p.store.verdicts := by
  obtain ⟨entries, evictable, hrest⟩ := exists_issueAll_eq p.store (p.store.byFee.take max)
  unfold propose
  dsimp only
  rw [hrest]
  exact ⟨rfl, rfl⟩

end

/-- **A pool with renumbered times of arrival.** -/
structure Renumbered (f : Nat → Nat) (p p' : Mempool) : Prop where
  settings_eq : p'.settings = p.settings
  store : p.store.Renumbered f p'.store

namespace Renumbered

variable {f : Nat → Nat} {p p' : Mempool}

/-- A transfer is offered to both pools, which remember a verdict on it or do not. If
they remember the same verdicts on all transfers, they do so afterwards. -/
theorem add (h : p.Renumbered f p') (b : TransferBackend) (tx : Transfer) (isLocal : Bool)
    (hverdict : (p'.store.verdicts.peek? tx.id).isSome = (p.store.verdicts.peek? tx.id).isSome) :
    (p.add b tx isLocal).1.Renumbered f (p'.add b tx isLocal).1 ∧
      (p'.store.verdicts = p.store.verdicts →
        (p'.add b tx isLocal).1.store.verdicts = (p.add b tx isLocal).1.store.verdicts) := by
  have hs := h.store
  unfold Mempool.add
  dsimp only
  rw [isKnown_eq hs.coherent', isKnown_eq hs.coherent, hs.isSome_get?]
  split
  · exact ⟨h, fun hsame => hsame⟩
  next hknown =>
  have hnew := Option.not_isSome_iff_eq_none.mp hknown
  cases hpeek : p.store.verdicts.peek? tx.id with
  | some reason =>
    rw [hpeek, Option.isSome_some, Option.isSome_iff_exists] at hverdict
    obtain ⟨reason', hpeek'⟩ := hverdict
    have hlook : p.store.verdict tx.id = ((p.store.verdict tx.id).1, some reason) := by
      rw [← hpeek]
      rfl
    have hlook' : p'.store.verdict tx.id = ((p'.store.verdict tx.id).1, some reason') := by
      rw [← hpeek']
      rfl
    rw [hlook, hlook']
    refine ⟨⟨h.settings_eq, hs.verdict tx.id⟩, fun hsame => ?_⟩
    show p'.store.verdicts.touch tx.id = p.store.verdicts.touch tx.id
    rw [hsame]
  | none =>
    rw [hpeek, Option.isSome_none, Option.isSome_eq_false_iff, Option.isNone_iff_eq_none] at hverdict
    rw [verdict_of_none hpeek, verdict_of_none hverdict]
    dsimp only
    rw [check_renumbered hs, h.settings_eq]
    split
    · next e hcheck =>
      rw [isMemorable_of_check hcheck]
      refine ⟨⟨rfl, hs.remember tx.id e.message⟩, fun hsame => ?_⟩
      show p'.store.verdicts.put tx.id e.message = p.store.verdicts.put tx.id e.message
      rw [hsame]
    · obtain ⟨hplaced, hids⟩ := renumbered_place hs p.settings.maxSize isLocal hnew
      have hverdicts := verdicts_place p.settings.maxSize p.store tx isLocal
      have hverdicts' := verdicts_place p.settings.maxSize p'.store tx isLocal
      rw [hids]
      split
      · exact ⟨⟨rfl, hplaced⟩, fun hsame => hverdicts'.trans (hsame.trans hverdicts.symm)⟩
      · exact ⟨⟨rfl, hplaced⟩, fun hsame => hverdicts'.trans (hsame.trans hverdicts.symm)⟩

/-! ## Block assembly -/

/-- **Both pools hand over the same transfers.** -/
theorem propose_eq (h : p.Renumbered f p') (max : Nat) : (p'.propose max).2 = (p.propose max).2 := by
  show (p'.store.byFee.take max).map PooledTransfer.tx = (p.store.byFee.take max).map PooledTransfer.tx
  rw [h.store.byFee_eq, ← List.map_take, List.map_map]
  rfl

theorem propose (h : p.Renumbered f p') (max : Nat) :
    (p.propose max).1.Renumbered f (p'.propose max).1 := by
  refine ⟨h.settings_eq, ?_⟩
  have hids : (p'.store.byFee.take max).map PooledTransfer.id
      = (p.store.byFee.take max).map PooledTransfer.id := by
    rw [h.store.byFee_eq, ← List.map_take, List.map_map]
    rfl
  apply h.store.of_marks (coherent_propose h.store.coherent max)
    (coherent_propose h.store.coherent' max) (rest_propose p max).1 (rest_propose p' max).1
  · exact TransferStore.get?_issueAll p.store (p.store.byFee.take max)
  · rw [← hids]
    exact TransferStore.get?_issueAll p'.store (p'.store.byFee.take max)

theorem rollback (h : p.Renumbered f p') (ids : List Digest) :
    (p.rollback ids).1.Renumbered f (p'.rollback ids).1 := by
  refine ⟨h.settings_eq, ?_⟩
  exact h.store.of_marks (h.store.coherent.reopenAll ids) (h.store.coherent'.reopenAll ids)
    (p.store.rest_reopenAll ids).1 (p'.store.rest_reopenAll ids).1
    (TransferStore.get?_reopenAll p.store ids) (TransferStore.get?_reopenAll p'.store ids)

/-! ## Runs -/

/-- **One action** on both pools. If it is an offer, a verdict on the transfer is
remembered in both or in neither. -/
theorem act (h : p.Renumbered f p') (action : Action)
    (hverdict : ∀ b tx isLocal, action = .add b tx isLocal →
      (p'.store.verdicts.peek? tx.id).isSome = (p.store.verdicts.peek? tx.id).isSome) :
    (p.act action).Renumbered f (p'.act action) := by
  cases action with
  | add b tx isLocal => exact (h.add b tx isLocal (hverdict b tx isLocal rfl)).1
  | propose max => exact h.propose max
  | confirm ids => exact ⟨h.settings_eq, (h.store.removeAll ids).refresh⟩
  | rollback ids => exact h.rollback ids
  | discard id reason => exact ⟨h.settings_eq, (h.store.remove id).remember id reason⟩

/-- Pools that remember the same verdicts go on to do so. -/
theorem verdicts_act (h : p.Renumbered f p') (hsame : p'.store.verdicts = p.store.verdicts)
    (action : Action) : (p'.act action).store.verdicts = (p.act action).store.verdicts := by
  cases action with
  | add b tx isLocal => exact (h.add b tx isLocal (by rw [hsame])).2 hsame
  | propose max =>
    calc (p'.propose max).1.store.verdicts = p'.store.verdicts := (rest_propose p' max).2
      _ = p.store.verdicts := hsame
      _ = (p.propose max).1.store.verdicts := (rest_propose p max).2.symm
  | confirm ids =>
    calc (p'.confirm ids).1.store.verdicts = p'.store.verdicts := (p'.store.rest_removeAll ids).2
      _ = p.store.verdicts := hsame
      _ = (p.confirm ids).1.store.verdicts := (p.store.rest_removeAll ids).2.symm
  | rollback ids =>
    calc (p'.rollback ids).1.store.verdicts = p'.store.verdicts := (p'.store.rest_reopenAll ids).2
      _ = p.store.verdicts := hsame
      _ = (p.rollback ids).1.store.verdicts := (p.store.rest_reopenAll ids).2.symm
  | discard id reason =>
    show (p'.store.remove id).1.verdicts.put id reason = (p.store.remove id).1.verdicts.put id reason
    rw [(p'.store.rest_remove id).2, (p.store.rest_remove id).2, hsame]

end Renumbered

/-- **Two pools take the same view** of what is offered to them: each time a verdict
on the transfer is remembered in both or in neither. -/
def SameView (p p' : Mempool) : List Action → Prop
  | [] => True
  | action :: rest =>
    (∀ b tx isLocal, action = .add b tx isLocal →
      (p'.store.verdicts.peek? tx.id).isSome = (p.store.verdicts.peek? tx.id).isSome) ∧
    SameView (p.act action) (p'.act action) rest

section
variable {f : Nat → Nat} {p p' : Mempool}

/-- Without offers there is nothing to differ on. -/
theorem sameView_of_no_offers (p p' : Mempool) {later : List Action}
    (hnone : ∀ action ∈ later, ∀ b tx isLocal, action ≠ .add b tx isLocal) : SameView p p' later := by
  induction later generalizing p p' with
  | nil => trivial
  | cons action rest ih =>
    obtain ⟨hfirst, hrest⟩ := List.forall_mem_cons.mp hnone
    exact ⟨fun b tx isLocal heq => absurd heq (hfirst b tx isLocal), ih _ _ hrest⟩

/-- Pools that remember the same verdicts take the same view of everything. -/
theorem Renumbered.sameView (h : p.Renumbered f p') (hsame : p'.store.verdicts = p.store.verdicts)
    (later : List Action) : SameView p p' later := by
  induction later generalizing p p' with
  | nil => trivial
  | cons action rest ih =>
    have hfirst : ∀ b tx isLocal, action = Action.add b tx isLocal →
        (p'.store.verdicts.peek? tx.id).isSome = (p.store.verdicts.peek? tx.id).isSome :=
      fun _ _ _ _ => by rw [hsame]
    exact ⟨hfirst, ih (h.act action hfirst) (h.verdicts_act hsame action)⟩

/-- **A pool with renumbered times does the same**, as long as it takes the same view. -/
theorem Renumbered.run (h : p.Renumbered f p') {later : List Action} (hview : SameView p p' later) :
    (p.run later).Renumbered f (p'.run later) := by
  induction later generalizing p p' with
  | nil => exact h
  | cons action rest ih => exact ih (h.act action hview.1) hview.2

end

end Mempool

end TxRelay
