/-
From the pool to block assembly and back.

Block assembly takes the transfers with the highest fees, and of equal fees those
that came first, wherever they are kept. A transfer that it has taken is marked
and is not among those that may be evicted. That is all that protects it: nobody
can outbid what is marked, nobody evicts what is not in the order of eviction,
and what is marked is not handed over again. So it stays until somebody names it,
and whoever names transfers learns for how many it made a difference.
-/
import TxRelay.Proofs.Mempool

set_option autoImplicit false

namespace TxRelay

/-- Whether a transfer goes into a block before another one. -/
def PooledTransfer.Before (e e' : PooledTransfer) : Prop :=
  e'.tx.fee < e.tx.fee ∨ (e.tx.fee = e'.tx.fee ∧ e.seq < e'.seq)

namespace TransferStore

open PooledTransfer (Before)

/-! ## The order of blocks -/

theorem precedes_iff {e e' : PooledTransfer} :
    precedes e e' = true ↔ e'.tx.fee < e.tx.fee ∨ (e.tx.fee = e'.tx.fee ∧ e.seq ≤ e'.seq) := by
  simp [precedes]

theorem precedes_trans (e e' e'' : PooledTransfer) (h : precedes e e' = true)
    (h' : precedes e' e'' = true) : precedes e e'' = true := by
  rw [precedes_iff] at h h' ⊢
  rcases h with hfee | ⟨hfee, hseq⟩
  · rcases h' with hfee' | ⟨hfee', _⟩
    · exact Or.inl (UInt64.lt_trans hfee' hfee)
    · exact Or.inl (hfee' ▸ hfee)
  · rcases h' with hfee' | ⟨hfee', hseq'⟩
    · exact Or.inl (hfee ▸ hfee')
    · exact Or.inr ⟨hfee.trans hfee', Nat.le_trans hseq hseq'⟩

theorem precedes_total (e e' : PooledTransfer) : (precedes e e' || precedes e' e) = true := by
  rw [Bool.or_eq_true, precedes_iff, precedes_iff]
  rcases Nat.lt_trichotomy e.tx.fee.toNat e'.tx.fee.toNat with hlt | heq | hgt
  · exact Or.inr (Or.inl (UInt64.lt_iff_toNat_lt.mpr hlt))
  · have heq := UInt64.toNat_inj.mp heq
    rcases Nat.le_total e.seq e'.seq with hle | hle
    · exact Or.inl (Or.inr ⟨heq, hle⟩)
    · exact Or.inr (Or.inr ⟨heq.symm, hle⟩)
  · exact Or.inl (Or.inl (UInt64.lt_iff_toNat_lt.mpr hgt))

theorem Before.asymm {e e' : PooledTransfer} (h : e.Before e') : ¬e'.Before e := by
  rintro (hfee | ⟨hfee, hseq⟩)
  · rcases h with hfee' | ⟨hfee', _⟩
    · exact UInt64.lt_irrefl _ (UInt64.lt_trans hfee hfee')
    · exact UInt64.lt_irrefl _ (hfee' ▸ hfee)
  · rcases h with hfee' | ⟨_, hseq'⟩
    · exact UInt64.lt_irrefl _ (hfee ▸ hfee')
    · exact Nat.lt_asymm hseq hseq'

/-- **The transfers that were not handed over, ranked**: all of them, each before those that
pay less or came later (`MempoolStore::by_fee_desc`). -/
structure Ranked (s : TransferStore) (order : List PooledTransfer) : Prop where
  mem_iff : ∀ e, e ∈ order ↔ s.get? e.id = some e ∧ e.issued = false
  ordered : order.Pairwise Before

section
variable {s : TransferStore}

/-- There is one way to rank them. -/
theorem Ranked.unique {order order' : List PooledTransfer} (h : s.Ranked order)
    (h' : s.Ranked order') : order = order' := by
  have hnodup : ∀ {l : List PooledTransfer}, l.Pairwise Before → l.Nodup := by
    intro l hl
    refine List.nodup_iff_pairwise_ne.mpr (hl.imp ?_)
    rintro e _ hbefore rfl
    exact Before.asymm hbefore hbefore
  have hperm := (List.perm_ext_iff_of_nodup (hnodup h.ordered) (hnodup h'.ordered)).mpr fun e =>
    (h.mem_iff e).trans (h'.mem_iff e).symm
  exact hperm.eq_of_pairwise (fun e e' _ _ hbefore hafter => absurd hafter (Before.asymm hbefore))
    h.ordered h'.ordered

/-- **By fee is ranked.** -/
theorem Coherent.ranked_byFee (hc : s.Coherent) : s.Ranked s.byFee where
  mem_iff _ := hc.mem_byFee
  ordered := by
    have hsorted : s.byFee.Pairwise fun e e' => precedes e e' = true :=
      List.pairwise_mergeSort precedes_trans precedes_total _
    refine (hsorted.and hc.pairwise_byFee).imp_of_mem fun {e e'} hmem hmem' hboth => ?_
    obtain ⟨he, _⟩ := hc.mem_byFee.mp hmem
    obtain ⟨he', _⟩ := hc.mem_byFee.mp hmem'
    rcases precedes_iff.mp hboth.1 with hfee | ⟨hfee, hseq⟩
    · exact Or.inl hfee
    · refine Or.inr ⟨hfee, Nat.lt_of_le_of_ne hseq fun heq => hboth.2 ?_⟩
      -- Nobody arrived at the same time.
      have h₁ := hc.arrival.mpr ⟨e, he, rfl⟩
      have h₂ := hc.arrival.mpr ⟨e', he', heq.symm⟩
      exact Option.some.inj (h₁.symm.trans h₂)

/-- What may be evicted is what was not handed over. -/
theorem Coherent.length_byFee (hc : s.Coherent) : s.byFee.length = s.pendingSize := by
  have hkeys : (s.byFee.map EvictionKey.of).Nodup := by
    refine List.pairwise_map.mpr (hc.pairwise_byFee.imp fun hne heq => hne ?_)
    exact congrArg EvictionKey.id heq
  have hlisted : s.evictable.toList.Nodup :=
    Std.ExtTreeSet.distinct_toList.imp fun hne heq => hne (Std.LawfulEqCmp.compare_eq_iff_eq.mpr heq)
  have hperm : (s.byFee.map EvictionKey.of).Perm s.evictable.toList := by
    refine (List.perm_ext_iff_of_nodup hkeys hlisted).mpr fun key => ?_
    rw [Std.ExtTreeSet.mem_toList, hc.evictable, List.mem_map]
    constructor
    · rintro ⟨e, he, hkey⟩
      obtain ⟨hget, hissued⟩ := hc.mem_byFee.mp he
      exact ⟨e, hget, hissued, hkey⟩
    · rintro ⟨e, hget, hissued, hkey⟩
      exact ⟨e, hc.mem_byFee.mpr ⟨hget, hissued⟩, hkey⟩
  have hlength := hperm.length_eq
  rw [List.length_map, Std.ExtTreeSet.length_toList] at hlength
  exact hlength

/-! ## Marks -/

/-- A mark that is as it should be need not be set, -/
theorem get?_of_issued_eq {id : Digest} {issued : Bool}
    (hmark : ∀ e, s.get? id = some e → e.issued = issued) (id' : Digest) :
    s.get? id' = if id = id' then (s.get? id').map ({ · with issued }) else s.get? id' := by
  split
  · next heq =>
    subst heq
    cases he : s.get? id with
    | none => rfl
    | some e => rw [Option.map_some, ← hmark e he]
  · rfl

/-- and otherwise it is set. -/
theorem get?_marked_of_some {id : Digest} {e : PooledTransfer} (he : s.get? id = some e)
    (issued : Bool) (evictable : Std.ExtTreeSet EvictionKey) (id' : Digest) :
    (s.marked id e issued evictable).get? id'
      = if id = id' then (s.get? id').map ({ · with issued }) else s.get? id' := by
  rw [get?_marked]
  split
  · next heq =>
    rw [← heq, he]
    rfl
  · rfl

theorem get?_issue (s : TransferStore) (id id' : Digest) :
    (s.issue id).1.get? id'
      = if id = id' then (s.get? id').map ({ · with issued := true }) else s.get? id' := by
  rw [issue]
  split
  · next hnone => exact get?_of_issued_eq (fun e he => by rw [hnone] at he; cases he) id'
  next e he =>
  split
  · next hissued =>
    exact get?_of_issued_eq (fun e' he' => Option.some.inj (he.symm.trans he') ▸ hissued) id'
  · exact get?_marked_of_some he true _ id'

theorem get?_reopen (s : TransferStore) (id id' : Digest) :
    (s.reopen id).1.get? id'
      = if id = id' then (s.get? id').map ({ · with issued := false }) else s.get? id' := by
  rw [reopen]
  split
  · next hnone => exact get?_of_issued_eq (fun e he => by rw [hnone] at he; cases he) id'
  next e he =>
  split
  · exact get?_marked_of_some he false _ id'
  · next hfree =>
    have hfree := Bool.eq_false_iff.mpr hfree
    exact get?_of_issued_eq (fun e' he' => Option.some.inj (he.symm.trans he') ▸ hfree) id'

/-- Setting a mark again changes nothing. -/
theorem ite_map_mark {id' : Digest} {ids : List Digest} {id : Digest} (o : Option PooledTransfer)
    (issued : Bool) :
    (if id' ∈ ids then
        (if id = id' then o.map ({ · with issued }) else o).map ({ · with issued })
      else if id = id' then o.map ({ · with issued }) else o)
      = if id' ∈ id :: ids then o.map ({ · with issued }) else o := by
  by_cases heq : id = id'
  · have htwice : (o.map ({ · with issued })).map ({ · with issued }) = o.map ({ · with issued }) := by
      cases o <;> rfl
    rw [if_pos heq, htwice, ite_self, if_pos (by rw [heq]; exact List.mem_cons_self)]
  · rw [if_neg heq]
    by_cases hmem : id' ∈ ids
    · rw [if_pos hmem, if_pos (List.mem_cons_of_mem _ hmem)]
    · rw [if_neg hmem, if_neg fun hcons => (List.mem_cons.mp hcons).elim (fun h => heq h.symm) hmem]

/-- **Handing over several transfers** marks these, and no others. -/
theorem get?_issueAll (s : TransferStore) (picked : List PooledTransfer) (id' : Digest) :
    (picked.foldl (fun s e => (s.issue e.id).1) s).get? id'
      = if id' ∈ picked.map PooledTransfer.id then (s.get? id').map ({ · with issued := true })
        else s.get? id' := by
  induction picked generalizing s with
  | nil => rfl
  | cons e rest ih =>
    rw [List.foldl_cons, ih, get?_issue]
    exact ite_map_mark _ _

theorem get?_reopenAll (s : TransferStore) (ids : List Digest) (id' : Digest) :
    (s.reopenAll ids).1.get? id'
      = if id' ∈ ids then (s.get? id').map ({ · with issued := false }) else s.get? id' := by
  induction ids generalizing s with
  | nil => rfl
  | cons id rest ih =>
    show ((s.reopen id).1.reopenAll rest).1.get? id' = _
    rw [ih, get?_reopen]
    exact ite_map_mark _ _

/-! ## For how many it made a difference -/

/-- A number of ids: those of a list for which something changed, each once. -/
def Counted (s after : TransferStore) (ids : List Digest) (n : Nat) : Prop :=
  ∃ changed : List Digest, changed.Nodup ∧
    (∀ id, id ∈ changed ↔ id ∈ ids ∧ after.get? id ≠ s.get? id) ∧ changed.length = n

section
variable {s s' after : TransferStore} {ids : List Digest} {id : Digest} {n : Nat}

theorem Counted.nil (s : TransferStore) : Counted s s [] 0 :=
  ⟨[], List.nodup_nil, fun id => by simp, rfl⟩

/-- Naming one more makes no difference, or it was named before. -/
theorem Counted.cons_same (h : Counted s after ids n) (hsame : after.get? id = s.get? id) :
    Counted s after (id :: ids) n := by
  obtain ⟨changed, hnodup, hmem, hlength⟩ := h
  refine ⟨changed, hnodup, fun id' => ?_, hlength⟩
  rw [hmem, List.mem_cons]
  constructor
  · exact fun ⟨hin, hne⟩ => ⟨Or.inr hin, hne⟩
  · rintro ⟨rfl | hin, hne⟩
    · exact absurd hsame hne
    · exact ⟨hin, hne⟩

/-- The first of several is changed, and the others do not change it back. -/
theorem Counted.cons_changed (h : Counted s' after ids n)
    (hothers : ∀ id', id ≠ id' → s'.get? id' = s.get? id') (hdone : after.get? id = s'.get? id)
    (hchanged : s'.get? id ≠ s.get? id) : Counted s after (id :: ids) (n + 1) := by
  obtain ⟨changed, hnodup, hmem, hlength⟩ := h
  have hnot : id ∉ changed := fun hin => ((hmem id).mp hin).2 hdone
  refine ⟨id :: changed, List.nodup_cons.mpr ⟨hnot, hnodup⟩, fun id' => ?_, congrArg (· + 1) hlength⟩
  rw [List.mem_cons, List.mem_cons, hmem]
  by_cases heq : id = id'
  · subst heq
    rw [hdone]
    simp [hchanged]
  · rw [hothers id' heq]
    simp [Ne.symm heq]

/-- **Taking out counts** what was there. -/
theorem Coherent.counted_removeAll (hc : s.Coherent) (ids : List Digest) :
    Counted s (s.removeAll ids).1 ids (s.removeAll ids).2 := by
  -- By induction over the ids: one that comes up again finds nothing any more.
  induction ids generalizing s with
  | nil => exact Counted.nil s
  | cons id rest ih =>
    have hgone : (s.removeAll (id :: rest)).1.get? id = none := by
      rw [hc.get?_removeAll, if_pos List.mem_cons_self]
    cases he : s.get? id with
    | none =>
      have hremove : s.removeAll (id :: rest) = s.removeAll rest := by
        rw [TransferStore.removeAll, TransferStore.remove, he]
      rw [hremove] at hgone ⊢
      exact (ih hc).cons_same (hgone.trans he.symm)
    | some e =>
      obtain ⟨hremove, hown⟩ := hc.remove_of_some he
      have hremoveAll : s.removeAll (id :: rest)
          = (((s.without e).removeAll rest).1, ((s.without e).removeAll rest).2 + 1) := by
        rw [TransferStore.removeAll, hremove]
      have hid := (hc.id_eq he).1
      have hnone : (s.without e).get? id = none := by rw [get?_without, if_pos hid]
      rw [hremoveAll] at hgone ⊢
      refine (ih (hc.without hown)).cons_changed (fun id' hne => ?_) (hgone.trans hnone.symm) ?_
      · rw [get?_without, if_neg (hid ▸ hne)]
      · rw [hnone, he]
        exact (Option.some_ne_none e).symm

/-- A transfer that was handed over comes back and is counted. -/
theorem reopenAll_cons_of_issued {e : PooledTransfer} (he : s.get? id = some e)
    (hissued : e.issued = true) (rest : List Digest) :
    s.reopenAll (id :: rest)
      = (((s.reopen id).1.reopenAll rest).1, ((s.reopen id).1.reopenAll rest).2 + 1) := by
  have hreopen : (s.reopen id).2 = true := by
    rw [reopen, he]
    dsimp only
    rw [if_pos hissued]
  rw [reopenAll]
  generalize s.reopen id = reopened at hreopen
  obtain ⟨s', back⟩ := reopened
  obtain rfl : back = true := hreopen
  rfl

theorem reopenAll_cons_of_free (hfree : ∀ e, s.get? id = some e → e.issued = false)
    (rest : List Digest) : s.reopenAll (id :: rest) = s.reopenAll rest := by
  have hreopen : s.reopen id = (s, false) := by
    rw [reopen]
    cases he : s.get? id with
    | none => rfl
    | some e =>
      dsimp only
      rw [if_neg (Bool.eq_false_iff.mp (hfree e he))]
  rw [reopenAll, hreopen]
  rfl

/-- **Coming back counts** what was handed over. -/
theorem counted_reopenAll (s : TransferStore) (ids : List Digest) :
    Counted s (s.reopenAll ids).1 ids (s.reopenAll ids).2 := by
  -- By induction over the ids: one that comes up again has lost its mark.
  induction ids generalizing s with
  | nil => exact Counted.nil s
  | cons id rest ih =>
    have hback : (s.reopenAll (id :: rest)).1.get? id = (s.get? id).map ({ · with issued := false }) := by
      rw [get?_reopenAll, if_pos List.mem_cons_self]
    by_cases hissued : ∃ e, s.get? id = some e ∧ e.issued = true
    · obtain ⟨e, he, hissued⟩ := hissued
      have hopen : (s.reopen id).1.get? id = some { e with issued := false } := by
        rw [get?_reopen, if_pos rfl, he]
        rfl
      rw [reopenAll_cons_of_issued he hissued] at hback ⊢
      refine (ih (s.reopen id).1).cons_changed (fun id' hne => ?_) ?_ ?_
      · rw [get?_reopen, if_neg hne]
      · rw [hback, hopen, he]
        rfl
      · rw [hopen, he]
        intro hsame
        rw [← Option.some.inj hsame] at hissued
        cases hissued
    · have hfree : ∀ e, s.get? id = some e → e.issued = false := fun e he =>
        Bool.eq_false_iff.mpr fun htrue => hissued ⟨e, he, htrue⟩
      rw [reopenAll_cons_of_free hfree] at hback ⊢
      exact (ih s).cons_same (hback.trans ((get?_of_issued_eq hfree id).trans (if_pos rfl)).symm)

end

/-! ## What is marked is not evicted -/

section
variable {s : TransferStore} {id : Digest} {e : PooledTransfer}

theorem Coherent.get?_evict_of_issued (hc : s.Coherent) (he : s.get? id = some e)
    (hissued : e.issued = true) : s.evict.1.get? id = some e := by
  rw [TransferStore.evict]
  split
  · exact he
  next key hkey =>
  -- Whoever is in the order of eviction was not handed over.
  obtain ⟨e', he', hfree, hof⟩ := hc.evictable.mp (Std.ExtTreeSet.min?_mem hkey)
  have hid : key.id = e'.id := (congrArg EvictionKey.id hof).symm
  rw [hc.get?_remove, if_neg, he]
  rintro rfl
  rw [hid, he'] at he
  rw [Option.some.inj he, hissued] at hfree
  cases hfree

end

end

end TransferStore

namespace Mempool

open TransferStore (Coherent Counted Ranked)

variable {p : Mempool} {t : Transfer}

/-! ## Offers while transfers are handed over -/

section
variable {s : TransferStore} {id : Digest} {e : PooledTransfer}

theorem get?_evictUpTo_of_issued (hc : s.Coherent) (he : s.get? id = some e)
    (hissued : e.issued = true) (n : Nat) : (evictUpTo n s).1.get? id = some e := by
  induction n generalizing s with
  | zero => exact he
  | succ n ih =>
    have hkept := hc.get?_evict_of_issued he hissued
    have hc' := hc.evict
    rw [evictUpTo]
    generalize s.evict = evicted at hkept hc' ⊢
    obtain ⟨s', victim⟩ := evicted
    cases victim with
    | none => exact hkept
    | some victim => exact ih hc' hkept

/-- Nobody outbids what is handed over. -/
theorem not_mem_rivals_of_check {b : TransferBackend} {tx : Transfer}
    (hcheck : check b s tx = .ok ()) (he : s.get? id = some e) (hissued : e.issued = true) :
    id ∉ s.rivals tx := by
  intro hrival
  rw [check] at hcheck
  split at hcheck
  · cases hcheck
  split at hcheck
  · cases hcheck
  split at hcheck
  · next hall =>
    have houtbids := List.all_eq_true.mp hall id hrival
    rw [outbids, he] at houtbids
    dsimp only at houtbids
    rw [hissued] at houtbids
    cases houtbids
  · cases hcheck

theorem get?_place_of_issued (hc : s.Coherent) {tx : Transfer} (hnew : s.get? tx.id = none)
    (hrival : id ∉ s.rivals tx) (he : s.get? id = some e) (hissued : e.issued = true)
    (maxSize : Nat) (isLocal : Bool) : (place maxSize s tx isLocal).1.get? id = some e := by
  have hnew' : (s.removeAll (s.rivals tx)).1.get? tx.id = none := by
    rw [hc.get?_removeAll, hnew]
    split <;> rfl
  have hkept : (s.removeAll (s.rivals tx)).1.get? id = some e := by
    rw [hc.get?_removeAll, if_neg hrival, he]
  have hplaced := (hc.removeAll (s.rivals tx)).insert isLocal hnew' (hc.spenders_removeAll_rivals tx)
  exact get?_evictUpTo_of_issued hplaced (Coherent.get?_insert_of_some hnew' hkept) hissued _

end

/-- **An offer** is refused and touches no transfer, or it is new, passes the
check and is placed. -/
theorem refused_or_checked (hc : p.store.Coherent) (b : TransferBackend) (tx : Transfer)
    (isLocal : Bool) :
    ((∃ e, (p.add b tx isLocal).2 = .error e) ∧
        ∀ id, (p.add b tx isLocal).1.store.get? id = p.store.get? id) ∨
      (p.store.get? tx.id = none ∧ check b (p.store.verdict tx.id).1 tx = .ok () ∧
        (p.add b tx isLocal).1.store
          = (place p.settings.maxSize (p.store.verdict tx.id).1 tx isLocal).1) := by
  rw [add]
  dsimp only
  split
  · exact Or.inl ⟨⟨_, rfl⟩, fun _ => rfl⟩
  next hknown =>
  have hnew := get?_of_not_isKnown hc hknown
  have hsame : ∀ id, (p.store.verdict tx.id).1.get? id = p.store.get? id := fun _ => rfl
  split
  · next s reason heq =>
    rw [heq] at hsame
    exact Or.inl ⟨⟨_, rfl⟩, hsame⟩
  next s heq =>
  rw [heq] at hsame ⊢
  split
  · next e _ =>
    refine Or.inl ⟨⟨e, rfl⟩, fun id => ?_⟩
    show (if e.isMemorable then s.remember tx.id e.message else s).get? id = _
    split
    · exact hsame id
    · exact hsame id
  · next hcheck =>
    refine Or.inr ⟨hnew, hcheck, ?_⟩
    split
    · rfl
    · rfl

/-- **No offer touches what is handed over**, -/
theorem get?_add_of_issued (hc : p.store.Coherent) {id : Digest} {e : PooledTransfer}
    (he : p.store.get? id = some e) (hissued : e.issued = true) (b : TransferBackend) (tx : Transfer)
    (isLocal : Bool) : (p.add b tx isLocal).1.store.get? id = some e := by
  rcases refused_or_checked hc b tx isLocal with ⟨_, hsame⟩ | ⟨hnew, hcheck, hplaced⟩
  · rw [hsame, he]
  · rw [hplaced]
    have he' : (p.store.verdict tx.id).1.get? id = some e := he
    exact get?_place_of_issued (hc.verdict tx.id) hnew (not_mem_rivals_of_check hcheck he' hissued)
      he' hissued _ _

/-- and one that spends an input of it is refused. -/
theorem error_add_of_issued (hc : p.store.Coherent) {id input : Digest} {e : PooledTransfer}
    (he : p.store.get? id = some e) (hissued : e.issued = true) (b : TransferBackend) {tx : Transfer}
    (hinput : input ∈ tx.inputs) (hown : input ∈ e.tx.inputs) (isLocal : Bool) :
    ∃ err, (p.add b tx isLocal).2 = .error err := by
  rcases refused_or_checked hc b tx isLocal with ⟨herror, _⟩ | ⟨_, hcheck, _⟩
  · exact herror
  · have he' : (p.store.verdict tx.id).1.get? id = some e := he
    refine absurd ?_ (not_mem_rivals_of_check hcheck he' hissued)
    exact TransferStore.mem_rivals.mpr ⟨input, hinput, (hc.verdict tx.id).spender.mpr ⟨e, he', hown⟩⟩

/-! ## While a transfer is handed over -/

/-- An action lets a transfer come back. -/
def Action.GivesBack (id : Digest) : Action → Prop
  | .rollback ids => id ∈ ids
  | _ => False

/-- An action takes a transfer out for good. -/
def Action.TakesOut (id : Digest) : Action → Prop
  | .confirm ids => id ∈ ids
  | .discard id' _ => id' = id
  | _ => False

/-- A transfer is pooled and handed over. -/
def Issued (p : Mempool) (t : Transfer) : Prop :=
  ∃ e, p.store.get? t.id = some e ∧ e.tx = t ∧ e.issued = true

theorem Issued.act (h : p.Issued t) (hc : p.store.Coherent) {action : Action}
    (hback : ¬action.GivesBack t.id) (hout : ¬action.TakesOut t.id) : (p.act action).Issued t := by
  obtain ⟨e, he, htx, hissued⟩ := h
  cases action with
  | add b tx isLocal => exact ⟨e, get?_add_of_issued hc he hissued b tx isLocal, htx, hissued⟩
  | propose max =>
    have hget : (p.propose max).1.store.get? t.id = some e := by
      rw [propose, TransferStore.get?_issueAll, he, Option.map_some, ← hissued]
      exact ite_self _
    exact ⟨e, hget, htx, hissued⟩
  | confirm ids =>
    have hget : (p.store.removeAll ids).1.get? t.id = some e := by
      have hnot : t.id ∉ ids := hout
      rw [hc.get?_removeAll, if_neg hnot, he]
    exact ⟨e, hget, htx, hissued⟩
  | rollback ids =>
    have hget : (p.store.reopenAll ids).1.get? t.id = some e := by
      have hnot : t.id ∉ ids := hback
      rw [TransferStore.get?_reopenAll, if_neg hnot, he]
    exact ⟨e, hget, htx, hissued⟩
  | discard id reason =>
    have hget : (p.store.remove id).1.get? t.id = some e := by
      have hne : ¬id = t.id := hout
      rw [hc.get?_remove, if_neg hne, he]
    exact ⟨e, hget, htx, hissued⟩

/-- **What is handed over stays**, unless somebody lets it come back or takes it
out. -/
theorem Issued.run (h : p.Issued t) (hc : p.store.Coherent) {during : List Action}
    (hback : ∀ action ∈ during, ¬action.GivesBack t.id) :
    (p.run during).Issued t ∨ ∃ action ∈ during, action.TakesOut t.id := by
  -- By induction over the actions, up to the first that takes the transfer out.
  induction during generalizing p with
  | nil => exact Or.inl h
  | cons action rest ih =>
    obtain ⟨hfirst, hrest⟩ := List.forall_mem_cons.mp hback
    by_cases hout : action.TakesOut t.id
    · exact Or.inr ⟨action, List.mem_cons_self, hout⟩
    · rcases ih (h.act hc hfirst hout) (coherent_act hc action) hrest with hkept | ⟨a, ha, hout⟩
      · exact Or.inl hkept
      · exact Or.inr ⟨a, List.mem_cons_of_mem _ ha, hout⟩

/-- **What being handed over comes to.** -/
structure Protected (p : Mempool) (t : Transfer) : Prop where
  issued : p.Issued t
  /-- It is not handed over again, -/
  not_proposed : ∀ max, ∀ t' ∈ (p.propose max).2, t'.id ≠ t.id
  /-- neither evicted nor replaced, whatever is offered, -/
  kept : ∀ b tx isLocal, (p.add b tx isLocal).1.store.get? t.id = p.store.get? t.id
  /-- and rivals are refused, whatever they pay. -/
  refused : ∀ b tx isLocal, (∃ input ∈ tx.inputs, input ∈ t.inputs) →
    ∃ e, (p.add b tx isLocal).2 = .error e

theorem Issued.protected (h : p.Issued t) (hc : p.store.Coherent) : p.Protected t := by
  have hissued := h
  obtain ⟨e, he, rfl, hmarked⟩ := h
  refine ⟨hissued, fun max t' ht' heq => ?_, fun b tx isLocal => ?_, ?_⟩
  · obtain ⟨e', he', hfree, _⟩ := of_mem_proposed hc ht'
    rw [heq, he] at he'
    rw [← Option.some.inj he', hmarked] at hfree
    cases hfree
  · rw [get?_add_of_issued hc he hmarked, he]
  · rintro b tx isLocal ⟨input, hinput, hown⟩
    exact error_add_of_issued hc he hmarked b hinput hown isLocal

/-! ## Handing over -/

/-- **What is handed over**: the first of the ranked transfers (`Mempool::propose`). These are
marked, and nothing else changes. -/
structure Proposes (p : Mempool) (max : Nat) (order : List PooledTransfer) : Prop where
  ranked : p.store.Ranked order
  unique : ∀ other, p.store.Ranked other → other = order
  proposed : (p.propose max).2 = (order.take max).map PooledTransfer.tx
  length_eq : (p.propose max).2.length = min max p.pendingSize
  marked : ∀ id, (p.propose max).1.store.get? id
    = if id ∈ (order.take max).map PooledTransfer.id then
        (p.store.get? id).map ({ · with issued := true })
      else p.store.get? id
  rest : ∃ entries evictable,
    (p.propose max).1 = { p with store := { p.store with entries, evictable } }

/-- Handing over touches the transfers and the order of eviction. -/
theorem exists_issueAll_eq (s : TransferStore) (picked : List PooledTransfer) :
    ∃ entries evictable,
      picked.foldl (fun s e => (s.issue e.id).1) s = { s with entries, evictable } := by
  induction picked generalizing s with
  | nil => exact ⟨s.entries, s.evictable, rfl⟩
  | cons e rest ih =>
    have hissue : ∃ entries evictable, (s.issue e.id).1 = { s with entries, evictable } := by
      rw [TransferStore.issue]
      split
      · exact ⟨s.entries, s.evictable, rfl⟩
      · split
        · exact ⟨s.entries, s.evictable, rfl⟩
        · exact ⟨_, _, rfl⟩
    obtain ⟨entries, evictable, hone⟩ := hissue
    obtain ⟨entries', evictable', hrest⟩ := ih { s with entries, evictable }
    refine ⟨entries', evictable', ?_⟩
    rw [List.foldl_cons, hone, hrest]

theorem proposes_byFee (hc : p.store.Coherent) (max : Nat) : p.Proposes max p.store.byFee where
  ranked := hc.ranked_byFee
  unique other h := h.unique hc.ranked_byFee
  proposed := rfl
  length_eq := by
    rw [propose, List.length_map, List.length_take, hc.length_byFee]
    rfl
  marked id := TransferStore.get?_issueAll p.store _ id
  rest := by
    obtain ⟨entries, evictable, h⟩ := exists_issueAll_eq p.store (p.store.byFee.take max)
    exact ⟨entries, evictable, by rw [propose, h]⟩

theorem issued_of_proposed (hc : p.store.Coherent) {max : Nat} (ht : t ∈ (p.propose max).2) :
    (p.propose max).1.Issued t := by
  obtain ⟨e, he, rfl⟩ := List.mem_map.mp ht
  obtain ⟨hget, _⟩ := hc.mem_byFee.mp (List.mem_of_mem_take he)
  have hid : e.tx.id = e.id := (hc.id_eq hget).2
  refine ⟨{ e with issued := true }, ?_, rfl, rfl⟩
  rw [(proposes_byFee hc max).marked, hid, if_pos (List.mem_map_of_mem he), hget]
  rfl

/-- What was not handed over stays as it is when everything else is confirmed. -/
theorem get?_confirm_of_not_proposed (hc : p.store.Coherent) {max : Nat} {id : Digest}
    (hnot : id ∉ (p.propose max).2.map Transfer.id) :
    ((p.propose max).1.confirm ((p.propose max).2.map Transfer.id)).1.store.get? id
      = p.store.get? id := by
  have hids : (p.propose max).2.map Transfer.id
      = (p.store.byFee.take max).map PooledTransfer.id := by
    rw [propose, List.map_map]
    refine List.map_congr_left fun e he => ?_
    exact (hc.id_eq (hc.mem_byFee.mp (List.mem_of_mem_take he)).1).2
  show ((p.propose max).1.store.removeAll ((p.propose max).2.map Transfer.id)).1.get? id = _
  rw [(coherent_propose hc max).get?_removeAll, if_neg hnot, (proposes_byFee hc max).marked,
    if_neg (hids ▸ hnot)]

/-! ## The life of a transfer -/

/-- **What a pool does with block assembly.** -/
structure Serves (p : Mempool) : Prop where
  proposes : ∀ max, ∃ order, p.Proposes max order
  /-- What was handed over is protected until it comes back or is taken out. -/
  protects : ∀ max, ∀ t ∈ (p.propose max).2, ∀ during : List Action,
    (∀ action ∈ during, ¬action.GivesBack t.id) →
      ((p.propose max).1.run during).Protected t ∨ ∃ action ∈ during, action.TakesOut t.id
  /-- Taking out says for how many ids it made a difference, -/
  confirms : ∀ ids, Counted p.store (p.confirm ids).1.store ids (p.confirm ids).2 ∧
    ∀ id, (p.confirm ids).1.store.get? id = if id ∈ ids then none else p.store.get? id
  /-- and so does coming back. -/
  rollbacks : ∀ ids, Counted p.store (p.rollback ids).1.store ids (p.rollback ids).2 ∧
    ∀ id, (p.rollback ids).1.store.get? id
      = if id ∈ ids then (p.store.get? id).map ({ · with issued := false }) else p.store.get? id

theorem serves_of_coherent (hc : p.store.Coherent) : p.Serves where
  proposes max := ⟨_, proposes_byFee hc max⟩
  protects max t ht during hback := by
    have hc' := coherent_propose hc max
    rcases (issued_of_proposed hc ht).run hc' hback with hissued | hout
    · exact Or.inl (hissued.protected (coherent_run hc' during))
    · exact Or.inr hout
  confirms ids := ⟨hc.counted_removeAll ids, fun id => hc.get?_removeAll ids id⟩
  rollbacks ids := ⟨TransferStore.counted_reopenAll _ ids, TransferStore.get?_reopenAll _ ids⟩

/-- **The life of a transfer**, from the pool to block assembly and back, whatever
was asked of the pool before. -/
theorem serves_of_run {settings : MempoolSettings} {salts : Nat → Salt}
    (hnew : new settings salts = .ok p) (actions : List Action) : (p.run actions).Serves :=
  serves_of_coherent (coherent_run (coherent_new hnew) actions)

/-- A small pool that was offered a transfer hands it over, and keeps it when a
rival is offered that pays more. -/
theorem serves_of_offer :
    ∃ p, new .small (fun _ => default) = .ok p ∧ ∃ q, q = p.run ((rivalOffers 1 2).take 1) ∧
      ∃ t ∈ (q.propose q.size).2,
        ((q.propose q.size).1.run ((rivalOffers 1 2).drop 1)).Protected t := by
  obtain ⟨p, hp⟩ := exists_new_small
  have hoffered : ((p.run ((rivalOffers 1 2).take 1)).propose
      (p.run ((rivalOffers 1 2).take 1)).size).2
        = [{ (default : Transfer) with fee := 1, inputs := [default] }] :=
    propose_add_of_new hp (b := ⟨fun _ => .ok (), fun _ => 0⟩) rfl (by decide) true
  refine ⟨p, hp, _, rfl, _, hoffered ▸ List.mem_singleton_self _, ?_⟩
  have hserves := serves_of_run hp ((rivalOffers 1 2).take 1)
  have hproposed := hserves.protects _ _ (hoffered ▸ List.mem_singleton_self _)
    ((rivalOffers 1 2).drop 1) fun action haction => by
      rw [List.mem_singleton.mp haction]
      exact not_false
  rcases hproposed with hprotected | ⟨action, haction, hout⟩
  · exact hprotected
  · rw [List.mem_singleton.mp haction] at hout
    exact hout.elim

end Mempool

end TxRelay
