/-
Maps of several sub-pools, one written over the other.

That would lose what two of them list under one account. They list nothing under
one account if accounts are exclusive. So what is merged under an account is what
the sub-pools have of it, put together, and the map written out is what they
have in all.
-/
import TxRelay.Proofs.Halves

set_option autoImplicit false

namespace TxRelay

/-! ## Maps of transactions, written out -/

namespace AccountTxs

/-- The transactions of a map, each with the account that it is listed under. -/
def listing (m : AccountTxs) : List (Address × Transaction) :=
  m.toList.flatMap fun entry => entry.2.map fun tx => (entry.1, tx)

variable {m : AccountTxs} {a : Address} {tx : Transaction}

theorem mem_listing : (a, tx) ∈ m.listing ↔ ∃ txs, m[a]? = some txs ∧ tx ∈ txs := by
  rw [listing, List.mem_flatMap]
  constructor
  · rintro ⟨⟨k, txs⟩, hentry, hmem⟩
    obtain ⟨tx', htx, heq⟩ := List.mem_map.mp hmem
    obtain ⟨rfl, rfl⟩ := Prod.mk.inj heq
    exact ⟨txs, Std.ExtTreeMap.mem_toList_iff_getElem?_eq_some.mp hentry, htx⟩
  · rintro ⟨txs, hm, htx⟩
    exact ⟨(a, txs), Std.ExtTreeMap.mem_toList_iff_getElem?_eq_some.mpr hm,
      List.mem_map.mpr ⟨tx, htx, rfl⟩⟩

theorem nodup_listing
    (hm : ∀ (a : Address) (txs : List Transaction), m[a]? = some txs → txs.Nodup) :
    m.listing.Nodup := by
  refine List.pairwise_flatMap.mpr ⟨fun entry hentry => ?_, ?_⟩
  · have hnodup := hm entry.1 entry.2 (Std.ExtTreeMap.mem_toList_iff_getElem?_eq_some.mp hentry)
    exact List.pairwise_map.mpr (hnodup.imp fun hne heq => hne (Prod.mk.inj heq).2)
  · -- What is listed under two accounts differs in the account.
    refine Std.ExtTreeMap.distinct_keys_toList.imp fun hne x hx y hy heq => hne ?_
    obtain ⟨_, _, rfl⟩ := List.mem_map.mp hx
    obtain ⟨_, _, rfl⟩ := List.mem_map.mp hy
    rw [(Prod.mk.inj heq).1]
    exact Std.ReflCmp.compare_self

/-- Maps without an account do not show when they are written over another. -/
theorem getElem?_foldl_extend_of_none {γ : Type} {f : γ → AccountTxs} {vs : List γ}
    (hnone : ∀ v ∈ vs, (f v)[a]? = none) (m : AccountTxs) :
    (vs.foldl (fun m v => extend m (f v)) m)[a]? = m[a]? := by
  induction vs generalizing m with
  | nil => rfl
  | cons v rest ih =>
    obtain ⟨hv, hrest⟩ := List.forall_mem_cons.mp hnone
    rw [List.foldl_cons, ih hrest, getElem?_extend_eq, hv, Option.none_or]

end AccountTxs

namespace NoncePool

/-! ## Sub-pools with nothing in common -/

/-- Sub-pools that are in order and hold nothing of a common account. -/
structure Separate (vs : List (NoncePool × Backend)) : Prop where
  coherent : ∀ v ∈ vs, v.1.holdings.Coherent
  apart : vs.Pairwise fun v w => ∀ a, v.1.holdings.HoldsFrom a → ¬w.1.holdings.HoldsFrom a

/-- What sub-pools hold of an account in one of the halves. -/
def ofAccount (vs : List (NoncePool × Backend)) (side : Half) (a : Address) : List Pooled :=
  vs.flatMap fun v => v.1.half v.2 side a

/-- What sub-pools hold in one of the halves. -/
def allInHalf (vs : List (NoncePool × Backend)) (side : Half) : List Pooled :=
  vs.flatMap fun v => v.1.inHalf v.2 side

/-- What sub-pools collect of accounts, one map over the other. -/
def collectAll (vs : List (NoncePool × Backend)) (accounts : NoncePool → List Address)
    (side : Half) : AccountTxs :=
  vs.foldl (fun m v => AccountTxs.extend m ((v.1.collect v.2 (accounts v.1)).half side)) ∅

section
variable {vs : List (NoncePool × Backend)} {v : NoncePool × Backend} {side : Half} {a : Address}
  {q : Pooled}

theorem half_eq_nil {p : NoncePool} {b : Backend} (hc : p.holdings.Coherent)
    (hnone : ¬p.holdings.HoldsFrom a) (side : Half) : p.half b side a = [] :=
  Classical.byContradiction fun hne => hnone (holdsFrom_of_half hc hne)

theorem mem_allInHalf (h : Separate vs) :
    q ∈ allInHalf vs side ↔ ∃ v ∈ vs, q ∈ v.1.half v.2 side q.tx.sender := by
  rw [allInHalf, List.mem_flatMap]
  constructor
  · rintro ⟨v, hv, hq⟩
    exact ⟨v, hv, (mem_inHalf (h.coherent v hv)).mp hq⟩
  · rintro ⟨v, hv, hq⟩
    exact ⟨v, hv, (mem_inHalf (h.coherent v hv)).mpr hq⟩

namespace Separate

/-- **Whoever holds something of an account is alone with it.** -/
theorem lone (h : Separate vs) (hv : v ∈ vs) (ha : v.1.holdings.HoldsFrom a) :
    ∃ before after, vs = before ++ v :: after ∧
      ∀ w ∈ before ++ after, ∀ side, w.1.half w.2 side a = [] := by
  obtain ⟨before, after, rfl⟩ := List.append_of_mem hv
  refine ⟨before, after, rfl, fun w hw => half_eq_nil (h.coherent w ?_) ?_⟩
  · rcases List.mem_append.mp hw with hbefore | hafter
    · exact List.mem_append_left _ hbefore
    · exact List.mem_append_right _ (List.mem_cons_of_mem _ hafter)
  · obtain ⟨_, hrest, hcross⟩ := List.pairwise_append.mp h.apart
    rcases List.mem_append.mp hw with hbefore | hafter
    · exact fun hw => hcross w hbefore v List.mem_cons_self a hw ha
    · exact (List.pairwise_cons.mp hrest).1 w hafter a ha

/-- So what is held of an account is what it holds. -/
theorem ofAccount_eq (h : Separate vs) (hv : v ∈ vs) (ha : v.1.holdings.HoldsFrom a)
    (side : Half) : ofAccount vs side a = v.1.half v.2 side a := by
  obtain ⟨before, after, rfl, hothers⟩ := h.lone hv ha
  have hbefore : before.flatMap (fun w => w.1.half w.2 side a) = [] :=
    List.flatMap_eq_nil_iff.mpr fun w hw => hothers w (List.mem_append_left _ hw) side
  have hafter : after.flatMap (fun w => w.1.half w.2 side a) = [] :=
    List.flatMap_eq_nil_iff.mpr fun w hw => hothers w (List.mem_append_right _ hw) side
  rw [ofAccount, List.flatMap_append, List.flatMap_cons, hbefore, hafter, List.nil_append,
    List.append_nil]

theorem ofAccount_eq_nil (h : Separate vs) (hnone : ∀ v ∈ vs, ¬v.1.holdings.HoldsFrom a)
    (side : Half) : ofAccount vs side a = [] :=
  List.flatMap_eq_nil_iff.mpr fun v hv => half_eq_nil (h.coherent v hv) (hnone v hv) side

/-- **What is collected under an account** is what is held of it, if whoever
holds it was asked for it. -/
theorem getElem?_collectAll (h : Separate vs) {accounts : NoncePool → List Address} {asked : Prop}
    [Decidable asked] (hasked : ∀ v ∈ vs, v.1.holdings.HoldsFrom a → (a ∈ accounts v.1 ↔ asked)) :
    (collectAll vs accounts side)[a]?
      = if asked ∧ ofAccount vs side a ≠ [] then some ((ofAccount vs side a).map Pooled.tx)
        else none := by
  have hempty : ∀ w : NoncePool × Backend, w.1.half w.2 side a = [] →
      ((w.1.collect w.2 (accounts w.1)).half side)[a]? = none := by
    intro w hw
    rw [getElem?_collect, if_neg fun hboth => hboth.2 hw]
  by_cases hsome : ∃ v ∈ vs, v.1.holdings.HoldsFrom a
  · obtain ⟨v, hv, ha⟩ := hsome
    rw [h.ofAccount_eq hv ha side, collectAll]
    obtain ⟨before, after, rfl, hothers⟩ := h.lone hv ha
    -- The others are written without the account, before and after.
    rw [List.foldl_append, List.foldl_cons,
      AccountTxs.getElem?_foldl_extend_of_none fun w hw =>
        hempty w (hothers w (List.mem_append_right _ hw) side),
      AccountTxs.getElem?_extend_eq,
      AccountTxs.getElem?_foldl_extend_of_none fun w hw =>
        hempty w (hothers w (List.mem_append_left _ hw) side),
      Std.ExtTreeMap.getElem?_empty, Option.or_none, getElem?_collect]
    simp only [hasked v hv ha]
  · have hnone : ∀ v ∈ vs, ¬v.1.holdings.HoldsFrom a := fun v hv ha => hsome ⟨v, hv, ha⟩
    rw [h.ofAccount_eq_nil hnone, if_neg fun hboth => hboth.2 rfl, collectAll,
      AccountTxs.getElem?_foldl_extend_of_none fun v hv =>
        hempty v (half_eq_nil (h.coherent v hv) (hnone v hv) side),
      Std.ExtTreeMap.getElem?_empty]

/-- The content under an account. -/
theorem getElem?_content (h : Separate vs) (side : Half) (a : Address) :
    (collectAll vs (fun p => p.holdings.senders) side)[a]?
      = if ofAccount vs side a ≠ [] then some ((ofAccount vs side a).map Pooled.tx) else none := by
  have hasked : ∀ v ∈ vs, v.1.holdings.HoldsFrom a → (a ∈ v.1.holdings.senders ↔ True) :=
    fun v hv ha => iff_true_intro (((h.coherent v hv).mem_senders_iff a).mpr ha)
  rw [h.getElem?_collectAll hasked]
  simp only [true_and]

/-- The content of given accounts is the content, restricted to them. -/
theorem getElem?_content_of (h : Separate vs) (accounts : List Address) (side : Half)
    (a : Address) :
    (collectAll vs (fun _ => accounts) side)[a]?
      = if a ∈ accounts then (collectAll vs (fun p => p.holdings.senders) side)[a]? else none := by
  rw [h.getElem?_collectAll fun _ _ _ => Iff.rfl, h.getElem?_content]
  by_cases ha : a ∈ accounts
  · simp only [ha, true_and, if_true]
  · rw [if_neg ha, if_neg fun hboth => ha hboth.1]

theorem getD_content (h : Separate vs) (side : Half) (a : Address) :
    (collectAll vs (fun p => p.holdings.senders) side).getD a []
      = (ofAccount vs side a).map Pooled.tx := by
  rw [Std.ExtTreeMap.getD_eq_getD_getElem?, h.getElem?_content]
  split
  · rfl
  · next hempty =>
    rw [Classical.not_not.mp hempty]
    rfl

/-! ## Everything that is listed -/

/-- Whatever sub-pools have in a half is held by one of them. -/
theorem held_of_mem (h : Separate vs) (hq : q ∈ allInHalf vs side) :
    ∃ v ∈ vs, v.1.holdings.get? q.hash = some q := by
  obtain ⟨v, hv, hmem⟩ := (mem_allInHalf h).mp hq
  exact ⟨v, hv, (held_of_mem_half (h.coherent v hv) hmem).1⟩

/-- What is listed under an account is held of it by one of the sub-pools. -/
theorem mem_listing_iff (h : Separate vs) {tx : Transaction} :
    (a, tx) ∈ (collectAll vs (fun p => p.holdings.senders) side).listing
      ↔ ∃ v ∈ vs, ∃ q ∈ v.1.half v.2 side a, q.tx = tx := by
  have hmem : (∃ v ∈ vs, ∃ q ∈ v.1.half v.2 side a, q.tx = tx)
      ↔ ∃ q ∈ ofAccount vs side a, q.tx = tx := by
    simp only [ofAccount, List.mem_flatMap]
    constructor
    · rintro ⟨v, hv, q, hq, htx⟩
      exact ⟨q, ⟨v, hv, hq⟩, htx⟩
    · rintro ⟨q, ⟨v, hv, hq⟩, htx⟩
      exact ⟨v, hv, q, hq, htx⟩
  rw [hmem, AccountTxs.mem_listing, h.getElem?_content]
  constructor
  · rintro ⟨txs, hm, htx⟩
    split at hm
    · rw [← Option.some.inj hm] at htx
      exact List.mem_map.mp htx
    · cases hm
  · rintro ⟨q, hq, rfl⟩
    exact ⟨_, if_pos (List.ne_nil_of_mem hq), List.mem_map_of_mem hq⟩

theorem nodup_content (h : Separate vs) (side : Half) :
    (collectAll vs (fun p => p.holdings.senders) side).listing.Nodup := by
  refine AccountTxs.nodup_listing fun a txs hm => ?_
  rw [h.getElem?_content] at hm
  split at hm
  · next hne =>
    rw [← Option.some.inj hm]
    -- The transactions of an account differ in their nonces.
    obtain ⟨q, hq⟩ := List.exists_mem_of_ne_nil _ hne
    obtain ⟨v, hv, hq⟩ := List.mem_flatMap.mp hq
    have hc := h.coherent v hv
    rw [h.ofAccount_eq hv (holdsFrom_of_half hc (List.ne_nil_of_mem hq))]
    refine List.nodup_iff_pairwise_ne.mpr (List.pairwise_map.mpr ((ascending_half hc).imp ?_))
    intro q q' hlt heq
    rw [heq] at hlt
    exact UInt64.lt_irrefl _ hlt
  · cases hm

/-- Two sub-pools that have something of one account are the same. -/
theorem half_eq_half (h : Separate vs) {w : NoncePool × Backend} (hv : v ∈ vs) (hw : w ∈ vs)
    (hva : v.1.holdings.HoldsFrom a) (hwa : w.1.holdings.HoldsFrom a) (side : Half) :
    v.1.half v.2 side a = w.1.half w.2 side a := by
  rw [← h.ofAccount_eq hv hva, h.ofAccount_eq hw hwa]

/-- **What can be executed does not wait.** -/
theorem not_mem_both (h : Separate vs) {tx : Transaction}
    (hpending : (a, tx) ∈ (collectAll vs (fun p => p.holdings.senders) .pending).listing) :
    (a, tx) ∉ (collectAll vs (fun p => p.holdings.senders) .queued).listing := by
  intro hqueued
  obtain ⟨v, hv, q, hq, rfl⟩ := h.mem_listing_iff.mp hpending
  obtain ⟨w, hw, q', hq', htx⟩ := h.mem_listing_iff.mp hqueued
  have hc := h.coherent v hv
  have hva := holdsFrom_of_half hc (List.ne_nil_of_mem hq)
  have hwa := holdsFrom_of_half (h.coherent w hw) (List.ne_nil_of_mem hq')
  rw [h.half_eq_half hw hv hwa hva] at hq'
  have hsame := hc.eq_of_tx (held_of_mem_half hc hq).1 (held_of_mem_half hc hq').1 htx.symm
  rw [← hsame] at hq'
  exact not_mem_queued hc hq hq'

/-- **What is listed in a half** is what the sub-pools have in it. -/
theorem listing_perm (h : Separate vs) (side : Half) :
    (collectAll vs (fun p => p.holdings.senders) side).listing.Perm
      ((allInHalf vs side).map fun q => (q.tx.sender, q.tx)) := by
  have hnodup : ((allInHalf vs side).map fun q => (q.tx.sender, q.tx)).Nodup := by
    refine List.pairwise_map.mpr (List.pairwise_flatMap.mpr ⟨fun v hv => ?_, ?_⟩)
    · -- One sub-pool does not hold a transaction twice.
      have hc := h.coherent v hv
      refine (nodup_inHalf hc).imp_of_mem fun hq hq' hne heq => hne ?_
      exact hc.eq_of_tx (held_of_mem_inHalf hc hq) (held_of_mem_inHalf hc hq') (Prod.mk.inj heq).2
    · -- Two do not share a sender.
      refine h.apart.imp_of_mem fun {v w} hv hw hapart q hq q' hq' heq => ?_
      have hq := held_of_mem_inHalf (h.coherent v hv) hq
      have hq' := held_of_mem_inHalf (h.coherent w hw) hq'
      exact hapart q.tx.sender ⟨q.hash, q, hq, rfl⟩ ⟨q'.hash, q', hq', (Prod.mk.inj heq).1.symm⟩
  refine (List.perm_ext_iff_of_nodup (h.nodup_content side) hnodup).mpr ?_
  rintro ⟨a, tx⟩
  rw [h.mem_listing_iff, List.mem_map]
  constructor
  · rintro ⟨v, hv, q, hq, rfl⟩
    obtain rfl := (held_of_mem_half (h.coherent v hv) hq).2
    exact ⟨q, (mem_allInHalf h).mpr ⟨v, hv, hq⟩, rfl⟩
  · rintro ⟨q, hq, heq⟩
    obtain ⟨rfl, rfl⟩ := Prod.mk.inj heq
    obtain ⟨v, hv, hq⟩ := (mem_allInHalf h).mp hq
    exact ⟨v, hv, q, hq, rfl⟩

theorem length_listing (h : Separate vs) (side : Half) :
    (collectAll vs (fun p => p.holdings.senders) side).listing.length
      = (allInHalf vs side).length := by
  rw [(h.listing_perm side).length_eq, List.length_map]

/-- **What is shown to visitors** is what is listed as executable. -/
theorem executable_perm (h : Separate vs) :
    (vs.flatMap fun v => v.1.executable v.2).Perm
      ((collectAll vs (fun p => p.holdings.senders) .pending).listing.map Prod.snd) := by
  have hshown : (vs.flatMap fun v => v.1.executable v.2).Perm
      ((allInHalf vs .pending).map Pooled.tx) := by
    have hcoherent := h.coherent
    clear h
    induction vs with
    | nil => exact List.Perm.refl _
    | cons v rest ih =>
      obtain ⟨hv, hrest⟩ := List.forall_mem_cons.mp hcoherent
      rw [allInHalf, List.flatMap_cons, List.flatMap_cons, List.map_append]
      exact ((shown_perm hv v.2).map Pooled.tx).append (ih hrest)
  have hlisted := (h.listing_perm .pending).map Prod.snd
  rw [List.map_map] at hlisted
  exact hshown.trans hlisted.symm

end Separate

end

end NoncePool

end TxRelay
