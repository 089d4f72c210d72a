/-
What a sub-pool can have executed and what waits.

Of every account the transactions up to the first gap can be executed, and the
others wait. A sub-pool tells the two halves apart anew for each question: for
its counts by digests, for its content by accounts, for its visitors by times of
arrival. All of them mean the same two lists, which together are what is held.
-/
import TxRelay.Proofs.Pending

set_option autoImplicit false

namespace TxRelay

/-- The two halves of what is held. -/
inductive Half where
  | pending
  | queued

/-- How a transaction in a half is reported. -/
def Half.status : Half → TxStatus
  | .pending => .pending
  | .queued => .queued

theorem Half.status_ne_unknown (side : Half) : side.status ≠ .unknown := by
  cases side <;> exact nofun

theorem Half.eq_of_status {side side' : Half} (h : side.status = side'.status) : side = side' := by
  cases side <;> cases side' <;> first | rfl | cases h

def PoolContent.half (content : PoolContent) : Half → AccountTxs
  | .pending => content.pending
  | .queued => content.queued

def AccountContent.half (content : AccountContent) : Half → List Transaction
  | .pending => content.pending
  | .queued => content.queued

namespace Holdings

variable {h : Holdings}

/-- What is held comes up once among the newest. -/
theorem mem_newestFirst (hc : h.Coherent) {q : Pooled} :
    q ∈ h.newestFirst ↔ h.get? q.hash = some q := by
  rw [newestFirst, List.mem_filterMap]
  constructor
  · rintro ⟨hash, _, hq⟩
    rw [(hc.hash_eq hq).1, hq]
  · intro hq
    refine ⟨q.hash, List.mem_reverse.mpr (Entries.mem_values.mpr ⟨q.seq, ?_⟩), hq⟩
    exact hc.arrival.mpr ⟨q, hq, rfl⟩

/-- The newest comes first. -/
theorem pairwise_newestFirst (hc : h.Coherent) :
    h.newestFirst.Pairwise fun q q' => q'.seq < q.seq := by
  rw [newestFirst, List.pairwise_filterMap, List.pairwise_reverse, Entries.values_eq_map_toList,
    List.pairwise_map]
  -- Times of arrival are the keys of a map, which lists them in order.
  refine Std.ExtTreeMap.ordered_keys_toList.imp_of_mem ?_
  rintro ⟨n, hash⟩ ⟨n', hash'⟩ hmem hmem' hlt q' hq' q hq
  have hn := Std.ExtTreeMap.mem_toList_iff_getElem?_eq_some.mp hmem
  have hn' := Std.ExtTreeMap.mem_toList_iff_getElem?_eq_some.mp hmem'
  obtain ⟨p, hp, hseq⟩ := hc.arrival.mp hn
  obtain ⟨p', hp', hseq'⟩ := hc.arrival.mp hn'
  rw [Option.some.inj (hq.symm.trans hp), Option.some.inj (hq'.symm.trans hp'), hseq, hseq']
  exact compareOfLessAndEq_eq_lt.mp hlt

theorem nodup_newestFirst (hc : h.Coherent) : h.newestFirst.Nodup := by
  refine List.nodup_iff_pairwise_ne.mpr ((pairwise_newestFirst hc).imp ?_)
  rintro q _ hlt rfl
  exact Nat.lt_irrefl _ hlt

end Holdings

namespace NoncePool

/-! ## One account -/

/-- What a sub-pool holds of an account in one of the halves. -/
def half (p : NoncePool) (b : Backend) : Half → Address → List Pooled
  | .pending, a => (p.split b a).1
  | .queued, a => (p.split b a).2

section
variable {p : NoncePool} {b : Backend} {side : Half} {a : Address} {q : Pooled}

theorem half_append (p : NoncePool) (b : Backend) (a : Address) :
    p.half b .pending a ++ p.half b .queued a = p.holdings.ofSender a :=
  Holdings.run_append _ _

theorem sublist_half (p : NoncePool) (b : Backend) (side : Half) (a : Address) :
    (p.half b side a).Sublist (p.holdings.ofSender a) := by
  rw [← half_append p b a]
  cases side with
  | pending => exact List.sublist_append_left _ _
  | queued => exact List.sublist_append_right _ _

theorem held_of_mem_half (hc : p.holdings.Coherent) (hq : q ∈ p.half b side a) :
    p.holdings.get? q.hash = some q ∧ q.tx.sender = a :=
  (Holdings.mem_ofSender hc).mp ((sublist_half p b side a).subset hq)

theorem ascending_half (hc : p.holdings.Coherent) :
    (p.half b side a).Pairwise fun q q' => q.tx.nonce < q'.tx.nonce :=
  (Holdings.pairwise_ofSender hc a).sublist (sublist_half p b side a)

theorem nodup_half (hc : p.holdings.Coherent) : (p.half b side a).Nodup := by
  refine List.nodup_iff_pairwise_ne.mpr ((ascending_half hc).imp ?_)
  rintro q _ hlt rfl
  exact UInt64.lt_irrefl _ hlt

/-- **What is held is in one half**, and in no other. -/
theorem exists_half (hc : p.holdings.Coherent) (b : Backend) (hq : p.holdings.get? q.hash = some q) :
    ∃ side, q ∈ p.half b side q.tx.sender := by
  have hmem := (Holdings.mem_ofSender hc).mpr ⟨hq, rfl⟩
  rw [← half_append p b, List.mem_append] at hmem
  rcases hmem with hpending | hqueued
  · exact ⟨.pending, hpending⟩
  · exact ⟨.queued, hqueued⟩

theorem not_mem_queued (hc : p.holdings.Coherent) (hq : q ∈ p.half b .pending a) :
    q ∉ p.half b .queued a := by
  intro hqueued
  have hordered := Holdings.pairwise_ofSender hc a
  rw [← half_append p b a, List.pairwise_append] at hordered
  exact UInt64.lt_irrefl _ (hordered.2.2 q hq q hqueued)

/-! ## All accounts -/

/-- What a sub-pool holds in one of the halves. -/
def inHalf (p : NoncePool) (b : Backend) (side : Half) : List Pooled :=
  p.holdings.senders.flatMap (p.half b side)

theorem mem_inHalf (hc : p.holdings.Coherent) :
    q ∈ p.inHalf b side ↔ q ∈ p.half b side q.tx.sender := by
  rw [inHalf, List.mem_flatMap]
  constructor
  · rintro ⟨a, _, hq⟩
    rwa [(held_of_mem_half hc hq).2]
  · intro hq
    refine ⟨q.tx.sender, (hc.mem_senders_iff _).mpr ?_, hq⟩
    exact ⟨q.hash, q, (held_of_mem_half hc hq).1, rfl⟩

theorem held_of_mem_inHalf (hc : p.holdings.Coherent) (hq : q ∈ p.inHalf b side) :
    p.holdings.get? q.hash = some q :=
  (held_of_mem_half hc ((mem_inHalf hc).mp hq)).1

theorem nodup_inHalf (hc : p.holdings.Coherent) : (p.inHalf b side).Nodup := by
  refine List.pairwise_flatMap.mpr ⟨fun a _ => nodup_half hc, ?_⟩
  -- Two accounts have nothing together.
  refine p.holdings.nodup_senders.imp fun hne q hq q' hq' heq => hne ?_
  rw [← (held_of_mem_half hc hq).2, heq, (held_of_mem_half hc hq').2]

/-- **The halves are what is held**, by digest. -/
theorem perm_keys (hc : p.holdings.Coherent) (b : Backend) :
    ((p.inHalf b .pending ++ p.inHalf b .queued).map Pooled.hash).Perm p.holdings.byHash.keys := by
  have hheld : ∀ q ∈ p.inHalf b .pending ++ p.inHalf b .queued,
      p.holdings.get? q.hash = some q := by
    intro q hq
    rcases List.mem_append.mp hq with hpending | hqueued
    · exact held_of_mem_inHalf hc hpending
    · exact held_of_mem_inHalf hc hqueued
  have hnodup : (p.inHalf b .pending ++ p.inHalf b .queued).Nodup := by
    refine List.nodup_append.mpr ⟨nodup_inHalf hc, nodup_inHalf hc, fun q hq q' hq' heq => ?_⟩
    rw [← heq] at hq'
    exact not_mem_queued hc ((mem_inHalf hc).mp hq) ((mem_inHalf hc).mp hq')
  have hdigests : ((p.inHalf b .pending ++ p.inHalf b .queued).map Pooled.hash).Nodup := by
    refine List.pairwise_map.mpr (hnodup.imp_of_mem fun hq hq' hne hhash => hne ?_)
    have hget := hheld _ hq
    rw [hhash, hheld _ hq'] at hget
    exact (Option.some.inj hget).symm
  refine (List.perm_ext_iff_of_nodup hdigests Std.ExtTreeMap.nodup_keys).mpr fun hash => ?_
  rw [List.mem_map, Std.ExtTreeMap.mem_keys, ← Std.ExtTreeMap.isSome_getElem?_iff_mem,
    Option.isSome_iff_exists]
  constructor
  · rintro ⟨q, hq, rfl⟩
    exact ⟨q, hheld q hq⟩
  · rintro ⟨q, hq⟩
    have hhash := (hc.hash_eq hq).1
    obtain ⟨side, hside⟩ := exists_half hc b (q := q) (by rw [hhash]; exact hq)
    have hside := (mem_inHalf hc).mpr hside
    refine ⟨q, List.mem_append.mpr ?_, hhash⟩
    cases side with
    | pending => exact Or.inl hside
    | queued => exact Or.inr hside

/-! ## Counts -/

theorem pendingHashes_eq (p : NoncePool) (b : Backend) :
    p.pendingHashes b = (p.inHalf b .pending).map Pooled.hash :=
  List.map_flatMap.symm

/-- No digest is counted twice. -/
theorem nodup_pendingHashes (hc : p.holdings.Coherent) (b : Backend) :
    (p.pendingHashes b).Nodup := by
  have hnodup := (perm_keys hc b).nodup_iff.mpr Std.ExtTreeMap.nodup_keys
  rw [List.map_append] at hnodup
  rw [pendingHashes_eq]
  exact (List.nodup_append.mp hnodup).1

theorem length_inHalf_add (hc : p.holdings.Coherent) (b : Backend) :
    (p.inHalf b .pending).length + (p.inHalf b .queued).length = p.holdings.size := by
  have hlength := (perm_keys hc b).length_eq
  rw [List.length_map, List.length_append, Std.ExtTreeMap.length_keys] at hlength
  exact hlength

/-- No more can be executed than is held. -/
theorem length_pendingHashes_le (hc : p.holdings.Coherent) (b : Backend) :
    (p.pendingHashes b).length ≤ p.holdings.size := by
  rw [pendingHashes_eq, List.length_map, ← length_inHalf_add hc b]
  exact Nat.le_add_right _ _

theorem stats_eq (hc : p.holdings.Coherent) (b : Backend) :
    p.stats b = ⟨(p.inHalf b .pending).length, (p.inHalf b .queued).length⟩ := by
  have hlength := length_inHalf_add hc b
  rw [stats, pendingHashes_eq, List.length_map, ← hlength, Nat.add_sub_cancel_left]

/-! ## What visitors are shown -/

/-- What can be executed, newest first. -/
def shown (p : NoncePool) (b : Backend) : List Pooled :=
  p.holdings.newestFirst.filter fun q => (p.pendingHashes b).contains q.hash

theorem pairwise_shown (hc : p.holdings.Coherent) (b : Backend) :
    (p.shown b).Pairwise fun q q' => q'.seq < q.seq :=
  (Holdings.pairwise_newestFirst hc).sublist List.filter_sublist

/-- **Visitors are shown what can be executed**, each once. -/
theorem shown_perm (hc : p.holdings.Coherent) (b : Backend) :
    (p.shown b).Perm (p.inHalf b .pending) := by
  have hnodup : (p.shown b).Nodup := (Holdings.nodup_newestFirst hc).sublist List.filter_sublist
  refine (List.perm_ext_iff_of_nodup hnodup (nodup_inHalf hc)).mpr fun q => ?_
  rw [shown, List.mem_filter, Holdings.mem_newestFirst hc, List.contains_iff_mem, pendingHashes_eq,
    List.mem_map]
  constructor
  · rintro ⟨hq, q', hq', hhash⟩
    have hsame := held_of_mem_inHalf hc hq'
    rw [hhash, hq] at hsame
    rwa [Option.some.inj hsame]
  · exact fun hq => ⟨held_of_mem_inHalf hc hq, q, hq, rfl⟩

/-! ## Where a transaction is -/

theorem status_of_none {hash : Digest} (hnone : p.holdings.get? hash = none) (b : Backend) :
    p.status b hash = .unknown := by
  rw [status, hnone]

/-- **A transaction is reported where it is.** -/
theorem status_of_mem (hc : p.holdings.Coherent) (hq : q ∈ p.inHalf b side) :
    p.status b q.hash = side.status := by
  have hget := held_of_mem_inHalf hc hq
  have hq := (mem_inHalf hc).mp hq
  rw [status, hget]
  dsimp only
  have hany : ((p.split b q.tx.sender).1.any fun r => r.hash == q.hash) = true
      ↔ q ∈ p.half b .pending q.tx.sender := by
    rw [List.any_eq_true]
    constructor
    · rintro ⟨r, hr, hhash⟩
      have hr : r ∈ p.half b .pending q.tx.sender := hr
      have hsame := (held_of_mem_half hc hr).1
      rw [eq_of_beq hhash, hget] at hsame
      obtain rfl := Option.some.inj hsame
      exact hr
    · exact fun hmem => ⟨q, hmem, beq_self_eq_true q.hash⟩
  cases side with
  | pending => exact if_pos (hany.mpr hq)
  | queued => exact if_neg fun hpending => not_mem_queued hc (hany.mp hpending) hq

/-- A sub-pool reports a half exactly if it has the transaction there. -/
theorem status_eq_iff (hc : p.holdings.Coherent) (b : Backend) (hash : Digest)
    (side : Half) :
    p.status b hash = side.status ↔ ∃ q ∈ p.inHalf b side, q.hash = hash := by
  constructor
  · intro hstatus
    cases hget : p.holdings.get? hash with
    | none =>
      rw [status_of_none hget] at hstatus
      exact absurd hstatus.symm side.status_ne_unknown
    | some q =>
      obtain ⟨rfl, _⟩ := hc.hash_eq hget
      obtain ⟨side', hmem⟩ := exists_half hc b hget
      have hmem := (mem_inHalf hc).mpr hmem
      rw [status_of_mem hc hmem] at hstatus
      rw [← Half.eq_of_status hstatus]
      exact ⟨q, hmem, rfl⟩
  · rintro ⟨q, hq, rfl⟩
    exact status_of_mem hc hq

theorem status_eq_unknown_iff (hc : p.holdings.Coherent) (b : Backend)
    (hash : Digest) : p.status b hash = .unknown ↔ p.holdings.get? hash = none := by
  constructor
  · intro hstatus
    cases hget : p.holdings.get? hash with
    | none => rfl
    | some q =>
      obtain ⟨rfl, _⟩ := hc.hash_eq hget
      obtain ⟨side, hmem⟩ := exists_half hc b hget
      rw [status_of_mem hc ((mem_inHalf hc).mpr hmem)] at hstatus
      exact absurd hstatus side.status_ne_unknown
  · exact fun hnone => status_of_none hnone b

/-! ## Content by account -/

theorem half_collect (p : NoncePool) (b : Backend) (accounts : List Address) (side : Half) :
    (p.collect b accounts).half side
      = accounts.foldl (fun m sender => withAccount m sender (p.half b side sender)) ∅ := by
  cases side with
  | pending => exact (List.foldl_hom PoolContent.pending fun _ _ => rfl).symm
  | queued => exact (List.foldl_hom PoolContent.queued fun _ _ => rfl).symm

/-- **What is collected under an account** is what is held of it. -/
theorem getElem?_collect (p : NoncePool) (b : Backend) (accounts : List Address) (side : Half)
    (a : Address) :
    ((p.collect b accounts).half side)[a]?
      = if a ∈ accounts ∧ p.half b side a ≠ [] then some ((p.half b side a).map Pooled.tx)
        else none := by
  rw [half_collect, getElem?_foldl_withAccount, Std.ExtTreeMap.getElem?_empty]

/-- Whoever has something in a half is listed as a sender. -/
theorem holdsFrom_of_half (hc : p.holdings.Coherent) (hne : p.half b side a ≠ []) :
    p.holdings.HoldsFrom a := by
  obtain ⟨q, hq⟩ := List.exists_mem_of_ne_nil _ hne
  obtain ⟨hget, hsender⟩ := held_of_mem_half hc hq
  exact ⟨q.hash, q, hget, hsender⟩

end

end NoncePool

end TxRelay
