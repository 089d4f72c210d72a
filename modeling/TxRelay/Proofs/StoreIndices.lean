/-
One set of transfers, found in three ways.

A transfer changes sides each time it is handed to block assembly or comes back, and the
list of those that may be evicted has to follow every change. A place that is forgotten
there belongs to a transfer that is never evicted, or to none at all, and then the pool
stops looking for room too early. So the list is counted here as well as compared: it is as
long as the transfers are that were not handed over.

All of it holds at every moment of a pool, and lets the transfers be gone through one by
one from the newest on, without missing any.
-/
import TxRelay.Proofs.Arrivals
import TxRelay.Proofs.Handover

set_option autoImplicit false

namespace TxRelay

namespace TransferStore

/-- **The indices describe one set of transfers** (`MempoolStore`). -/
structure OneSet (s : TransferStore) : Prop where
  /-- A transfer is filed under its own id. -/
  id_eq : ∀ (id : Digest) (e : PooledTransfer), s.entries[id]? = some e → e.id = id ∧ e.tx.id = id
  /-- A time of arrival leads to the transfer that arrived then; -/
  byArrival_iff : ∀ (seq : Nat) (id : Digest), s.byArrival[seq]? = some id ↔
    ∃ e, s.entries[id]? = some e ∧ e.seq = seq
  /-- no two arrived at the same time, -/
  seq_unique : ∀ (id id' : Digest) (e e' : PooledTransfer), s.entries[id]? = some e →
    s.entries[id']? = some e' → e.seq = e'.seq → id = id'
  /-- and all of them before what arrives next. -/
  seq_lt : ∀ (id : Digest) (e : PooledTransfer), s.entries[id]? = some e → e.seq < s.nextSeq
  /-- Those that were not handed over may be evicted, each at its place, and no others; -/
  evictable_iff : ∀ key, key ∈ s.evictable ↔
    ∃ (id : Digest) (e : PooledTransfer), s.entries[id]? = some e ∧ e.issued = false ∧
      key = ⟨e.isLocal, e.seq, id⟩
  /-- so there are as many of them. -/
  pendingSize_eq : s.pendingSize = (s.entries.values.filter fun e => !e.issued).length
  /-- Going through all of them meets each transfer once, -/
  newestFirst_perm : s.newestFirst.Perm s.entries.values
  /-- and later ones first. -/
  newestFirst_decreasing : s.newestFirst.Pairwise fun e e' => e'.seq < e.seq

namespace Coherent

variable {s : TransferStore}

theorem nodup_values (hc : s.Coherent) : s.entries.values.Nodup := by
  apply List.nodup_iff_pairwise_ne.mpr
  exact hc.pairwise_values.imp fun hne heq => hne (congrArg PooledTransfer.id heq)

theorem nodup_newestFirst (hc : s.Coherent) : s.newestFirst.Nodup := by
  apply List.nodup_iff_pairwise_ne.mpr
  apply hc.pairwise_newestFirst.imp
  rintro e _ hlt rfl
  exact Nat.lt_irrefl e.seq hlt

theorem perm_newestFirst (hc : s.Coherent) : s.newestFirst.Perm s.entries.values := by
  apply (List.perm_ext_iff_of_nodup hc.nodup_newestFirst hc.nodup_values).mpr
  intro e
  rw [hc.mem_newestFirst, Entries.mem_values]
  rfl

theorem oneSet (hc : s.Coherent) : s.OneSet where
  id_eq _ _ he := hc.id_eq he
  byArrival_iff _ _ := hc.arrival
  seq_unique id id' e e' he he' hseq := by
    have h₁ := hc.arrival.mpr ⟨e, he, hseq⟩
    rw [hc.arrival.mpr ⟨e', he', rfl⟩] at h₁
    exact (Option.some.inj h₁).symm
  seq_lt _ _ he := hc.seq_lt he
  evictable_iff key := by
    rw [hc.evictable]
    constructor
    · rintro ⟨e, he, hissued, rfl⟩
      exact ⟨e.id, e, he, hissued, rfl⟩
    · rintro ⟨id, e, he, hissued, rfl⟩
      obtain ⟨rfl, _⟩ := hc.id_eq he
      exact ⟨e, he, hissued, rfl⟩
  pendingSize_eq := by rw [← hc.length_byFee, byFee, List.length_mergeSort]
  newestFirst_perm := hc.perm_newestFirst
  newestFirst_decreasing := hc.pairwise_newestFirst

end Coherent

end TransferStore

namespace Mempool

/-- **The indices of a pool describe one set of transfers**, whatever was asked of it since
it was made. -/
theorem oneSet_of_actions {p : Mempool} {settings : MempoolSettings} {salts : Nat → Salt}
    (hnew : new settings salts = .ok p) (actions : List Action) : (p.run actions).store.OneSet :=
  (coherent_run (coherent_new hnew) actions).oneSet

/-- Two transfers that let each other be, of which one is handed to block assembly. -/
theorem oneSet_of_twoOffers :
    ∃ p, new .small (fun _ => default) = .ok p ∧
      (p.run twoOffers).newestFirst = [strangers.2, strangers.1] ∧
        (p.run (twoOffers ++ [.propose 1])).store.OneSet := by
  obtain ⟨p, hnew⟩ := exists_new_small
  exact ⟨p, hnew, newestFirst_twoOffers hnew, oneSet_of_actions hnew (twoOffers ++ [.propose 1])⟩

end Mempool

end TxRelay
