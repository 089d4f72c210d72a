/-
The four ways of finding a transaction agree.

Putting in and taking out touch four indices and check nothing. What keeps the
indices in step is a condition on whoever puts in: the digest is new and the
nonce of the sender is free. Under that condition the indices describe one set
of transactions, and every question about a sender can be answered by looking
at the transactions themselves.
-/
import TxRelay.Pool.Holdings
import TxRelay.Proofs.Entries

set_option autoImplicit false

namespace TxRelay

namespace Holdings

/-! ## What the indices say after putting in and taking out -/

/-- Whether a transaction of an account is held. -/
def HoldsFrom (h : Holdings) (a : Address) : Prop := ∃ hash p, h.get? hash = some p ∧ p.tx.sender = a

theorem contains_eq_isSome (h : Holdings) (hash : Digest) :
    h.contains hash = (h.get? hash).isSome :=
  Std.ExtTreeMap.contains_eq_isSome_getElem?

@[simp] theorem get?_clear (h : Holdings) (hash : Digest) : h.clear.get? hash = none := by
  simp [get?, clear, empty]

@[simp] theorem nonces_clear (h : Holdings) (a : Address) : h.clear.nonces a = ∅ := by
  simp [nonces, clear, empty]

@[simp] theorem get?_insert (h : Holdings) (tx : Transaction) (isLocal : Bool) (hash : Digest) :
    (h.insert tx isLocal).get? hash
      = if tx.hash = hash then some (h.arriving tx isLocal) else h.get? hash := by
  simp only [get?, insert, arriving, Entries.getElem?_insert]

@[simp] theorem get?_without (h : Holdings) (p : Pooled) (hash : Digest) :
    (h.without p).get? hash = if p.hash = hash then none else h.get? hash := by
  simp only [get?, without, Entries.getElem?_erase]

theorem nonces_insert (h : Holdings) (tx : Transaction) (isLocal : Bool) (a : Address) :
    (h.insert tx isLocal).nonces a
      = if tx.sender = a then (h.nonces a).insert tx.nonce tx.hash else h.nonces a := by
  simp only [nonces, insert, arriving, Std.ExtTreeMap.getD_insert, Std.LawfulEqCmp.compare_eq_iff_eq]
  split
  · next heq => rw [heq]
  · rfl

/-- Dropping a sender without nonces does not show in what it has. -/
theorem nonces_without (h : Holdings) (p : Pooled) (a : Address) :
    (h.without p).nonces a
      = if p.tx.sender = a then (h.nonces a).erase p.tx.nonce else h.nonces a := by
  show (h.withoutNonce p.tx.sender p.tx.nonce).getD a ∅ = _
  rw [withoutNonce]
  -- Without its last nonce a sender is not listed, and has no nonces either way.
  by_cases hempty : ((h.nonces p.tx.sender).erase p.tx.nonce).isEmpty
  · rw [if_pos hempty, Std.ExtTreeMap.getD_erase]
    simp only [Std.LawfulEqCmp.compare_eq_iff_eq]
    by_cases heq : p.tx.sender = a
    · subst heq
      rw [if_pos rfl, if_pos rfl]
      exact (Std.ExtTreeMap.isEmpty_iff.mp hempty).symm
    · rw [if_neg heq, if_neg heq]
      rfl
  · rw [if_neg hempty, Std.ExtTreeMap.getD_insert]
    simp only [Std.LawfulEqCmp.compare_eq_iff_eq]
    by_cases heq : p.tx.sender = a
    · subst heq
      rw [if_pos rfl, if_pos rfl]
    · rw [if_neg heq, if_neg heq]
      rfl

theorem mem_evictable_insert {h : Holdings} {tx : Transaction} {isLocal : Bool} {key : PriceKey} :
    key ∈ (h.insert tx isLocal).evictable
      ↔ (isLocal = false ∧ PriceKey.of (h.arriving tx isLocal) = key) ∨ key ∈ h.evictable := by
  cases isLocal with
  | true => simp [insert]
  | false =>
    show key ∈ h.evictable.insert _ ↔ _
    rw [Std.ExtTreeSet.mem_insert, Std.LawfulEqCmp.compare_eq_iff_eq]
    simp

theorem mem_evictable_without {h : Holdings} {p : Pooled} {key : PriceKey} :
    key ∈ (h.without p).evictable
      ↔ key ∈ h.evictable ∧ (p.isLocal = false → PriceKey.of p ≠ key) := by
  cases hlocal : p.isLocal with
  | true => simp [without, hlocal]
  | false =>
    have herase : (h.without p).evictable = h.evictable.erase (PriceKey.of p) := by
      simp [without, hlocal]
    rw [herase, Std.ExtTreeSet.mem_erase]
    simp [and_comm]

/-! ## The invariant -/

/-- **The indices describe one set of transactions** (`AccountPool`). -/
structure Coherent (h : Holdings) : Prop where
  /-- A transaction is filed under its own digest. -/
  hash_eq : ∀ {hash p}, h.get? hash = some p → p.hash = hash ∧ p.tx.hash = hash
  /-- The nonce of a transaction leads to it. -/
  nonce_eq : ∀ {hash p}, h.get? hash = some p → (h.nonces p.tx.sender)[p.tx.nonce]? = some hash
  /-- A nonce leads to a transaction with that sender and nonce. -/
  ofNonce : ∀ {a n hash}, (h.nonces a)[n]? = some hash →
    ∃ p, h.get? hash = some p ∧ p.tx.sender = a ∧ p.tx.nonce = n
  /-- A time of arrival leads to the transaction that arrived then. -/
  arrival : ∀ {seq hash}, h.byArrival[seq]? = some hash ↔ ∃ p, h.get? hash = some p ∧ p.seq = seq
  /-- What may be evicted are the transactions from outside. -/
  evictable : ∀ {key}, key ∈ h.evictable ↔
    ∃ p, h.get? p.hash = some p ∧ p.isLocal = false ∧ PriceKey.of p = key
  /-- Everything arrived before what arrives next. -/
  seq_lt : ∀ {hash p}, h.get? hash = some p → p.seq < h.nextSeq
  /-- A sender that is listed has a nonce. -/
  busy : ∀ {a}, a ∈ h.bySender → h.nonces a ≠ ∅

namespace Coherent

variable {h : Holdings}

/-- Taking out everything keeps the next time of arrival, and nothing else. -/
theorem clear (h : Holdings) : h.clear.Coherent where
  hash_eq h := by simp at h
  nonce_eq h := by simp at h
  ofNonce h := by simp at h
  arrival := by simp [Holdings.clear, Holdings.empty, get?]
  evictable := by simp [Holdings.clear, Holdings.empty, get?]
  seq_lt h := by simp at h
  busy h := by simp [Holdings.clear, Holdings.empty] at h

/-- Nothing is held, and nothing contradicts it. -/
theorem empty : Holdings.empty.Coherent := clear Holdings.empty

/-- The times of arrival are an index. -/
theorem indexed (hc : h.Coherent) : Entries.Indexed h.byArrival h.byHash Pooled.seq :=
  fun _ _ => hc.arrival

/-- What is held stays held under its digest when something new comes in. -/
theorem get?_insert_of_some {tx : Transaction} {isLocal : Bool} {hash : Digest} {p : Pooled}
    (hnew : h.get? tx.hash = none) (hp : h.get? hash = some p) :
    (h.insert tx isLocal).get? hash = some p := by
  have hne : tx.hash ≠ hash := by
    intro heq
    rw [heq, hp] at hnew
    exact Option.some_ne_none _ hnew
  rw [get?_insert, if_neg hne, hp]

/-- What is held after something was taken out was held before, under another
digest. -/
theorem get?_of_without {p q : Pooled} {hash : Digest} (hq : (h.without p).get? hash = some q) :
    p.hash ≠ hash ∧ h.get? hash = some q := by
  rw [get?_without] at hq
  split at hq
  · cases hq
  · next hne => exact ⟨hne, hq⟩

/-- **Putting in** keeps the indices in step if the digest is new and the nonce
of the sender is free. -/
theorem insert (hc : h.Coherent) {tx : Transaction} (isLocal : Bool) (hnew : h.get? tx.hash = none)
    (hfree : (h.nonces tx.sender)[tx.nonce]? = none) : (h.insert tx isLocal).Coherent where
  hash_eq {hash p} hp := by
    rw [get?_insert] at hp
    split at hp
    · next heq =>
      rw [← Option.some.inj hp]
      exact ⟨heq, heq⟩
    · exact hc.hash_eq hp
  nonce_eq {hash p} hp := by
    rw [get?_insert] at hp
    rw [nonces_insert]
    split at hp
    · next heq =>
      rw [← Option.some.inj hp, ← heq]
      show (if tx.sender = tx.sender then _ else _)[tx.nonce]? = _
      rw [if_pos rfl]
      exact Std.ExtTreeMap.getElem?_insert_self
    · -- What was there keeps its nonce, since that of the newcomer was free.
      have hold := hc.nonce_eq hp
      split
      · next hsender =>
        have hne : tx.nonce ≠ p.tx.nonce := by
          intro hnonce
          rw [hnonce, hsender, hold] at hfree
          exact Option.some_ne_none _ hfree
        rwa [Entries.getElem?_insert, if_neg hne]
      · exact hold
  ofNonce {a n hash} hn := by
    rw [nonces_insert] at hn
    -- A nonce leads to the newcomer, or where it led before.
    by_cases hsame : tx.sender = a ∧ tx.nonce = n
    · obtain ⟨rfl, rfl⟩ := hsame
      rw [if_pos rfl, Std.ExtTreeMap.getElem?_insert_self] at hn
      refine ⟨h.arriving tx isLocal, ?_, rfl, rfl⟩
      rw [get?_insert, if_pos (Option.some.inj hn)]
    · have hold : (h.nonces a)[n]? = some hash := by
        split at hn
        · next hsender =>
          have hne : tx.nonce ≠ n := fun hnonce => hsame ⟨hsender, hnonce⟩
          rwa [Entries.getElem?_insert, if_neg hne] at hn
        · exact hn
      obtain ⟨p, hp, hps, hpn⟩ := hc.ofNonce hold
      exact ⟨p, get?_insert_of_some hnew hp, hps, hpn⟩
  arrival {seq hash} := by
    -- Nobody has arrived at the next time of arrival yet.
    have hfresh : ∀ (hash' : Digest) (p : Pooled), h.byHash[hash']? = some p → p.seq ≠ h.nextSeq :=
      fun hash' p hp => Nat.ne_of_lt (hc.seq_lt hp)
    exact hc.indexed.insert (e := h.arriving tx isLocal) hnew hfresh seq hash
  evictable {key} := by
    rw [mem_evictable_insert]
    constructor
    · rintro (⟨hlocal, hkey⟩ | hold)
      · refine ⟨h.arriving tx isLocal, ?_, hlocal, hkey⟩
        rw [get?_insert]
        exact if_pos rfl
      · obtain ⟨p, hp, hlocal, hkey⟩ := hc.evictable.mp hold
        exact ⟨p, get?_insert_of_some hnew hp, hlocal, hkey⟩
    · rintro ⟨p, hp, hlocal, hkey⟩
      rw [get?_insert] at hp
      split at hp
      · rw [← Option.some.inj hp] at hlocal hkey
        exact Or.inl ⟨hlocal, hkey⟩
      · exact Or.inr (hc.evictable.mpr ⟨p, hp, hlocal, hkey⟩)
  seq_lt {hash p} hp := by
    rw [get?_insert] at hp
    show p.seq < h.nextSeq + 1
    split at hp
    · rw [← Option.some.inj hp]
      exact Nat.lt_succ_self _
    · exact Nat.lt_succ_of_lt (hc.seq_lt hp)
  busy {a} ha := by
    have hmem : tx.sender = a ∨ a ∈ h.bySender := by
      have := Std.ExtTreeMap.mem_insert.mp ha
      rwa [Std.LawfulEqCmp.compare_eq_iff_eq] at this
    rw [nonces_insert]
    split
    · exact Std.ExtTreeMap.insert_ne_empty
    · next hne => exact hc.busy (hmem.resolve_left hne)

/-- **Taking out** keeps the indices in step. -/
theorem without (hc : h.Coherent) {p : Pooled} (hp : h.get? p.hash = some p) :
    (h.without p).Coherent where
  hash_eq {hash q} hq := by
    rw [get?_without] at hq
    split at hq
    · cases hq
    · exact hc.hash_eq hq
  nonce_eq {hash q} hq := by
    obtain ⟨hne, hq⟩ := get?_of_without hq
    have hold := hc.nonce_eq hq
    rw [nonces_without]
    split
    · next hsender =>
      rw [Entries.getElem?_erase, if_neg ?_]
      · exact hold
      · intro hnonce
        have hpq := hc.nonce_eq hp
        rw [hsender, hnonce, hold] at hpq
        exact hne (Option.some.inj hpq).symm
    · exact hold
  ofNonce {a n hash} hn := by
    have hold : (h.nonces a)[n]? = some hash ∧ ¬(p.tx.sender = a ∧ p.tx.nonce = n) := by
      rw [nonces_without] at hn
      split at hn
      · rw [Entries.getElem?_erase] at hn
        split at hn
        · cases hn
        · next hnonce => exact ⟨hn, fun hboth => hnonce hboth.2⟩
      · next hsender => exact ⟨hn, fun hboth => hsender hboth.1⟩
    obtain ⟨q, hq, hqs, hqn⟩ := hc.ofNonce hold.1
    refine ⟨q, ?_, hqs, hqn⟩
    rw [get?_without, if_neg ?_, hq]
    intro heq
    rw [← heq, hp] at hq
    rw [Option.some.inj hq] at hold
    exact hold.2 ⟨hqs, hqn⟩
  arrival {seq hash} := hc.indexed.erase hp seq hash
  evictable {key} := by
    rw [mem_evictable_without]
    constructor
    · rintro ⟨hkey, hother⟩
      obtain ⟨q, hq, hlocal, rfl⟩ := hc.evictable.mp hkey
      refine ⟨q, ?_, hlocal, rfl⟩
      rw [get?_without, if_neg ?_, hq]
      intro heq
      rw [← heq, hp] at hq
      rw [Option.some.inj hq] at hother
      exact hother hlocal rfl
    · rintro ⟨q, hq, hlocal, rfl⟩
      obtain ⟨hne, hq⟩ := get?_of_without hq
      exact ⟨hc.evictable.mpr ⟨q, hq, hlocal, rfl⟩, fun _ hkey => hne (congrArg PriceKey.hash hkey)⟩
  seq_lt {hash q} hq := hc.seq_lt (get?_of_without hq).2
  busy {a} ha := by
    -- The sender of what goes is dropped from the list together with its last nonce.
    have ha : a ∈ h.withoutNonce p.tx.sender p.tx.nonce := ha
    rw [withoutNonce] at ha
    rw [nonces_without]
    by_cases hempty : ((h.nonces p.tx.sender).erase p.tx.nonce).isEmpty
    · rw [if_pos hempty, Std.ExtTreeMap.mem_erase, Ne, Std.LawfulEqCmp.compare_eq_iff_eq] at ha
      rw [if_neg ha.1]
      exact hc.busy ha.2
    · rw [if_neg hempty, Std.ExtTreeMap.mem_insert, Std.LawfulEqCmp.compare_eq_iff_eq] at ha
      split
      · next hsender =>
        rw [← hsender]
        exact fun hnil => hempty (Std.ExtTreeMap.isEmpty_iff.mpr hnil)
      · next hsender => exact hc.busy (ha.resolve_left hsender)

/-! ## Senders -/

/-- No two transactions arrived at the same time. -/
theorem eq_of_seq (hc : h.Coherent) {p q : Pooled} (hp : h.get? p.hash = some p)
    (hq : h.get? q.hash = some q) (hseq : p.seq = q.seq) : p = q := by
  have h₁ := hc.arrival.mpr ⟨p, hp, rfl⟩
  have h₂ := hc.arrival.mpr ⟨q, hq, hseq.symm⟩
  rw [h₁] at h₂
  rw [Option.some.inj h₂, hq] at hp
  exact (Option.some.inj hp).symm

/-- No transaction is held twice. -/
theorem eq_of_tx (hc : h.Coherent) {p q : Pooled} (hp : h.get? p.hash = some p)
    (hq : h.get? q.hash = some q) (htx : p.tx = q.tx) : p = q := by
  have hhash : p.hash = q.hash := by
    rw [← (hc.hash_eq hp).2, htx, (hc.hash_eq hq).2]
  rw [hhash, hq] at hp
  exact (Option.some.inj hp).symm

/-- A sender has nonces exactly if something of it is held. -/
theorem nonces_eq_empty_iff (hc : h.Coherent) (a : Address) : h.nonces a = ∅ ↔ ¬h.HoldsFrom a := by
  constructor
  · rintro hnil ⟨hash, p, hp, rfl⟩
    have hn := hc.nonce_eq hp
    rw [hnil] at hn
    simp at hn
  · intro hnone
    apply Std.ExtTreeMap.ext_getElem?
    intro n
    cases hn : (h.nonces a)[n]? with
    | none => simp
    | some hash =>
      obtain ⟨p, hp, hps, _⟩ := hc.ofNonce hn
      exact absurd ⟨hash, p, hp, hps⟩ hnone

/-- The number of nonces tells whether something of a sender is held. -/
theorem senderCount_eq_zero_iff (hc : h.Coherent) (a : Address) :
    h.senderCount a = 0 ↔ ¬h.HoldsFrom a := by
  rw [← hc.nonces_eq_empty_iff a, senderCount, ← Std.ExtTreeMap.isEmpty_iff,
    Std.ExtTreeMap.isEmpty_eq_size_beq_zero, beq_iff_eq]

/-- The senders that are listed are those of whom something is held. -/
theorem mem_senders_iff (hc : h.Coherent) (a : Address) : a ∈ h.senders ↔ h.HoldsFrom a := by
  rw [senders, Std.ExtTreeMap.mem_keys]
  constructor
  · intro ha
    exact Classical.not_not.mp fun hnone => hc.busy ha ((hc.nonces_eq_empty_iff a).mpr hnone)
  · intro hsome
    apply Classical.not_not.mp
    intro ha
    apply (hc.nonces_eq_empty_iff a).mp _ hsome
    rw [nonces, Std.ExtTreeMap.getD_eq_fallback ha]

/-- The transaction at a nonce has that sender and that nonce. -/
theorem of_atNonce? (hc : h.Coherent) {a : Address} {n : UInt64} {p : Pooled}
    (hp : h.atNonce? a n = some p) : h.get? p.hash = some p ∧ p.tx.sender = a ∧ p.tx.nonce = n := by
  obtain ⟨hash, hn, hget⟩ := Option.bind_eq_some_iff.mp hp
  obtain ⟨q, hq, hqs, hqn⟩ := hc.ofNonce hn
  rw [hget] at hq
  rw [← Option.some.inj hq] at hqs hqn
  rw [(hc.hash_eq hget).1]
  exact ⟨hget, hqs, hqn⟩

/-- A nonce is free if no transaction is found there. -/
theorem nonce_free (hc : h.Coherent) {a : Address} {n : UInt64} (hnone : h.atNonce? a n = none) :
    (h.nonces a)[n]? = none := by
  cases hn : (h.nonces a)[n]? with
  | none => rfl
  | some hash =>
    obtain ⟨p, hp, _⟩ := hc.ofNonce hn
    rw [atNonce?, hn, Option.bind_some, hp] at hnone
    cases hnone

end Coherent

/-! ## The transactions of a sender -/

section
variable {h : Holdings}

/-- The transactions of a sender are those that are held of it. -/
theorem mem_ofSender (hc : h.Coherent) {a : Address} {p : Pooled} :
    p ∈ h.ofSender a ↔ h.get? p.hash = some p ∧ p.tx.sender = a := by
  rw [ofSender, List.mem_filterMap]
  constructor
  · rintro ⟨hash, hmem, hp⟩
    obtain ⟨n, hn⟩ := Entries.mem_values.mp hmem
    obtain ⟨q, hq, hqs, _⟩ := hc.ofNonce hn
    rw [hp] at hq
    rw [Option.some.inj hq, (hc.hash_eq (hq ▸ hp)).1]
    exact ⟨hq ▸ hp, hqs⟩
  · rintro ⟨hp, rfl⟩
    exact ⟨p.hash, Entries.mem_values.mpr ⟨p.tx.nonce, hc.nonce_eq hp⟩, hp⟩

/-- The transactions of a sender come in the order of their nonces. -/
theorem pairwise_ofSender (hc : h.Coherent) (a : Address) :
    (h.ofSender a).Pairwise fun p q => p.tx.nonce < q.tx.nonce := by
  rw [ofSender, Entries.values_eq_map_toList, List.filterMap_map, List.pairwise_filterMap]
  -- The nonces of a sender are the keys of a map, which lists them in order.
  refine Std.ExtTreeMap.ordered_keys_toList.imp_of_mem ?_
  rintro ⟨n, hash⟩ ⟨n', hash'⟩ hmem hmem' hlt p hp q hq
  have hn := Std.ExtTreeMap.mem_toList_iff_getElem?_eq_some.mp hmem
  have hn' := Std.ExtTreeMap.mem_toList_iff_getElem?_eq_some.mp hmem'
  obtain ⟨p₀, hp₀, _, hpn⟩ := hc.ofNonce hn
  obtain ⟨q₀, hq₀, _, hqn⟩ := hc.ofNonce hn'
  have hp : h.get? hash = some p := hp
  have hq : h.get? hash' = some q := hq
  rw [Option.some.inj (hp.symm.trans hp₀), Option.some.inj (hq.symm.trans hq₀), hpn, hqn]
  exact compareOfLessAndEq_eq_lt.mp hlt

end

/-! ## Whose transactions are held -/

/-- Each sender is listed once. -/
theorem nodup_senders (h : Holdings) : h.senders.Nodup :=
  Std.ExtTreeMap.nodup_keys

/-- Taking out what is held. -/
theorem remove_of_some {h : Holdings} {hash : Digest} {p : Pooled} (hp : h.get? hash = some p) :
    h.remove hash = (h.without p, some p) := by
  rw [remove, hp]

theorem Coherent.remove {h : Holdings} (hc : h.Coherent) (hash : Digest) :
    (h.remove hash).1.Coherent := by
  cases hp : h.get? hash with
  | none =>
    rw [Holdings.remove, hp]
    exact hc
  | some p =>
    rw [remove_of_some hp]
    exact hc.without (by rw [(hc.hash_eq hp).1, hp])

theorem Coherent.get?_remove {h : Holdings} (hc : h.Coherent) (hash hash' : Digest) :
    (h.remove hash).1.get? hash' = if hash = hash' then none else h.get? hash' := by
  cases hp : h.get? hash with
  | none =>
    rw [Holdings.remove, hp]
    by_cases heq : hash = hash'
    · rw [if_pos heq, ← heq]
      exact hp
    · rw [if_neg heq]
  | some p => rw [remove_of_some hp, get?_without, (hc.hash_eq hp).1]

/-- Taking out several transactions. -/
theorem Coherent.get?_foldl_remove {h : Holdings} (hc : h.Coherent) (hashes : List Digest)
    (hash' : Digest) :
    (hashes.foldl (fun h hash => (h.remove hash).1) h).get? hash'
      = if hash' ∈ hashes then none else h.get? hash' := by
  induction hashes generalizing h with
  | nil => rfl
  | cons hash rest ih =>
    rw [List.foldl_cons, ih (hc.remove hash), hc.get?_remove]
    exact Entries.ite_mem_cons

theorem Coherent.foldl_remove {h : Holdings} (hc : h.Coherent) (hashes : List Digest) :
    (hashes.foldl (fun h hash => (h.remove hash).1) h).Coherent := by
  induction hashes generalizing h with
  | nil => exact hc
  | cons hash rest ih => exact ih (hc.remove hash)

/-- A newcomer adds its sender. -/
theorem holdsFrom_insert {h : Holdings} {tx : Transaction} {isLocal : Bool} {a : Address}
    (hnew : h.get? tx.hash = none) :
    (h.insert tx isLocal).HoldsFrom a ↔ h.HoldsFrom a ∨ tx.sender = a := by
  constructor
  · rintro ⟨hash, p, hp, hps⟩
    rw [get?_insert] at hp
    split at hp
    · rw [← Option.some.inj hp] at hps
      exact Or.inr hps
    · exact Or.inl ⟨hash, p, hp, hps⟩
  · rintro (⟨hash, p, hp, hps⟩ | hsender)
    · exact ⟨hash, p, Coherent.get?_insert_of_some hnew hp, hps⟩
    · refine ⟨tx.hash, h.arriving tx isLocal, ?_, hsender⟩
      rw [get?_insert, if_pos rfl]

/-- Whoever has a transaction after another one is taken out had one before. -/
theorem HoldsFrom.of_without {h : Holdings} {p : Pooled} {a : Address}
    (ha : (h.without p).HoldsFrom a) : h.HoldsFrom a := by
  obtain ⟨hash, q, hq, hqs⟩ := ha
  exact ⟨hash, q, (Coherent.get?_of_without hq).2, hqs⟩

/-- Only the sender of what is taken out may be left without transactions. -/
theorem HoldsFrom.without {h : Holdings} {p : Pooled} {a : Address} (ha : h.HoldsFrom a)
    (hp : h.get? p.hash = some p) (hne : p.tx.sender ≠ a) : (h.without p).HoldsFrom a := by
  obtain ⟨hash, q, hq, hqs⟩ := ha
  refine ⟨hash, q, ?_, hqs⟩
  rw [get?_without, if_neg ?_, hq]
  intro heq
  rw [← heq, hp] at hq
  rw [Option.some.inj hq] at hne
  exact hne hqs

/-! ## What is true of everything held -/

/-- Something is true of every transaction that is held. -/
def All (Q : Transaction → Prop) (h : Holdings) : Prop := ∀ hash p, h.get? hash = some p → Q p.tx

theorem All.mono {Q Q' : Transaction → Prop} {h : Holdings} (ha : h.All Q)
    (himp : ∀ tx, Q tx → Q' tx) : h.All Q' := fun hash p hp => himp p.tx (ha hash p hp)

theorem All.insert {Q : Transaction → Prop} {h : Holdings} (ha : h.All Q) {tx : Transaction}
    (htx : Q tx) (isLocal : Bool) : (h.insert tx isLocal).All Q := by
  intro hash p hp
  rw [get?_insert] at hp
  split at hp
  · rw [← Option.some.inj hp]
    exact htx
  · exact ha hash p hp

/-! ## Holdings within others -/

/-- Everything in some holdings is in others as well. -/
def Within (h h' : Holdings) : Prop := ∀ hash p, h.get? hash = some p → h'.get? hash = some p

namespace Within

variable {h h' : Holdings}

theorem refl (h : Holdings) : h.Within h := fun _ _ hp => hp

theorem without (h : Holdings) (p : Pooled) : (h.without p).Within h :=
  fun _ _ hq => (Coherent.get?_of_without hq).2

theorem remove (h : Holdings) (hash : Digest) : (h.remove hash).1.Within h := by
  rw [Holdings.remove]
  split
  · exact refl h
  · exact without h _

theorem all {Q : Transaction → Prop} (hw : h.Within h') (ha : h'.All Q) : h.All Q :=
  fun hash p hp => ha hash p (hw hash p hp)

/-- What is new to the larger holdings is new to the smaller. -/
theorem get?_eq_none (hw : h.Within h') {hash : Digest} (hnone : h'.get? hash = none) :
    h.get? hash = none := by
  cases hp : h.get? hash with
  | none => rfl
  | some p => rw [hw hash p hp] at hnone; cases hnone

/-- A nonce that is free in the larger holdings is free in the smaller. -/
theorem nonce_free (hw : h.Within h') (hc : h.Coherent) (hc' : h'.Coherent) {a : Address}
    {n : UInt64} (hnone : (h'.nonces a)[n]? = none) : (h.nonces a)[n]? = none := by
  cases hn : (h.nonces a)[n]? with
  | none => rfl
  | some hash =>
    obtain ⟨p, hp, rfl, rfl⟩ := hc.ofNonce hn
    rw [hc'.nonce_eq (hw hash p hp)] at hnone
    cases hnone

end Within

/-- **Taking the place** of the transaction at a nonce: once it is gone, its nonce is free. -/
theorem Coherent.replace {h : Holdings} (hc : h.Coherent) {tx : Transaction} {old : Pooled}
    (isLocal : Bool) (hnew : h.get? tx.hash = none)
    (hold : h.atNonce? tx.sender tx.nonce = some old) :
    ((h.remove old.hash).1.insert tx isLocal).Coherent := by
  obtain ⟨hget, hsender, hnonce⟩ := hc.of_atNonce? hold
  have hnew' := (Within.remove h old.hash).get?_eq_none hnew
  refine (hc.remove old.hash).insert isLocal hnew' ?_
  rw [remove_of_some hget, nonces_without, if_pos hsender, ← hnonce]
  exact Std.ExtTreeMap.getElem?_erase_self

end Holdings

end TxRelay
