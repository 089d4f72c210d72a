/-
The ways of finding a transfer agree.

Putting in and taking out touch every index and check nothing. What keeps the
indices in step is a condition on whoever puts in: the id is new and nobody
spends any of the inputs. Then an input leads to the one transfer that lists
it, however often it is listed, so no two transfers of a store spend the same
input.
-/
import TxRelay.Mempool.Store
import TxRelay.Proofs.Bloom
import TxRelay.Proofs.Entries

set_option autoImplicit false

namespace TxRelay

namespace TransferStore

/-! ## Spenders -/

/-- Who spends an input once one transfer spends all the given ones. -/
theorem getElem?_foldl_insert (id : Digest) (m : Std.ExtTreeMap Digest Digest)
    (inputs : List Digest) (x : Digest) :
    (inputs.foldl (fun m input => m.insert input id) m)[x]?
      = if x ∈ inputs then some id else m[x]? := by
  induction inputs generalizing m with
  | nil => rfl
  | cons input rest ih =>
    rw [List.foldl_cons, ih, Entries.getElem?_insert]
    exact Entries.ite_mem_cons

/-- Who spends an input once one transfer spends none of the given ones. -/
theorem getElem?_unspend (id : Digest) (m : Std.ExtTreeMap Digest Digest) (inputs : List Digest)
    (x : Digest) :
    (unspend id m inputs)[x]? = if x ∈ inputs ∧ m[x]? = some id then none else m[x]? := by
  induction inputs generalizing m with
  | nil => simp [unspend]
  | cons input rest ih =>
    -- One step clears the input, if the transfer is its spender.
    have hstep : (if m[input]? = some id then m.erase input else m)[x]?
        = if input = x ∧ m[x]? = some id then none else m[x]? := by
      by_cases hspends : m[input]? = some id
      · rw [if_pos hspends, Entries.getElem?_erase]
        by_cases hinput : input = x
        · rw [if_pos hinput, if_pos ⟨hinput, hinput ▸ hspends⟩]
        · rw [if_neg hinput, if_neg (fun h => hinput h.1)]
      · rw [if_neg hspends, if_neg ?_]
        rintro ⟨rfl, hx⟩
        exact hspends hx
    have hfold : unspend id m (input :: rest)
        = unspend id (if m[input]? = some id then m.erase input else m) rest := rfl
    rw [hfold, ih, hstep]
    by_cases hspends : m[x]? = some id
    · by_cases hinput : input = x
      · simp [hinput, hspends]
      · simp [hinput, Ne.symm hinput, hspends]
    · simp [hspends]

theorem mem_rivals {s : TransferStore} {tx : Transfer} {id : Digest} :
    id ∈ s.rivals tx ↔ ∃ input ∈ tx.inputs, s.spenders[input]? = some id := by
  rw [rivals, Std.ExtTreeSet.mem_toList, Std.ExtTreeSet.mem_ofList, List.contains_iff_mem,
    List.mem_filterMap]

/-! ## What the indices say after putting in and taking out -/

theorem contains_eq_isSome (s : TransferStore) (id : Digest) :
    s.contains id = (s.get? id).isSome :=
  Std.ExtTreeMap.contains_eq_isSome_getElem?

theorem get?_insert (s : TransferStore) (tx : Transfer) (isLocal : Bool) (id : Digest) :
    (s.insert tx isLocal).get? id
      = if tx.id = id then some (s.arriving tx isLocal) else s.get? id := by
  simp only [get?, insert, arriving, Entries.getElem?_insert]

theorem get?_without (s : TransferStore) (e : PooledTransfer) (id : Digest) :
    (s.without e).get? id = if e.id = id then none else s.get? id := by
  simp only [get?, without, Entries.getElem?_erase]

theorem mem_evictable_insert {s : TransferStore} {tx : Transfer} {isLocal : Bool}
    {key : EvictionKey} :
    key ∈ (s.insert tx isLocal).evictable
      ↔ EvictionKey.of (s.arriving tx isLocal) = key ∨ key ∈ s.evictable := by
  show key ∈ s.evictable.insert _ ↔ _
  rw [Std.ExtTreeSet.mem_insert, Std.LawfulEqCmp.compare_eq_iff_eq]

theorem mem_evictable_without {s : TransferStore} {e : PooledTransfer} {key : EvictionKey} :
    key ∈ (s.without e).evictable
      ↔ key ∈ s.evictable ∧ (e.issued = false → EvictionKey.of e ≠ key) := by
  cases hissued : e.issued with
  | true => simp [without, hissued]
  | false =>
    have herase : (s.without e).evictable = s.evictable.erase (EvictionKey.of e) := by
      simp [without, hissued]
    rw [herase, Std.ExtTreeSet.mem_erase, Ne, Std.LawfulEqCmp.compare_eq_iff_eq]
    simp [and_comm]

/-! ## The invariant -/

/-- **The indices describe one set of transfers** (`MempoolStore`). -/
structure Coherent (s : TransferStore) : Prop where
  /-- A transfer is filed under its own id. -/
  id_eq : ∀ {id e}, s.get? id = some e → e.id = id ∧ e.tx.id = id
  /-- A time of arrival leads to the transfer that arrived then. -/
  arrival : ∀ {seq id}, s.byArrival[seq]? = some id ↔ ∃ e, s.get? id = some e ∧ e.seq = seq
  /-- What may be evicted are the transfers that were not handed over. -/
  evictable : ∀ {key}, key ∈ s.evictable ↔
    ∃ e, s.get? e.id = some e ∧ e.issued = false ∧ EvictionKey.of e = key
  /-- Everything arrived before what arrives next. -/
  seq_lt : ∀ {id e}, s.get? id = some e → e.seq < s.nextSeq
  /-- An input leads to the transfer that lists it. -/
  spender : ∀ {input id}, s.spenders[input]? = some id ↔ ∃ e, s.get? id = some e ∧ input ∈ e.tx.inputs
  /-- The filter is in one piece. -/
  fits : s.filter.Fits
  /-- The filter reports every transfer. -/
  reported : ∀ {id e}, s.get? id = some e → s.filter.has id.toList = true

/-- Every entry of a store was in another one. -/
def Within (s before : TransferStore) : Prop := ∀ id e, s.get? id = some e → before.get? id = some e

theorem Within.refl (s : TransferStore) : s.Within s := fun _ _ he => he

theorem Within.trans {s₁ s₂ s₃ : TransferStore} (h₁ : s₃.Within s₂) (h₂ : s₂.Within s₁) :
    s₃.Within s₁ := fun id e he => h₂ id e (h₁ id e he)

/-- Something is true of every transfer. -/
def All (Q : Transfer → Prop) (s : TransferStore) : Prop := ∀ id e, s.get? id = some e → Q e.tx

theorem Within.all {Q : Transfer → Prop} {s before : TransferStore} (hw : s.Within before)
    (ha : before.All Q) : s.All Q := fun id e he => ha id e (hw id e he)

/-- What is there after something was taken out was there before, under another
id. -/
theorem get?_of_without {s : TransferStore} {e e' : PooledTransfer} {id : Digest}
    (he : (s.without e).get? id = some e') : e.id ≠ id ∧ s.get? id = some e' := by
  rw [get?_without] at he
  split at he
  · cases he
  · next hne => exact ⟨hne, he⟩

theorem Within.without (s : TransferStore) (e : PooledTransfer) : (s.without e).Within s :=
  fun _ _ he => (get?_of_without he).2

namespace Coherent

variable {s : TransferStore}

theorem new {filter : Bloom.RollingFilter} (h : filter.Fits) (verdicts : Nat) :
    (TransferStore.new filter verdicts).Coherent where
  id_eq h := by cases h
  arrival := by
    intro seq id
    constructor
    · intro h
      cases h
    · rintro ⟨e, he, _⟩
      cases he
  evictable := by
    intro key
    constructor
    · intro h
      cases h
    · rintro ⟨e, he, _⟩
      cases he
  seq_lt h := by cases h
  spender := by
    intro input id
    constructor
    · intro h
      cases h
    · rintro ⟨e, he, _⟩
      cases he
  fits := h
  reported h := by cases h

/-- The times of arrival are an index. -/
theorem indexed (hc : s.Coherent) : Entries.Indexed s.byArrival s.entries PooledTransfer.seq :=
  fun _ _ => hc.arrival

/-- What is there stays under its id when something new comes in. -/
theorem get?_insert_of_some {tx : Transfer} {isLocal : Bool} {id : Digest} {e : PooledTransfer}
    (hnew : s.get? tx.id = none) (he : s.get? id = some e) :
    (s.insert tx isLocal).get? id = some e := by
  have hne : tx.id ≠ id := by
    intro heq
    rw [heq, he] at hnew
    exact Option.some_ne_none _ hnew
  rw [get?_insert, if_neg hne, he]

/-- **Putting in** keeps the indices in step if the id is new and nobody spends
any of the inputs. -/
theorem insert (hc : s.Coherent) {tx : Transfer} (isLocal : Bool) (hnew : s.get? tx.id = none)
    (hfree : ∀ input ∈ tx.inputs, s.spenders[input]? = none) : (s.insert tx isLocal).Coherent where
  id_eq {id e} he := by
    rw [get?_insert] at he
    split at he
    · next heq =>
      rw [← Option.some.inj he]
      exact ⟨heq, heq⟩
    · exact hc.id_eq he
  arrival {seq id} := by
    -- Nobody has arrived at the next time of arrival yet.
    have hfresh : ∀ (id' : Digest) (e : PooledTransfer), s.entries[id']? = some e →
        e.seq ≠ s.nextSeq := fun id' e he => Nat.ne_of_lt (hc.seq_lt he)
    exact hc.indexed.insert (e := s.arriving tx isLocal) hnew hfresh seq id
  evictable {key} := by
    rw [mem_evictable_insert]
    constructor
    · rintro (hkey | hold)
      · refine ⟨s.arriving tx isLocal, ?_, rfl, hkey⟩
        rw [get?_insert]
        exact if_pos rfl
      · obtain ⟨e, he, hissued, hkey⟩ := hc.evictable.mp hold
        exact ⟨e, get?_insert_of_some hnew he, hissued, hkey⟩
    · rintro ⟨e, he, hissued, hkey⟩
      rw [get?_insert] at he
      split at he
      · rw [← Option.some.inj he] at hkey
        exact Or.inl hkey
      · exact Or.inr (hc.evictable.mpr ⟨e, he, hissued, hkey⟩)
  seq_lt {id e} he := by
    rw [get?_insert] at he
    show e.seq < s.nextSeq + 1
    split at he
    · rw [← Option.some.inj he]
      exact Nat.lt_succ_self _
    · exact Nat.lt_succ_of_lt (hc.seq_lt he)
  spender {input id} := by
    show (tx.inputs.foldl (fun m input => m.insert input tx.id) s.spenders)[input]? = some id ↔ _
    rw [getElem?_foldl_insert]
    constructor
    · intro hs
      split at hs
      · next hmem =>
        refine ⟨s.arriving tx isLocal, ?_, hmem⟩
        rw [get?_insert, if_pos (Option.some.inj hs)]
      · obtain ⟨e, he, hmem⟩ := hc.spender.mp hs
        exact ⟨e, get?_insert_of_some hnew he, hmem⟩
    · rintro ⟨e, he, hmem⟩
      rw [get?_insert] at he
      split at he
      · next heq =>
        rw [← Option.some.inj he] at hmem
        have hmem : input ∈ tx.inputs := hmem
        rw [if_pos hmem, heq]
      · -- An input of the newcomer has no other spender.
        have hspends := hc.spender.mpr ⟨e, he, hmem⟩
        rw [if_neg ?_, hspends]
        intro hinput
        rw [hfree input hinput] at hspends
        exact Option.some_ne_none _ hspends.symm
  fits := hc.fits.add _
  reported {id e} he := by
    rw [get?_insert] at he
    show (s.filter.add tx.id.toList).has id.toList = true
    split at he
    · next heq =>
      rw [heq]
      exact Bloom.RollingFilter.has_add_self hc.fits _
    · exact Bloom.RollingFilter.has_add_of_has (hc.reported he)

/-- **Taking out** keeps the indices in step. -/
theorem without (hc : s.Coherent) {e : PooledTransfer} (he : s.get? e.id = some e) :
    (s.without e).Coherent where
  id_eq {id e'} he' := hc.id_eq (get?_of_without he').2
  arrival {seq id} := hc.indexed.erase he seq id
  evictable {key} := by
    rw [mem_evictable_without]
    constructor
    · rintro ⟨hkey, hother⟩
      obtain ⟨e', he', hissued, rfl⟩ := hc.evictable.mp hkey
      refine ⟨e', ?_, hissued, rfl⟩
      rw [get?_without, if_neg ?_, he']
      intro heq
      rw [← heq, he] at he'
      rw [Option.some.inj he'] at hother
      exact hother hissued rfl
    · rintro ⟨e', he', hissued, rfl⟩
      obtain ⟨hne, he'⟩ := get?_of_without he'
      exact ⟨hc.evictable.mpr ⟨e', he', hissued, rfl⟩,
        fun _ hkey => hne (congrArg EvictionKey.id hkey)⟩
  seq_lt {id e'} he' := hc.seq_lt (get?_of_without he').2
  spender {input id} := by
    show (unspend e.id s.spenders e.tx.inputs)[input]? = some id ↔ _
    -- An input is cleared exactly if it led to the transfer that goes.
    rw [getElem?_unspend]
    constructor
    · intro hs
      split at hs
      · cases hs
      · next hnot =>
        obtain ⟨e', he', hmem⟩ := hc.spender.mp hs
        refine ⟨e', ?_, hmem⟩
        rw [get?_without, if_neg ?_, he']
        rintro rfl
        rw [he] at he'
        rw [← Option.some.inj he'] at hmem
        exact hnot ⟨hmem, hs⟩
    · rintro ⟨e', he', hmem⟩
      obtain ⟨hne, he'⟩ := get?_of_without he'
      have hold := hc.spender.mpr ⟨e', he', hmem⟩
      rw [if_neg ?_, hold]
      rintro ⟨_, hown⟩
      rw [hold] at hown
      exact hne (Option.some.inj hown).symm
  fits := hc.fits
  reported {id e'} he' := hc.reported (get?_of_without he').2

/-- **No two transfers spend the same input.** -/
theorem eq_of_input (hc : s.Coherent) {id id' input : Digest} {e e' : PooledTransfer}
    (he : s.get? id = some e) (he' : s.get? id' = some e') (hmem : input ∈ e.tx.inputs)
    (hmem' : input ∈ e'.tx.inputs) : id = id' := by
  have hown := hc.spender.mpr ⟨e, he, hmem⟩
  rw [hc.spender.mpr ⟨e', he', hmem'⟩] at hown
  exact (Option.some.inj hown).symm

end Coherent

/-! ## Taking out by id -/

section
variable {s : TransferStore}

theorem Coherent.remove_of_some (hc : s.Coherent) {id : Digest} {e : PooledTransfer}
    (he : s.get? id = some e) : s.remove id = (s.without e, some e) ∧ s.get? e.id = some e := by
  refine ⟨?_, ?_⟩
  · rw [remove, he]
  · rw [(hc.id_eq he).1, he]

theorem Coherent.remove (hc : s.Coherent) (id : Digest) : (s.remove id).1.Coherent := by
  cases he : s.get? id with
  | none =>
    rw [TransferStore.remove, he]
    exact hc
  | some e =>
    obtain ⟨hremove, hown⟩ := hc.remove_of_some he
    rw [hremove]
    exact hc.without hown

theorem Coherent.get?_remove (hc : s.Coherent) (id id' : Digest) :
    (s.remove id).1.get? id' = if id = id' then none else s.get? id' := by
  cases he : s.get? id with
  | none =>
    rw [TransferStore.remove, he]
    by_cases heq : id = id'
    · rw [if_pos heq, ← heq]
      exact he
    · rw [if_neg heq]
  | some e =>
    rw [(hc.remove_of_some he).1, get?_without, (hc.id_eq he).1]

theorem Within.remove (s : TransferStore) (id : Digest) : (s.remove id).1.Within s := by
  rw [TransferStore.remove]
  split
  · exact Within.refl s
  · next e _ => exact Within.without s e

theorem removeAll_cons (s : TransferStore) (id : Digest) (rest : List Digest) :
    (s.removeAll (id :: rest)).1 = ((s.remove id).1.removeAll rest).1 := by
  rw [removeAll]
  split
  · next s' heq => rw [heq]
  · next s' e heq => rw [heq]

theorem Coherent.removeAll (hc : s.Coherent) (ids : List Digest) : (s.removeAll ids).1.Coherent := by
  induction ids generalizing s with
  | nil => exact hc
  | cons id rest ih =>
    rw [removeAll_cons]
    exact ih (hc.remove id)

theorem Coherent.get?_removeAll (hc : s.Coherent) (ids : List Digest) (id' : Digest) :
    (s.removeAll ids).1.get? id' = if id' ∈ ids then none else s.get? id' := by
  induction ids generalizing s with
  | nil => rfl
  | cons id rest ih =>
    rw [removeAll_cons, ih (hc.remove id), hc.get?_remove]
    exact Entries.ite_mem_cons

theorem Within.removeAll (s : TransferStore) (ids : List Digest) : (s.removeAll ids).1.Within s := by
  induction ids generalizing s with
  | nil => exact Within.refl s
  | cons id rest ih =>
    rw [removeAll_cons]
    exact (ih (s.remove id).1).trans (Within.remove s id)

/-- Once its rivals are gone, nobody spends an input of a transfer. -/
theorem Coherent.spenders_removeAll_rivals (hc : s.Coherent) (tx : Transfer) :
    ∀ input ∈ tx.inputs, (s.removeAll (s.rivals tx)).1.spenders[input]? = none := by
  intro input hinput
  cases hspends : (s.removeAll (s.rivals tx)).1.spenders[input]? with
  | none => rfl
  | some id =>
    -- Whoever spends the input now would have been a rival, and rivals are gone.
    obtain ⟨e, he, hmem⟩ := (hc.removeAll (s.rivals tx)).spender.mp hspends
    rw [hc.get?_removeAll] at he
    split at he
    · cases he
    · next hnot => exact absurd (mem_rivals.mpr ⟨input, hinput, hc.spender.mpr ⟨e, he, hmem⟩⟩) hnot

theorem Coherent.evict (hc : s.Coherent) : s.evict.1.Coherent := by
  rw [TransferStore.evict]
  split
  · exact hc
  · next key _ => exact hc.remove key.id

theorem Within.evict (s : TransferStore) : s.evict.1.Within s := by
  rw [TransferStore.evict]
  split
  · exact Within.refl s
  · next key _ => exact Within.remove s key.id

end

/-! ## To block assembly and back -/

/-- The store with a transfer marked, and with other transfers that may be
evicted. -/
def marked (s : TransferStore) (id : Digest) (e : PooledTransfer) (issued : Bool)
    (evictable : Std.ExtTreeSet EvictionKey) : TransferStore :=
  { s with entries := s.entries.insert id { e with issued }, evictable }

section
variable {s : TransferStore} {id : Digest} {e : PooledTransfer} {issued : Bool}
  {evictable : Std.ExtTreeSet EvictionKey}

theorem get?_marked (id' : Digest) :
    (s.marked id e issued evictable).get? id'
      = if id = id' then some { e with issued } else s.get? id' :=
  Entries.getElem?_insert s.entries id id' _

/-- Everything but the mark was there before. -/
theorem of_get?_marked (he : s.get? id = some e) {id' : Digest} {e' : PooledTransfer}
    (he' : (s.marked id e issued evictable).get? id' = some e') :
    ∃ e₀, s.get? id' = some e₀ ∧ e₀.tx = e'.tx ∧ e₀.id = e'.id ∧ e₀.seq = e'.seq := by
  rw [get?_marked] at he'
  split at he'
  · next heq =>
    rw [← Option.some.inj he']
    exact ⟨e, by rw [← heq, he], rfl, rfl, rfl⟩
  · exact ⟨e', he', rfl, rfl, rfl⟩

/-- Everything that was there before still is. -/
theorem exists_get?_marked (he : s.get? id = some e) {id' : Digest} {e₀ : PooledTransfer}
    (he₀ : s.get? id' = some e₀) :
    ∃ e', (s.marked id e issued evictable).get? id' = some e' ∧ e'.tx = e₀.tx := by
  by_cases heq : id = id'
  · rw [← heq, he] at he₀
    rw [← Option.some.inj he₀]
    exact ⟨{ e with issued }, by rw [get?_marked, if_pos heq], rfl⟩
  · exact ⟨e₀, by rw [get?_marked, if_neg heq, he₀], rfl⟩

/-- What may be evicted stays in step if it changes with the mark. -/
theorem Coherent.mem_evictable_marked (hc : s.Coherent) (he : s.get? id = some e)
    (hev : ∀ key, key ∈ evictable ↔
      (key ∈ s.evictable ∧ EvictionKey.of e ≠ key) ∨ (issued = false ∧ EvictionKey.of e = key))
    (key : EvictionKey) :
    key ∈ evictable ↔ ∃ e', (s.marked id e issued evictable).get? e'.id = some e' ∧
      e'.issued = false ∧ EvictionKey.of e' = key := by
  have hid := (hc.id_eq he).1
  rw [hev]
  constructor
  · rintro (⟨hkey, hne⟩ | ⟨hissued, hkey⟩)
    · obtain ⟨e₀, he₀, hissued₀, hkey₀⟩ := hc.evictable.mp hkey
      refine ⟨e₀, ?_, hissued₀, hkey₀⟩
      rw [get?_marked, if_neg ?_, he₀]
      intro heq
      rw [← heq, he] at he₀
      rw [← Option.some.inj he₀] at hkey₀
      exact hne hkey₀
    · refine ⟨{ e with issued }, ?_, hissued, hkey⟩
      rw [get?_marked]
      exact if_pos hid.symm
  · rintro ⟨e', he', hissued, hkey⟩
    rw [get?_marked] at he'
    split at he'
    · rw [← Option.some.inj he'] at hissued hkey
      exact Or.inr ⟨hissued, hkey⟩
    · next hne =>
      refine Or.inl ⟨hc.evictable.mpr ⟨e', he', hissued, hkey⟩, fun heq => hne ?_⟩
      have hids : e.id = e'.id := congrArg EvictionKey.id (heq.trans hkey.symm)
      rw [← hid, hids]

/-- **Handing over and taking back** change a mark and the transfers that may be
evicted. The indices stay in step if the two agree. -/
theorem Coherent.mark (hc : s.Coherent) (he : s.get? id = some e)
    (hev : ∀ key, key ∈ evictable ↔
      (key ∈ s.evictable ∧ EvictionKey.of e ≠ key) ∨ (issued = false ∧ EvictionKey.of e = key)) :
    (s.marked id e issued evictable).Coherent where
  id_eq {id' e'} he' := by
    obtain ⟨e₀, he₀, htx, heid, _⟩ := of_get?_marked he he'
    rw [← htx, ← heid]
    exact hc.id_eq he₀
  arrival {seq id'} := by
    have hseq : ({ e with issued } : PooledTransfer).seq = e.seq := rfl
    exact hc.indexed.update he hseq seq id'
  evictable {key} := hc.mem_evictable_marked he hev key
  seq_lt {id' e'} he' := by
    obtain ⟨e₀, he₀, _, _, hseq₀⟩ := of_get?_marked he he'
    rw [← hseq₀]
    exact hc.seq_lt he₀
  spender {input id'} := by
    show s.spenders[input]? = some id' ↔ _
    rw [hc.spender]
    constructor
    · rintro ⟨e₀, he₀, hmem⟩
      obtain ⟨e', he', htx⟩ := exists_get?_marked he he₀
      exact ⟨e', he', by rw [htx]; exact hmem⟩
    · rintro ⟨e', he', hmem⟩
      obtain ⟨e₀, he₀, htx, _⟩ := of_get?_marked he he'
      exact ⟨e₀, he₀, by rw [htx]; exact hmem⟩
  fits := hc.fits
  reported {id' e'} he' := by
    obtain ⟨e₀, he₀, _⟩ := of_get?_marked he he'
    exact hc.reported he₀

theorem All.mark {Q : Transfer → Prop} (ha : s.All Q) (he : s.get? id = some e) :
    (s.marked id e issued evictable).All Q := by
  intro id' e' he'
  obtain ⟨e₀, he₀, htx, _⟩ := of_get?_marked he he'
  rw [← htx]
  exact ha id' e₀ he₀

end

section
variable {s : TransferStore}

theorem Coherent.issue (hc : s.Coherent) (id : Digest) : (s.issue id).1.Coherent := by
  rw [TransferStore.issue]
  split
  · exact hc
  · next e he =>
    split
    · exact hc
    · show (s.marked id e true _).Coherent
      refine hc.mark he fun key => ?_
      rw [Std.ExtTreeSet.mem_erase, Ne, Std.LawfulEqCmp.compare_eq_iff_eq]
      simp [and_comm]

theorem All.issue {Q : Transfer → Prop} (ha : s.All Q) (id : Digest) : (s.issue id).1.All Q := by
  rw [TransferStore.issue]
  split
  · exact ha
  · next e he =>
    split
    · exact ha
    · exact ha.mark he

theorem Coherent.reopen (hc : s.Coherent) (id : Digest) : (s.reopen id).1.Coherent := by
  rw [TransferStore.reopen]
  split
  · exact hc
  · next e he =>
    split
    · show (s.marked id e false _).Coherent
      refine hc.mark he fun key => ?_
      rw [Std.ExtTreeSet.mem_insert, Std.LawfulEqCmp.compare_eq_iff_eq]
      constructor
      · rintro (hkey | hkey)
        · exact Or.inr ⟨rfl, hkey⟩
        · by_cases heq : EvictionKey.of e = key
          · exact Or.inr ⟨rfl, heq⟩
          · exact Or.inl ⟨hkey, heq⟩
      · rintro (⟨hkey, _⟩ | ⟨_, hkey⟩)
        · exact Or.inr hkey
        · exact Or.inl hkey
    · exact hc

theorem All.reopen {Q : Transfer → Prop} (ha : s.All Q) (id : Digest) : (s.reopen id).1.All Q := by
  rw [TransferStore.reopen]
  split
  · exact ha
  · next e he =>
    split
    · exact ha.mark he
    · exact ha

theorem Coherent.issueAll (hc : s.Coherent) (picked : List PooledTransfer) :
    (picked.foldl (fun s e => (s.issue e.id).1) s).Coherent := by
  induction picked generalizing s with
  | nil => exact hc
  | cons e rest ih => exact ih (hc.issue e.id)

theorem All.issueAll {Q : Transfer → Prop} (ha : s.All Q) (picked : List PooledTransfer) :
    (picked.foldl (fun s e => (s.issue e.id).1) s).All Q := by
  induction picked generalizing s with
  | nil => exact ha
  | cons e rest ih => exact ih (ha.issue e.id)

theorem Coherent.reopenAll (hc : s.Coherent) (ids : List Digest) : (s.reopenAll ids).1.Coherent := by
  induction ids generalizing s with
  | nil => exact hc
  | cons id rest ih => exact ih (hc.reopen id)

theorem All.reopenAll {Q : Transfer → Prop} (ha : s.All Q) (ids : List Digest) :
    (s.reopenAll ids).1.All Q := by
  induction ids generalizing s with
  | nil => exact ha
  | cons id rest ih => exact ih (ha.reopen id)

/-! ## The order of blocks -/

theorem Coherent.mem_byFee (hc : s.Coherent) {e : PooledTransfer} :
    e ∈ s.byFee ↔ s.get? e.id = some e ∧ e.issued = false := by
  rw [byFee, List.mem_mergeSort, List.mem_filter, Entries.mem_values]
  constructor
  · rintro ⟨⟨id, he⟩, hissued⟩
    have he : s.get? id = some e := he
    rw [(hc.id_eq he).1]
    exact ⟨he, by simpa using hissued⟩
  · rintro ⟨he, hissued⟩
    exact ⟨⟨e.id, he⟩, by simp [hissued]⟩

/-- No two transfers have the same id. -/
theorem Coherent.pairwise_values (hc : s.Coherent) :
    s.entries.values.Pairwise fun e e' => e.id ≠ e'.id := by
  rw [Entries.values_eq_map_toList, List.pairwise_map]
  refine Std.ExtTreeMap.distinct_keys_toList.imp_of_mem ?_
  rintro ⟨id, e⟩ ⟨id', e'⟩ hmem hmem' hne heq
  have he : s.get? id = some e := Std.ExtTreeMap.mem_toList_iff_getElem?_eq_some.mp hmem
  have he' : s.get? id' = some e' := Std.ExtTreeMap.mem_toList_iff_getElem?_eq_some.mp hmem'
  refine hne (Std.LawfulEqCmp.compare_eq_iff_eq.mpr ?_)
  show id = id'
  rw [← (hc.id_eq he).1, heq, (hc.id_eq he').1]

/-- Every transfer goes into a block once. -/
theorem Coherent.pairwise_byFee (hc : s.Coherent) : s.byFee.Pairwise fun e e' => e.id ≠ e'.id :=
  (hc.pairwise_values.filter _).perm (List.mergeSort_perm _ _).symm fun hne => Ne.symm hne

theorem length_byFee_le (s : TransferStore) : s.byFee.length ≤ s.size := by
  rw [byFee, List.length_mergeSort]
  refine Nat.le_trans (List.length_filter_le _ _) (Nat.le_of_eq ?_)
  rw [Entries.values_eq_map_toList, List.length_map, Std.ExtTreeMap.length_toList]
  rfl

/-! ## The order of arrival -/

/-- Every transfer is listed. -/
theorem Coherent.mem_newestFirst (hc : s.Coherent) {e : PooledTransfer} :
    e ∈ s.newestFirst ↔ ∃ id, s.get? id = some e := by
  rw [newestFirst, List.mem_reverse, oldestFirst, List.mem_filterMap]
  constructor
  · rintro ⟨id, _, he⟩
    exact ⟨id, he⟩
  · rintro ⟨id, he⟩
    exact ⟨id, Entries.mem_values.mpr ⟨e.seq, hc.arrival.mpr ⟨e, he, rfl⟩⟩, he⟩

/-- The only transfer is all there is. -/
theorem Coherent.newestFirst_of_entries_eq (hc : s.Coherent) {e : PooledTransfer}
    (h : s.entries = (∅ : Std.ExtTreeMap Digest PooledTransfer).insert e.id e) :
    s.newestFirst = [e] := by
  have hget : ∀ id, s.get? id = if e.id = id then some e else none := by
    intro id
    rw [get?, h, Entries.getElem?_insert]
    rfl
  have harrival : s.byArrival = (∅ : Std.ExtTreeMap Nat Digest).insert e.seq e.id := by
    refine Std.ExtTreeMap.ext_getElem? fun {seq} => Option.ext fun id => ?_
    rw [hc.arrival, Entries.getElem?_insert, hget]
    split
    · next hid =>
      rw [hid]
      split
      · next hseq => exact ⟨fun _ => rfl, fun _ => ⟨e, rfl, hseq⟩⟩
      · next hseq => exact ⟨fun ⟨_, he, hs⟩ => absurd (Option.some.inj he ▸ hs) hseq, nofun⟩
    · next hid =>
      refine ⟨nofun, fun hsome => ?_⟩
      split at hsome
      · exact absurd (Option.some.inj hsome) hid
      · cases hsome
  rw [newestFirst, oldestFirst, harrival]
  show ([e.id].filterMap s.get?).reverse = [e]
  rw [List.filterMap_cons, hget, if_pos rfl]
  rfl

/-! ## The filter and the verdicts -/

/-- The filter is built anew over all that is there. -/
theorem Coherent.refresh (hc : s.Coherent) : s.refresh.Coherent := by
  -- The filter may be built anew from the ids, or it reports them already.
  have hkeys : ∀ id ∈ s.entries.keys, s.filter.has id.toList = true := by
    intro id hid
    have hsome : ∃ e, s.get? id = some e :=
      Option.isSome_iff_exists.mp
        (Std.ExtTreeMap.isSome_getElem?_iff_mem.mpr (Std.ExtTreeMap.mem_keys.mp hid))
    exact hc.reported hsome.choose_spec
  obtain ⟨hfits, hhas⟩ := hc.fits.refresh (s.size * s.filter.settings.churn) hkeys
  refine ⟨hc.id_eq, hc.arrival, hc.evictable, hc.seq_lt, hc.spender, hfits, fun {id e} he => ?_⟩
  refine hhas id (Std.ExtTreeMap.mem_keys.mpr (Std.ExtTreeMap.isSome_getElem?_iff_mem.mp ?_))
  have he : s.entries[id]? = some e := he
  rw [he]
  rfl

theorem Coherent.remember (hc : s.Coherent) (id : Digest) (reason : String) :
    (s.remember id reason).Coherent :=
  ⟨hc.id_eq, hc.arrival, hc.evictable, hc.seq_lt, hc.spender, hc.fits, hc.reported⟩

theorem Coherent.verdict (hc : s.Coherent) (id : Digest) : (s.verdict id).1.Coherent :=
  ⟨hc.id_eq, hc.arrival, hc.evictable, hc.seq_lt, hc.spender, hc.fits, hc.reported⟩

end

end TransferStore

end TxRelay
