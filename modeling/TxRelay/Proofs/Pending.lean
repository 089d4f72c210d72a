/-
What a pool offers for a block.

The executable transactions of an account are an unbroken run of nonces from
its next nonce on, so each of them is at the account's nonce when those before
it have been carried out. A coordinator merges the accounts of its sub-pools
into one map; whatever it lists under an account is the run that one of the
sub-pools has for it.
-/
import TxRelay.Pool.Coordinator
import TxRelay.Pool.NoncePool
import TxRelay.Proofs.Holdings

set_option autoImplicit false

namespace TxRelay

/-- The nonces of transactions go up by one, from a given one on. -/
def Consecutive : UInt64 → List Transaction → Prop
  | _, [] => True
  | n, tx :: rest => tx.nonce = n ∧ Consecutive (n + 1) rest

namespace Holdings

/-! ## One account -/

/-- The unbroken run is unbroken. -/
theorem consecutive_run (n : UInt64) (ps : List Pooled) :
    Consecutive n ((run n ps).1.map Pooled.tx) := by
  induction ps generalizing n with
  | nil => exact trivial
  | cons p rest ih =>
    rw [run]
    split
    · next hn => exact ⟨hn, ih (n + 1)⟩
    · exact trivial

/-- A run and the rest are what was divided. -/
theorem run_append (n : UInt64) (ps : List Pooled) : (run n ps).1 ++ (run n ps).2 = ps := by
  induction ps generalizing n with
  | nil => rfl
  | cons p rest ih =>
    rw [run]
    split
    · exact congrArg (p :: ·) (ih (n + 1))
    · rfl

variable {h : Holdings}

theorem sublist_split (h : Holdings) (a : Address) (n : UInt64) :
    ((h.split a n).1).Sublist (h.ofSender a) := by
  have happ := run_append n (h.ofSender a)
  rw [← happ]
  exact List.sublist_append_left _ _

end Holdings

namespace NoncePool

variable {p : NoncePool} {b : Backend}

/-- **A run of a sub-pool**: transactions that it holds of one account, one nonce after the
other from the account's next nonce on (`AccountPool::split`). -/
structure IsRun (p : NoncePool) (b : Backend) (a : Address) (txs : List Transaction) : Prop where
  held : ∀ tx ∈ txs, tx.sender = a ∧ ∃ q, p.holdings.get? q.hash = some q ∧ q.tx = tx
  consecutive : Consecutive (b.nonce a) txs
  ascending : txs.Pairwise fun tx tx' => tx.nonce < tx'.nonce

theorem isRun_split (hc : p.holdings.Coherent) (b : Backend) (a : Address) :
    p.IsRun b a ((p.split b a).1.map Pooled.tx) := by
  have hsub := p.holdings.sublist_split a (b.nonce a)
  refine ⟨fun tx htx => ?_, Holdings.consecutive_run _ _, ?_⟩
  · obtain ⟨q, hq, rfl⟩ := List.mem_map.mp htx
    obtain ⟨hget, hsender⟩ := (Holdings.mem_ofSender hc).mp (hsub.subset hq)
    exact ⟨hsender, q, hget, rfl⟩
  · exact List.pairwise_map.mpr ((Holdings.pairwise_ofSender hc a).sublist hsub)

/-- A map with what was found out about given accounts. -/
theorem getElem?_foldl_withAccount (f : Address → List Pooled) (accounts : List Address)
    (m : AccountTxs) (a : Address) :
    (accounts.foldl (fun m sender => withAccount m sender (f sender)) m)[a]?
      = if a ∈ accounts ∧ f a ≠ [] then some ((f a).map Pooled.tx) else m[a]? := by
  induction accounts generalizing m with
  | nil => simp
  | cons sender rest ih =>
    rw [List.foldl_cons, ih]
    -- An account that comes up again is written down again, with the same transactions.
    have hstep : (withAccount m sender (f sender))[a]?
        = if sender = a ∧ f a ≠ [] then some ((f a).map Pooled.tx) else m[a]? := by
      rw [withAccount]
      by_cases hempty : f sender = []
      · rw [hempty, List.isEmpty_nil, if_pos rfl, if_neg]
        rintro ⟨rfl, hne⟩
        exact hne hempty
      · rw [if_neg (by rwa [List.isEmpty_iff]), Entries.getElem?_insert]
        by_cases hsender : sender = a
        · subst hsender
          rw [if_pos rfl, if_pos ⟨rfl, hempty⟩]
        · rw [if_neg hsender, if_neg fun hboth => hsender hboth.1]
    rw [hstep]
    by_cases hrest : a ∈ rest ∧ f a ≠ []
    · rw [if_pos hrest, if_pos ⟨List.mem_cons_of_mem _ hrest.1, hrest.2⟩]
    · rw [if_neg hrest]
      by_cases hfirst : sender = a ∧ f a ≠ []
      · rw [if_pos hfirst, if_pos ⟨hfirst.1 ▸ List.mem_cons_self, hfirst.2⟩]
      · rw [if_neg hfirst, if_neg]
        rintro ⟨hmem, hne⟩
        rcases List.mem_cons.mp hmem with rfl | hin
        · exact hfirst ⟨rfl, hne⟩
        · exact hrest ⟨hin, hne⟩

/-- What is collected under an account is its run. -/
theorem pending_collect (accounts : List Address) {a : Address} {txs : List Transaction}
    (htxs : (p.collect b accounts).pending[a]? = some txs) :
    txs = (p.split b a).1.map Pooled.tx := by
  have hcollect : (p.collect b accounts).pending
      = accounts.foldl (fun m sender => withAccount m sender (p.split b sender).1) ∅ :=
    (List.foldl_hom PoolContent.pending fun _ _ => rfl).symm
  rw [hcollect, getElem?_foldl_withAccount (fun sender => (p.split b sender).1),
    Std.ExtTreeMap.getElem?_empty] at htxs
  split at htxs
  · exact (Option.some.inj htxs).symm
  · cases htxs

end NoncePool

namespace AccountTxs

/-- What a merged map says of an account: what the second map says, or else the
first. -/
theorem getElem?_extend_eq (m m' : AccountTxs) (a : Address) :
    (extend m m')[a]? = m'[a]?.or m[a]? := by
  rw [extend]
  cases hm' : m'[a]? with
  | some txs' =>
    -- The second map is written over the first.
    have hmem := Std.ExtTreeMap.mem_toList_iff_getElem?_eq_some.mpr hm'
    exact Std.ExtTreeMap.getElem?_insertMany_list_of_mem (Std.ReflCmp.compare_self)
      Std.ExtTreeMap.distinct_keys_toList hmem
  | none =>
    have hnot : (m'.toList.map Prod.fst).contains a = false := by
      rw [Std.ExtTreeMap.map_fst_toList_eq_keys, Bool.eq_false_iff, Ne, List.contains_iff_mem,
        Std.ExtTreeMap.mem_keys, ← Std.ExtTreeMap.isSome_getElem?_iff_mem, hm']
      exact Bool.false_ne_true
    exact Std.ExtTreeMap.getElem?_insertMany_list_of_contains_eq_false hnot

theorem getElem?_extend {m m' : AccountTxs} {a : Address} {txs : List Transaction}
    (htxs : (extend m m')[a]? = some txs) : m[a]? = some txs ∨ m'[a]? = some txs := by
  rw [getElem?_extend_eq, Option.or_eq_some_iff] at htxs
  rcases htxs with hsecond | ⟨_, hfirst⟩
  · exact Or.inr hsecond
  · exact Or.inl hfirst

/-- Lists of other accounts have nothing of an account. -/
theorem filter_flatten_eq_nil {a : Address} (lists : List (Address × List Transaction))
    (hsender : ∀ kv ∈ lists, ∀ tx ∈ kv.2, tx.sender = kv.1) (hother : ∀ kv ∈ lists, kv.1 ≠ a) :
    ((lists.map Prod.snd).flatten.filter fun tx => tx.sender = a) = [] := by
  refine List.filter_eq_nil_iff.mpr fun tx htx => ?_
  obtain ⟨txs, htxs, hmem⟩ := List.mem_flatten.mp htx
  obtain ⟨kv, hkv, rfl⟩ := List.mem_map.mp htxs
  have hne : tx.sender ≠ a := by
    rw [hsender kv hkv tx hmem]
    exact hother kv hkv
  simpa using hne

/-- Of lists of different accounts, what is of one account is its list. -/
theorem filter_flatten {a : Address} {txs : List Transaction}
    (lists : List (Address × List Transaction))
    (hsender : ∀ kv ∈ lists, ∀ tx ∈ kv.2, tx.sender = kv.1)
    (hkeys : lists.Pairwise fun kv kv' => kv.1 ≠ kv'.1) (hmem : (a, txs) ∈ lists) :
    ((lists.map Prod.snd).flatten.filter fun tx => tx.sender = a) = txs := by
  induction lists with
  | nil => cases hmem
  | cons kv rest ih =>
    obtain ⟨hfirst, hrest⟩ := List.pairwise_cons.mp hkeys
    have hsender' : ∀ kv ∈ rest, ∀ tx ∈ kv.2, tx.sender = kv.1 :=
      fun kv hkv => hsender kv (List.mem_cons_of_mem _ hkv)
    rw [List.map_cons, List.flatten_cons, List.filter_append]
    -- Either this list is the account's and the rest has nothing of it, or the other way round.
    rcases List.mem_cons.mp hmem with rfl | hin
    · have hall : (txs.filter fun tx => tx.sender = a) = txs := by
        refine List.filter_eq_self.mpr fun tx htx => ?_
        exact decide_eq_true (hsender (a, txs) List.mem_cons_self tx htx)
      rw [hall, filter_flatten_eq_nil rest hsender' (fun kv hkv => Ne.symm (hfirst kv hkv)),
        List.append_nil]
    · have hnone : (kv.2.filter fun tx => tx.sender = a) = [] := by
        refine List.filter_eq_nil_iff.mpr fun tx htx => ?_
        have hne : tx.sender ≠ a := by
          rw [hsender kv List.mem_cons_self tx htx]
          exact hfirst (a, txs) hin
        simpa using hne
      rw [hnone, List.nil_append]
      exact ih hsender' hrest hin

/-- **However the entries of a map by sender are ordered**, those of a sender are its list. -/
theorem filter_flatten_of_perm {m : AccountTxs}
    (hm : ∀ (a : Address) (txs : List Transaction), m[a]? = some txs → ∀ tx ∈ txs, tx.sender = a)
    {entries : List (Address × List Transaction)} (hperm : entries.Perm m.toList) (a : Address) :
    ((entries.map Prod.snd).flatten.filter fun tx => tx.sender = a) = m[a]?.getD [] := by
  have hlisted : ∀ kv, kv ∈ entries ↔ m[kv.1]? = some kv.2 := fun kv =>
    hperm.mem_iff.trans Std.ExtTreeMap.mem_toList_iff_getElem?_eq_some
  have hsender : ∀ kv ∈ entries, ∀ tx ∈ kv.2, tx.sender = kv.1 :=
    fun kv hkv => hm kv.1 kv.2 ((hlisted kv).mp hkv)
  cases ha : m[a]? with
  | none =>
    apply filter_flatten_eq_nil entries hsender
    rintro kv hkv rfl
    rw [(hlisted kv).mp hkv] at ha
    cases ha
  | some txs =>
    have hkeys : m.toList.Pairwise fun kv kv' => kv.1 ≠ kv'.1 := by
      refine Std.ExtTreeMap.distinct_keys_toList.imp fun hne heq => hne ?_
      rw [heq]
      exact Std.ReflCmp.compare_self
    exact filter_flatten entries hsender (hperm.symm.pairwise hkeys Ne.symm) ((hlisted (a, txs)).mpr ha)

/-- **A map by sender, written out**, has the list of an account in one piece. -/
theorem filter_flatten_values {m : AccountTxs}
    (hm : ∀ (a : Address) (txs : List Transaction), m[a]? = some txs → ∀ tx ∈ txs, tx.sender = a)
    {a : Address} {txs : List Transaction} (htxs : m[a]? = some txs) :
    (m.values.flatten.filter fun tx => tx.sender = a) = txs := by
  rw [Entries.values_eq_map_toList, filter_flatten_of_perm hm (List.Perm.refl _) a, htxs]
  rfl

end AccountTxs

namespace Coordinator

variable {c : Coordinator NoncePool} {views : Nat → Backend}

/-- **What a coordinator offers of an account** is a run of one of its
sub-pools. -/
theorem isRun_pending (hc : ∀ p ∈ c.pools, p.holdings.Coherent) {a : Address}
    {txs : List Transaction} (htxs : (c.pending views none)[a]? = some txs) :
    ∃ (i : Nat) (p : NoncePool), c.pools[i]? = some p ∧ p.IsRun (views i) a txs := by
  -- By induction over the sub-pools: a later one replaces a run by a run of its own, or adds one.
  have hfold := List.foldlRecOn
    (motive := fun m : AccountTxs => ∀ txs, m[a]? = some txs →
      ∃ (i : Nat) (p : NoncePool), c.pools[i]? = some p ∧ p.IsRun (views i) a txs)
    (c.viewed views) (fun m v => AccountTxs.extend m (SubPool.pending v.1 v.2 none))
    (b := ∅) (fun txs hnone => by cases hnone)
    (fun m hm v hv txs htxs => by
      rcases AccountTxs.getElem?_extend htxs with hold | hnew
      · exact hm txs hold
      · obtain ⟨i, hi⟩ := List.mem_iff_getElem?.mp hv
        rw [viewed, List.getElem?_mapIdx] at hi
        obtain ⟨p, hp, rfl⟩ := Option.map_eq_some_iff.mp hi
        have hcollect := NoncePool.pending_collect p.holdings.senders hnew
        refine ⟨i, p, hp, ?_⟩
        rw [hcollect]
        exact NoncePool.isRun_split (hc p (List.mem_of_getElem? hp)) (views i) a)
  exact hfold txs htxs

end Coordinator

end TxRelay
