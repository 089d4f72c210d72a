/-
A batch, transaction by transaction.

A batch is taken apart by sub-pool and what the sub-pools return is put back
together by position. A transaction goes to the first sub-pool that claims it, as
the last of those before it in the batch that go there too; so its outcome stands
at that place of what the sub-pool returned. Sub-pools may return too little or
too much. Nonce-ordered sub-pools return one outcome for each transaction, and
announce those they let in.
-/
import TxRelay.Pool.Coordinator
import TxRelay.Proofs.NoncePool

set_option autoImplicit false

namespace TxRelay

namespace Coordinator

/-! ## Who a transaction goes to -/

section
variable {σ : Type} [SubPool σ] {pools : List σ} {tx : Transaction} {k : Nat}

/-- Nobody claims a transaction. -/
def Unclaimed (pools : List σ) (tx : Transaction) : Prop :=
  ∀ p ∈ pools, SubPool.claims p tx = false

/-- A sub-pool is the first to claim a transaction. -/
def FirstToClaim (pools : List σ) (tx : Transaction) (k : Nat) : Prop :=
  (∃ p, pools[k]? = some p ∧ SubPool.claims p tx = true) ∧
    ∀ j < k, ∀ p, pools[j]? = some p → SubPool.claims p tx = false

theorem route?_eq_none_iff : route? pools tx = none ↔ Unclaimed pools tx :=
  List.findIdx?_eq_none_iff

theorem route?_eq_some_iff : route? pools tx = some k ↔ FirstToClaim pools tx k := by
  rw [route?, List.findIdx?_eq_some_iff_getElem]
  constructor
  · rintro ⟨hk, hclaims, hfirst⟩
    refine ⟨⟨_, List.getElem?_eq_getElem hk, hclaims⟩, fun j hj p hp => ?_⟩
    obtain ⟨_, rfl⟩ := List.getElem?_eq_some_iff.mp hp
    exact Bool.not_eq_true _ ▸ hfirst j hj
  · rintro ⟨⟨p, hp, hclaims⟩, hfirst⟩
    obtain ⟨hk, rfl⟩ := List.getElem?_eq_some_iff.mp hp
    refine ⟨hk, hclaims, fun j hj => ?_⟩
    rw [hfirst j hj _ (List.getElem?_eq_getElem (Nat.lt_trans hj hk))]
    exact Bool.false_ne_true

theorem lt_of_route? (h : route? pools tx = some k) : k < pools.length := by
  obtain ⟨⟨p, hp, _⟩, _⟩ := route?_eq_some_iff.mp h
  exact (List.getElem?_eq_some_iff.mp hp).1

end

/-! ## Putting the outcomes back -/

/-- What stands where a sub-pool returned nothing. -/
def noAnswer : Outcome := .error (.internal "sub-pool returned no result")

/-- What a sub-pool returned. -/
def returned (outcomes : List (List Outcome)) (k : Nat) : List Outcome := outcomes[k]?.getD []

/-- The transactions of a list that are bound for a sub-pool. -/
def boundFor (route : Transaction → Option Nat) (txs : List Transaction) (k : Nat) :
    List Transaction :=
  txs.filter fun tx => route tx == some k

/-- The outcome of a transaction after given ones: that which stands at its place
among what its sub-pool returned. -/
def reply (route : Transaction → Option Nat) (outcomes : List (List Outcome))
    (before : List Transaction) (tx : Transaction) : Outcome :=
  match route tx with
  | none => .error .unsupportedType
  | some k => ((returned outcomes k)[(boundFor route before k).length]?).getD noAnswer

section
variable {route : Transaction → Option Nat} {outcomes : List (List Outcome)}
  {tx : Transaction} {txs : List Transaction} {k : Nat}

theorem boundFor_append (route : Transaction → Option Nat) (txs txs' : List Transaction) (k : Nat) :
    boundFor route (txs ++ txs') k = boundFor route txs k ++ boundFor route txs' k :=
  List.filter_append ..

theorem boundFor_singleton (tx : Transaction) (k : Nat) :
    boundFor route [tx] k = if route tx = some k then [tx] else [] := by
  by_cases h : route tx = some k
  · simp [boundFor, h]
  · simp [boundFor, h]

/-- What a sub-pool returned is used up from the front. -/
theorem returned_set {own : List Outcome} {r : Outcome} {j : Nat} (h : outcomes[j]? = some (r :: own))
    (k : Nat) :
    returned (outcomes.set j own) k = if j = k then own else returned outcomes k := by
  obtain ⟨hj, _⟩ := List.getElem?_eq_some_iff.mp h
  rw [returned, List.getElem?_set]
  by_cases hjk : j = k
  · subst hjk
    simp [hj]
  · simp [hjk, returned]

/-- **The first transaction** of a batch gets its outcome, and what remains is put
back for the others. -/
theorem reassemble_cons (route : Transaction → Option Nat) (outcomes : List (List Outcome))
    (tx : Transaction) (txs : List Transaction) :
    ∃ outcomes', reassemble ((tx :: txs).map route) outcomes
        = reply route outcomes [] tx :: reassemble (txs.map route) outcomes' ∧
      ∀ k, returned outcomes' k = (returned outcomes k).drop (boundFor route [tx] k).length := by
  rw [List.map_cons, reply]
  cases hroute : route tx with
  | none => exact ⟨outcomes, rfl, fun k => by simp [boundFor_singleton, hroute]⟩
  | some j =>
    rw [reassemble]
    -- A sub-pool that has nothing left goes on having nothing.
    have hspent (h : returned outcomes j = []) (k : Nat) :
        returned outcomes k = (returned outcomes k).drop (boundFor route [tx] k).length := by
      rw [boundFor_singleton, hroute]
      by_cases hjk : j = k
      · rw [← hjk, h, List.drop_nil]
      · simp [hjk]
    cases hown : outcomes[j]? with
    | none =>
      have hnothing : returned outcomes j = [] := by rw [returned, hown]; rfl
      exact ⟨outcomes, by dsimp only; rw [hnothing]; rfl, hspent hnothing⟩
    | some own =>
      cases own with
      | nil =>
        have hnothing : returned outcomes j = [] := by rw [returned, hown]; rfl
        exact ⟨outcomes, by dsimp only; rw [hnothing]; rfl, hspent hnothing⟩
      | cons r own =>
        have hfirst : returned outcomes j = r :: own := by rw [returned, hown]; rfl
        refine ⟨outcomes.set j own, by dsimp only; rw [hfirst]; rfl, fun k => ?_⟩
        rw [returned_set hown, boundFor_singleton, hroute]
        by_cases hjk : j = k
        · subst hjk
          simp [hfirst]
        · simp [hjk]

theorem length_reassemble (routes : List (Option Nat)) (outcomes : List (List Outcome)) :
    (reassemble routes outcomes).length = routes.length := by
  induction routes generalizing outcomes with
  | nil => rfl
  | cons route rest ih =>
    cases route with
    | none => exact congrArg (· + 1) (ih outcomes)
    | some k =>
      rw [reassemble]
      split
      · exact congrArg (· + 1) (ih _)
      · exact congrArg (· + 1) (ih _)

/-- **Where an outcome comes from.** -/
theorem getElem?_reassemble (route : Transaction → Option Nat) (outcomes : List (List Outcome))
    {i : Nat} (hi : txs[i]? = some tx) :
    (reassemble (txs.map route) outcomes)[i]? = some (reply route outcomes (txs.take i) tx) := by
  induction txs generalizing outcomes i with
  | nil => cases hi
  | cons first rest ih =>
    obtain ⟨outcomes', heq, hreturned⟩ := reassemble_cons route outcomes first rest
    rw [heq]
    cases i with
    | zero =>
      rw [← Option.some.inj hi]
      rfl
    | succ i =>
      rw [List.getElem?_cons_succ, ih outcomes' hi, List.take_succ_cons, reply, reply]
      cases route tx with
      | none => rfl
      | some k =>
        have hbound := boundFor_append route [first] (rest.take i) k
        dsimp only
        rw [hreturned, List.getElem?_drop, ← List.length_append, ← hbound]
        rfl

/-- **What a sub-pool's transactions get**, in order, is what it returned, if it
returned enough. -/
theorem zip_reassemble (henough : (boundFor route txs k).length ≤ (returned outcomes k).length) :
    (txs.zip (reassemble (txs.map route) outcomes)).filter (fun x => route x.1 == some k)
      = (boundFor route txs k).zip (returned outcomes k) := by
  induction txs generalizing outcomes with
  | nil => rfl
  | cons tx rest ih =>
    obtain ⟨outcomes', heq, hreturned⟩ := reassemble_cons route outcomes tx rest
    have hbound := boundFor_append route [tx] rest k
    rw [List.singleton_append, boundFor_singleton] at hbound
    have hrest := hreturned k
    rw [boundFor_singleton] at hrest
    rw [heq, List.zip_cons_cons]
    by_cases hroute : route tx = some k
    · rw [if_pos hroute] at hbound hrest
      rw [hbound] at henough ⊢
      cases hown : returned outcomes k with
      | nil =>
        rw [hown] at henough
        exact absurd henough (Nat.not_succ_le_zero _)
      | cons r own =>
        have hreply : reply route outcomes [] tx = r := by
          rw [reply, hroute]
          dsimp only
          rw [hown]
          rfl
        have hown' : returned outcomes' k = own := by
          rw [hrest, hown]
          rfl
        rw [List.filter_cons_of_pos (by simp [hroute]), ih ?_, hown', hreply]
        · rfl
        · rw [hown] at henough
          rw [hown']
          exact Nat.le_of_succ_le_succ henough
    · rw [if_neg hroute] at hbound hrest
      rw [List.filter_cons_of_neg (by simpa using hroute), ih ?_, hrest, hbound]
      · rfl
      · rw [hrest]
        rwa [hbound] at henough

end

/-! ## Handing out the shares -/

section
variable {σ : Type} [SubPool σ]

/-- What becomes of a sub-pool that is handed its share in one call, and left
alone if it has none, and what it returns. -/
def Handed (views : Nat → Backend) (shares : Nat → List Transaction) (isLocal sync : Bool) (k : Nat)
    (p p' : σ) (c c' : Commons) (own : List Outcome) : Prop :=
  if shares k = [] then p' = p ∧ c' = c ∧ own = []
  else SubPool.add p (views k) c (shares k) isLocal sync = (p', c', own)

theorem addFrom_cons (views : Nat → Backend) (shares : Nat → List Transaction) (isLocal sync : Bool)
    (i : Nat) (c : Commons) (p : σ) (rest : List σ) :
    ∃ p' c' own, Handed views shares isLocal sync i p p' c c' own ∧
      addFrom views shares isLocal sync i c (p :: rest) =
        (p' :: (addFrom views shares isLocal sync (i + 1) c' rest).1,
          (addFrom views shares isLocal sync (i + 1) c' rest).2.1,
          own :: (addFrom views shares isLocal sync (i + 1) c' rest).2.2) := by
  rw [addFrom]
  by_cases hshare : shares i = []
  · refine ⟨p, c, [], ?_, if_pos (List.isEmpty_iff.mpr hshare)⟩
    rw [Handed, if_pos hshare]
    exact ⟨rfl, rfl, rfl⟩
  · refine ⟨_, _, _, ?_, if_neg (by simpa using hshare)⟩
    rw [Handed, if_neg hshare]
    rfl

/-- **Each sub-pool is handed its share in one call**, one after the other. -/
theorem addFrom_handed (views : Nat → Backend) (shares : Nat → List Transaction) (isLocal sync : Bool)
    (i : Nat) (c : Commons) (pools : List σ) :
    ∃ between : Nat → Commons, between i = c ∧
      between (i + pools.length) = (addFrom views shares isLocal sync i c pools).2.1 ∧
      ∀ j p, pools[j]? = some p → ∃ p', (addFrom views shares isLocal sync i c pools).1[j]? = some p' ∧
        Handed views shares isLocal sync (i + j) p p' (between (i + j)) (between (i + j + 1))
          (returned (addFrom views shares isLocal sync i c pools).2.2 j) := by
  induction pools generalizing i c with
  | nil => exact ⟨fun _ => c, rfl, rfl, fun j p hp => by cases hp⟩
  | cons p rest ih =>
    obtain ⟨p', c', own, hfirst, heq⟩ := addFrom_cons views shares isLocal sync i c p rest
    obtain ⟨between, hbegin, hend, hrest⟩ := ih (i + 1) c'
    rw [heq]
    -- What is shared before the first sub-pool comes before the rest.
    have hlater (n : Nat) (hn : i < n) : (if n = i then c else between n) = between n :=
      if_neg (Nat.ne_of_gt hn)
    refine ⟨fun n => if n = i then c else between n, if_pos rfl, ?_, fun j q hq => ?_⟩
    · dsimp only
      rw [hlater _ (by rw [List.length_cons]; omega), ← hend, List.length_cons]
      congr 1
      omega
    · cases j with
      | zero =>
        rw [← Option.some.inj hq]
        refine ⟨p', rfl, ?_⟩
        dsimp only
        rw [Nat.add_zero, if_pos rfl, hlater _ (Nat.lt_succ_self i), hbegin]
        exact hfirst
      | succ j =>
        obtain ⟨q', hq', hhanded⟩ := hrest j q hq
        refine ⟨q', hq', ?_⟩
        dsimp only
        rw [hlater _ (by omega), hlater _ (by omega)]
        rw [show i + 1 + j = i + (j + 1) by omega] at hhanded
        exact hhanded

theorem length_addFrom (views : Nat → Backend) (shares : Nat → List Transaction) (isLocal sync : Bool)
    (i : Nat) (c : Commons) (pools : List σ) :
    (addFrom views shares isLocal sync i c pools).1.length = pools.length := by
  induction pools generalizing i c with
  | nil => rfl
  | cons p rest ih =>
    obtain ⟨p', c', own, _, heq⟩ := addFrom_cons views shares isLocal sync i c p rest
    rw [heq]
    exact congrArg (· + 1) (ih _ _)

/-! ## A batch -/

/-- The place of a position of a batch in the share of a sub-pool. -/
def placeOf (pools : List σ) (txs : List Transaction) (i k : Nat) : Nat :=
  (share pools (txs.take i) k).length

/-- **What a batch comes to** (`PoolCoordinator::add`). Between the sub-pools what they share
is passed on, and each has returned something. -/
structure Distributed (c : Coordinator σ) (views : Nat → Backend) (txs : List Transaction)
    (isLocal sync : Bool) (c' : Coordinator σ) (results : List Outcome) (between : Nat → Commons)
    (own : Nat → List Outcome) : Prop where
  begins : between 0 = c.commons
  ends : between c.pools.length = c'.commons
  length_pools : c'.pools.length = c.pools.length
  /-- A sub-pool is handed its share, in the order of the batch, in one call. -/
  handed : ∀ k p, c.pools[k]? = some p → ∃ p', c'.pools[k]? = some p' ∧
    Handed views (share c.pools txs) isLocal sync k p p' (between k) (between (k + 1)) (own k)
  length_results : results.length = txs.length
  unclaimed : ∀ (i : Nat) tx, txs[i]? = some tx → Unclaimed c.pools tx →
    results[i]? = some (.error .unsupportedType)
  /-- A transaction that is claimed is in the share of the first sub-pool that
  claims it and in no other, and gets the outcome that was returned for it. -/
  claimed : ∀ (i : Nat) tx k, txs[i]? = some tx → FirstToClaim c.pools tx k →
    (share c.pools txs k)[placeOf c.pools txs i k]? = some tx ∧
      (∀ j ≠ k, tx ∉ share c.pools txs j) ∧
      results[i]? = some ((own k)[placeOf c.pools txs i k]?.getD noAnswer)
  /-- Only what nobody claims is of no supported type, unless a sub-pool says so
  itself. -/
  unsupported_iff : ∀ (i : Nat) tx, txs[i]? = some tx →
    (∀ k < c.pools.length, .error .unsupportedType ∉ own k) →
    (results[i]? = some (.error .unsupportedType) ↔ Unclaimed c.pools tx)

section
variable {pools : List σ} {txs : List Transaction} {tx : Transaction} {k : Nat}

/-- A transaction stands in its share after those before it. -/
theorem getElem?_share {i : Nat} (hi : txs[i]? = some tx) (hroute : route? pools tx = some k) :
    (share pools txs k)[placeOf pools txs i k]? = some tx := by
  have hsplit : share pools txs k
      = share pools (txs.take i) k ++ [tx] ++ share pools (txs.drop (i + 1)) k := by
    have hnow : boundFor (route? pools) [tx] k = [tx] := by rw [boundFor_singleton, if_pos hroute]
    show boundFor (route? pools) txs k = boundFor (route? pools) _ k ++ [tx] ++ boundFor (route? pools) _ k
    rw [← hnow, ← boundFor_append, ← boundFor_append]
    conv => lhs; rw [← List.take_append_drop (i + 1) txs, List.take_add_one, hi]
    rfl
  rw [hsplit, placeOf, List.append_assoc, List.getElem?_append_right (Nat.le_refl _), Nat.sub_self]
  rfl

theorem mem_share_iff : tx ∈ share pools txs k ↔ tx ∈ txs ∧ FirstToClaim pools tx k := by
  rw [share, List.mem_filter, beq_iff_eq, route?_eq_some_iff]

theorem FirstToClaim.unique {j : Nat} (h : FirstToClaim pools tx k) (h' : FirstToClaim pools tx j) :
    j = k :=
  Option.some.inj ((route?_eq_some_iff.mpr h').symm.trans (route?_eq_some_iff.mpr h))

end

/-- What the sub-pools return for their shares of a batch. -/
def answers (c : Coordinator σ) (views : Nat → Backend) (txs : List Transaction)
    (isLocal sync : Bool) : Nat → List Outcome :=
  returned (addFrom views (share c.pools txs) isLocal sync 0 c.commons c.pools).2.2

/-- **A batch** is distributed. -/
theorem add_distributed (c : Coordinator σ) (views : Nat → Backend) (txs : List Transaction)
    (isLocal sync : Bool) :
    ∃ between, Distributed c views txs isLocal sync (c.add views txs isLocal sync).1
      (c.add views txs isLocal sync).2 between (c.answers views txs isLocal sync) := by
  obtain ⟨between, hbegin, hend, hhanded⟩ :=
    addFrom_handed views (share c.pools txs) isLocal sync 0 c.commons c.pools
  simp only [Nat.zero_add] at hend hhanded
  have hresult (i : Nat) (tx : Transaction) (hi : txs[i]? = some tx) :=
    getElem?_reassemble (route? c.pools)
      (addFrom views (share c.pools txs) isLocal sync 0 c.commons c.pools).2.2 hi
  have hunclaimed (i : Nat) (tx : Transaction) (hi : txs[i]? = some tx) (hnone : Unclaimed c.pools tx) :
      (c.add views txs isLocal sync).2[i]? = some (.error .unsupportedType) := by
    refine (hresult i tx hi).trans ?_
    rw [reply, route?_eq_none_iff.mpr hnone]
  have hclaimed (i : Nat) (tx : Transaction) (k : Nat) (hi : txs[i]? = some tx)
      (hfirst : FirstToClaim c.pools tx k) : (c.add views txs isLocal sync).2[i]? = some
        ((c.answers views txs isLocal sync k)[placeOf c.pools txs i k]?.getD noAnswer) := by
    refine (hresult i tx hi).trans ?_
    rw [reply, route?_eq_some_iff.mpr hfirst]
    rfl
  refine ⟨between, hbegin, hend, length_addFrom _ _ _ _ _ _ _, hhanded, ?_, hunclaimed,
    fun i tx k hi hfirst => ⟨?_, fun j hne hmem => ?_, hclaimed i tx k hi hfirst⟩,
    fun i tx hi hown => ⟨fun hres => ?_, hunclaimed i tx hi⟩⟩
  · exact (length_reassemble _ _).trans (List.length_map _)
  · exact getElem?_share hi (route?_eq_some_iff.mpr hfirst)
  · exact hne (hfirst.unique (mem_share_iff.mp hmem).2)
  · cases hroute : route? c.pools tx with
    | none => exact route?_eq_none_iff.mp hroute
    | some k =>
      rw [hclaimed i tx k hi (route?_eq_some_iff.mp hroute), Option.some_inj] at hres
      cases hplace : (c.answers views txs isLocal sync k)[placeOf c.pools txs i k]? with
      | none =>
        rw [hplace] at hres
        cases hres
      | some r =>
        rw [hplace] at hres
        obtain rfl : r = .error .unsupportedType := hres
        exact absurd (List.mem_of_getElem? hplace) (hown k (lt_of_route? hroute))

end

end Coordinator

/-! ## Nonce-ordered sub-pools -/

namespace NoncePool

section
variable (limits : NonceLimits) (seat : Nat) (b : Backend) (isLocal : Bool) (s : Space)

/-- A sub-pool does not say of a transaction that its type is not supported. -/
theorem letIn_ne_unsupported (tx : Transaction) :
    (letIn limits seat b s tx isLocal).2 ≠ .error .unsupportedType := by
  have hclaim : ∀ sender, claimSender seat s sender ≠ .error .unsupportedType := by
    intro sender
    rw [claimSender]
    split
    · split <;> simp
    · simp
  have hroom : ∀ claimed, makeRoom limits seat claimed tx isLocal ≠ .error .unsupportedType := by
    intro claimed
    rw [makeRoom]
    split
    · simp
    · split <;> simp
  rw [letIn]
  split
  · simp
  split
  · simp
  split
  · simp
  split
  · split <;> simp
  split
  · simp
  split
  · next e he => exact fun heq => hclaim tx.sender (he.trans (congrArg _ (Except.error.inj heq)))
  · split
    · next e he => exact fun heq => hroom _ (he.trans (congrArg _ (Except.error.inj heq)))
    · simp

theorem not_mem_letInAll (txs : List Transaction) :
    .error .unsupportedType ∉ (letInAll limits seat b isLocal s txs).2.map Prod.snd := by
  induction txs generalizing s with
  | nil => exact List.not_mem_nil
  | cons tx rest ih =>
    show .error .unsupportedType ∉ (letIn limits seat b s tx isLocal).2 :: _
    exact fun hmem => (List.mem_cons.mp hmem).elim
      (fun h => letIn_ne_unsupported limits seat b isLocal s tx h.symm) (ih _)

theorem map_fst_letInAll (txs : List Transaction) :
    (letInAll limits seat b isLocal s txs).2.map Prod.fst = txs := by
  induction txs generalizing s with
  | nil => rfl
  | cons tx rest ih => exact congrArg (tx :: ·) (ih _)

end

theorem zip_map_snd {txs : List Transaction} {outcomes : List (Transaction × Outcome)}
    (h : outcomes.map Prod.fst = txs) : txs.zip (outcomes.map Prod.snd) = outcomes := by
  subst h
  induction outcomes with
  | nil => rfl
  | cons o rest ih => exact congrArg (o :: ·) ih

theorem accepted_refused (txs : List Transaction) (e : PoolError) :
    accepted (txs.zip (txs.map fun _ => .error e)) = [] := by
  induction txs with
  | nil => rfl
  | cons tx rest ih => exact ih

/-- What was refused can be left out. -/
theorem accepted_filter {outcomes : List (Transaction × Outcome)} {keep : Transaction × Outcome → Bool}
    (h : ∀ o ∈ outcomes, o.2.isOk = true → keep o = true) :
    accepted (outcomes.filter keep) = accepted outcomes := by
  induction outcomes with
  | nil => rfl
  | cons o rest ih =>
    have hrest := ih fun o' ho' => h o' (List.mem_cons_of_mem _ ho')
    by_cases hkeep : keep o = true
    · rw [List.filter_cons_of_pos hkeep, accepted, List.filterMap_cons, ← accepted, hrest]
      conv => rhs; rw [accepted, List.filterMap_cons, ← accepted]
    · have hrefused : ¬o.2.isOk = true := fun hok => hkeep (h o List.mem_cons_self hok)
      rw [List.filter_cons_of_neg hkeep, hrest, accepted, accepted, List.filterMap_cons, if_neg hrefused]

/-- **What a sub-pool returns and announces**: one outcome for each transaction,
and those it let in, if there are any. -/
theorem add_answers (p : NoncePool) (b : Backend) (c : Commons) (txs : List Transaction) (isLocal : Bool) :
    (p.add b c txs isLocal).2.2.length = txs.length ∧
      .error .unsupportedType ∉ (p.add b c txs isLocal).2.2 ∧
      (p.add b c txs isLocal).2.1.bus =
        if (accepted (txs.zip (p.add b c txs isLocal).2.2)).isEmpty then c.bus
        else (c.bus.publish (.transactions (accepted (txs.zip (p.add b c txs isLocal).2.2)) isLocal)).1 := by
  rw [add]
  cases p.seat with
  | none =>
    dsimp only
    rw [accepted_refused]
    exact ⟨List.length_map _, by simp, rfl⟩
  | some seat =>
    have hfst := map_fst_letInAll p.limits seat b isLocal (p.space c.reservations) txs
    have hsnd := not_mem_letInAll p.limits seat b isLocal (p.space c.reservations) txs
    dsimp only
    rw [zip_map_snd hfst]
    refine ⟨?_, hsnd, rfl⟩
    rw [List.length_map, ← List.length_map Prod.fst, hfst]

end NoncePool

/-! ## What is announced -/

/-- The members of a list that one of the first groups takes, group by group. -/
theorem flatMap_filter_perm {α : Type} (group : α → Option Nat) (list : List α) (n : Nat) :
    ((List.range n).flatMap fun k => list.filter fun x => group x == some k).Perm
      (list.filter fun x => (group x).any (· < n)) := by
  induction n with
  | zero =>
    have hnone : (list.filter fun x => (group x).any (· < 0)) = [] :=
      List.filter_eq_nil_iff.mpr fun x _ => by cases group x <;> simp
    rw [hnone]
    exact List.Perm.refl _
  | succ n ih =>
    rw [List.range_succ, List.flatMap_append, List.flatMap_singleton]
    refine (ih.append_right _).trans ?_
    have hsplit := List.filter_append_perm (fun x => (group x).any (· < n))
      (list.filter fun x => (group x).any (· < n + 1))
    rw [List.filter_filter, List.filter_filter] at hsplit
    refine List.Perm.trans (List.Perm.of_eq ?_) hsplit
    congr 1
    · refine List.filter_congr fun x _ => ?_
      cases group x with
      | none => rfl
      | some k =>
        rw [Bool.eq_iff_iff]
        simp
        omega
    · refine List.filter_congr fun x _ => ?_
      cases group x with
      | none => rfl
      | some k =>
        rw [Bool.eq_iff_iff]
        simp
        omega

namespace Coordinator

section
variable {σ : Type} [SubPool σ]

/-- The transactions of a batch that were let in. -/
def admitted (txs : List Transaction) (results : List Outcome) : List Transaction :=
  NoncePool.accepted (txs.zip results)

/-- The transactions of a batch that one sub-pool let in. -/
def admittedTo (pools : List σ) (txs : List Transaction) (results : List Outcome) (k : Nat) :
    List Transaction :=
  NoncePool.accepted ((txs.zip results).filter fun x => route? pools x.1 == some k)

/-- The transactions that were let in, by sub-pool. -/
def news (pools : List σ) (txs : List Transaction) (results : List Outcome) : List (List Transaction) :=
  ((List.range pools.length).map (admittedTo pools txs results)).filter fun new => !new.isEmpty

end

/-- A bus after lists of new transactions were announced. -/
def announceAll (isLocal : Bool) (b : Bus) (news : List (List Transaction)) : Bus :=
  news.foldl (fun b new => (b.publish (.transactions new isLocal)).1) b

/-- **What nonce-ordered sub-pools announce of a batch** (`NoncePool::add`). -/
structure Announced (c : Coordinator NoncePool) (txs : List Transaction) (isLocal : Bool)
    (c' : Coordinator NoncePool) (results : List Outcome) : Prop where
  /-- Each sub-pool that let something in announces what it let in, in the order
  of the batch, and nothing else is announced. -/
  bus_eq : c'.commons.bus = announceAll isLocal c.commons.bus (news c.pools txs results)
  /-- What was let in is announced once. -/
  perm : (news c.pools txs results).flatten.Perm (admitted txs results)
  /-- Only what nobody claims is of no supported type. -/
  unsupported_iff : ∀ (i : Nat) tx, txs[i]? = some tx →
    (results[i]? = some (.error .unsupportedType) ↔ Unclaimed c.pools tx)

section
variable {views : Nat → Backend} {shares : Nat → List Transaction} {isLocal sync : Bool} {k : Nat}
  {p p' : NoncePool} {c c' : Commons} {own : List Outcome}

/-- What a nonce-ordered sub-pool does with its share. -/
theorem Handed.spec (h : Handed views shares isLocal sync k p p' c c' own) :
    own.length = (shares k).length ∧ .error .unsupportedType ∉ own ∧
      c'.bus = announceAll isLocal c.bus
        ([NoncePool.accepted ((shares k).zip own)].filter fun new => !new.isEmpty) := by
  rw [Handed] at h
  split at h
  · next hnone =>
    obtain ⟨_, rfl, rfl⟩ := h
    rw [hnone]
    exact ⟨rfl, List.not_mem_nil, rfl⟩
  · have hadd : p.add (views k) c (shares k) isLocal = (p', c', own) := h
    obtain ⟨hlength, hsupported, hbus⟩ := p.add_answers (views k) c (shares k) isLocal
    rw [hadd] at hlength hsupported hbus
    refine ⟨hlength, hsupported, hbus.trans ?_⟩
    dsimp only
    cases hnew : (NoncePool.accepted ((shares k).zip own)).isEmpty with
    | true => simp [hnew, announceAll]
    | false => simp [hnew, announceAll]

end

section
variable {c c' : Coordinator NoncePool} {views : Nat → Backend} {txs : List Transaction}
  {isLocal sync : Bool} {results : List Outcome} {between : Nat → Commons} {own : Nat → List Outcome}

/-- Up to each sub-pool, those before it have announced what they let in. -/
theorem Distributed.bus_eq (h : Distributed c views txs isLocal sync c' results between own) {m : Nat}
    (hm : m ≤ c.pools.length) :
    (between m).bus = announceAll isLocal c.commons.bus
      (((List.range m).map fun k => NoncePool.accepted ((share c.pools txs k).zip (own k))).filter
        fun new => !new.isEmpty) := by
  induction m with
  | zero => rw [h.begins]; rfl
  | succ m ih =>
    obtain ⟨p', _, hhanded⟩ := h.handed m _ (List.getElem?_eq_getElem hm)
    rw [hhanded.spec.2.2, ih (Nat.le_of_succ_le hm), List.range_succ, List.map_append, List.filter_append,
      announceAll, announceAll, announceAll, List.foldl_append]
    rfl

end

/-- **What is announced of a batch.** -/
theorem add_announced (c : Coordinator NoncePool) (views : Nat → Backend) (txs : List Transaction)
    (isLocal sync : Bool) :
    Announced c txs isLocal (c.add views txs isLocal sync).1 (c.add views txs isLocal sync).2 := by
  obtain ⟨between, h⟩ := add_distributed c views txs isLocal sync
  have hspec (k : Nat) (hk : k < c.pools.length) :
      (c.answers views txs isLocal sync k).length = (share c.pools txs k).length ∧
        .error .unsupportedType ∉ c.answers views txs isLocal sync k := by
    obtain ⟨p', _, hhanded⟩ := h.handed k _ (List.getElem?_eq_getElem hk)
    exact ⟨hhanded.spec.1, hhanded.spec.2.1⟩
  have hnews : news c.pools txs (c.add views txs isLocal sync).2
      = ((List.range c.pools.length).map fun k =>
          NoncePool.accepted ((share c.pools txs k).zip (c.answers views txs isLocal sync k))).filter
            fun new => !new.isEmpty := by
    rw [news]
    congr 1
    refine List.map_congr_left fun k hk => ?_
    exact congrArg NoncePool.accepted
      (zip_reassemble (Nat.le_of_eq (hspec k (List.mem_range.mp hk)).1.symm))
  refine ⟨?_, ?_, fun i tx hi => h.unsupported_iff i tx hi fun k hk => (hspec k hk).2⟩
  · rw [hnews, ← h.ends]
    exact h.bus_eq (Nat.le_refl _)
  · have hflat : (news c.pools txs (c.add views txs isLocal sync).2).flatten
        = NoncePool.accepted ((List.range c.pools.length).flatMap fun k =>
            (txs.zip (c.add views txs isLocal sync).2).filter fun x => route? c.pools x.1 == some k) := by
      rw [news, List.flatten_filter_not_isEmpty, ← List.flatMap_def]
      exact List.filterMap_flatMap.symm
    rw [hflat]
    refine ((flatMap_filter_perm _ _ _).filterMap _).trans (List.Perm.of_eq ?_)
    refine NoncePool.accepted_filter fun x hx hok => ?_
    -- What nobody claims was refused.
    obtain ⟨i, hi⟩ := List.mem_iff_getElem?.mp hx
    obtain ⟨htx, hresult⟩ := List.getElem?_zip_eq_some.mp hi
    cases hroute : route? c.pools x.1 with
    | none =>
      rw [h.unclaimed i x.1 htx (route?_eq_none_iff.mp hroute)] at hresult
      rw [← Option.some.inj hresult] at hok
      cases hok
    | some k => exact decide_eq_true (lt_of_route? hroute)

/-- **A batch is answered in order, and each transaction goes to one sub-pool.**
Nonce-ordered sub-pools announce what they let in. -/
theorem batch_spec :
    (∀ (σ : Type) [SubPool σ] (c : Coordinator σ) (views : Nat → Backend) (txs : List Transaction)
        (isLocal sync : Bool),
      ∃ between own, Distributed c views txs isLocal sync (c.add views txs isLocal sync).1
        (c.add views txs isLocal sync).2 between own) ∧
      ∀ (c : Coordinator NoncePool) (views : Nat → Backend) (txs : List Transaction)
        (isLocal sync : Bool),
        Announced c txs isLocal (c.add views txs isLocal sync).1 (c.add views txs isLocal sync).2 := by
  refine ⟨fun σ _ c views txs isLocal sync => ?_, add_announced⟩
  obtain ⟨between, h⟩ := add_distributed c views txs isLocal sync
  exact ⟨between, _, h⟩

end Coordinator

end TxRelay
