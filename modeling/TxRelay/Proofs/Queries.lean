/-
The queries of a coordinator agree with each other and lose nothing.

What can be executed, what waits, how many there are of each, where a given
transaction is and what a visitor is shown: all of it is read off the same two
lists, once through the merged maps of the sub-pools and once through other
ways. Every transaction that is held is in one of the lists, once.

Transactions are looked up by digest. Sub-pools could hold two transactions with
one digest, and the first of them would be reported; their senders would differ,
and so would what the digest covers.
-/
import TxRelay.Proofs.Admission
import TxRelay.Proofs.Merged

set_option autoImplicit false

namespace TxRelay

namespace Transaction

/-- Two transactions with one digest although it covers different bytes. -/
def Collide (tx tx' : Transaction) : Prop :=
  tx.preimage ≠ tx'.preimage ∧ tx.hash = tx'.hash

/-- The bytes that a digest covers tell the sender. -/
theorem sender_eq_of_preimage_eq {tx tx' : Transaction} (h : tx.preimage = tx'.preimage) :
    tx.sender = tx'.sender := by
  rw [preimage, preimage] at h
  obtain ⟨_, hfields⟩ := List.cons.inj h
  simp only [List.append_assoc] at hfields
  -- The chain and the sender stand in front, with fixed sizes.
  obtain ⟨_, hfields⟩ := List.append_inj hfields (by simp)
  obtain ⟨hsender, _⟩ := List.append_inj hfields (by simp)
  exact Vector.toList_inj.mp hsender

end Transaction

/-! ## Visitors -/

section
variable {α β γ : Type} {step : β → α → β × Bool}

/-- A visitor that always goes on sees everything. -/
theorem visit_recorder_none (seen xs : List α) :
    visit (recorder none) seen xs = (seen ++ xs, true) := by
  induction xs generalizing seen with
  | nil => rw [visit_nil, List.append_nil]
  | cons x rest ih =>
    show visit (recorder none) (seen ++ [x]) rest = _
    rw [ih, List.append_assoc]
    rfl

/-- A visitor that declines is shown nothing after that. -/
theorem visit_of_declines {notes : β} {before after : List α} {x : α}
    (hbefore : (visit step notes before).2 = true)
    (hx : (step (visit step notes before).1 x).2 = false) :
    visit step notes (before ++ x :: after) = step (visit step notes before).1 x := by
  rw [visit_append]
  generalize visit step notes before = there at hbefore hx
  obtain ⟨notes', goesOn⟩ := there
  obtain rfl : goesOn = true := hbefore
  dsimp only at hx ⊢
  rw [visit]
  generalize step notes' x = last at hx
  obtain ⟨notes'', goesOn⟩ := last
  obtain rfl : goesOn = false := hx
  rfl

/-- Several lists are visited one after the other, until the visitor declines in
one of them. -/
def visitEach (step : β → α → β × Bool) (shown : γ → List α) : β → List γ → β × Bool
  | notes, [] => (notes, true)
  | notes, v :: rest =>
    match visit step notes (shown v) with
    | (notes, true) => visitEach step shown notes rest
    | (notes, false) => (notes, false)

theorem visitEach_eq_visit (shown : γ → List α) (notes : β) (vs : List γ) :
    visitEach step shown notes vs = visit step notes (vs.flatMap shown) := by
  induction vs generalizing notes with
  | nil => rfl
  | cons v rest ih =>
    rw [visitEach, List.flatMap_cons, visit_append]
    obtain ⟨notes', goesOn⟩ := visit step notes (shown v)
    cases goesOn with
    | true => exact ih notes'
    | false => rfl

end

namespace Coordinator

open NoncePool (Separate ofAccount allInHalf collectAll)

variable {c : Coordinator NoncePool} {views : Nat → Backend}

/-- Some sub-pool holds a transaction. -/
def Holds (c : Coordinator NoncePool) (tx : Transaction) : Prop :=
  ∃ p ∈ c.pools, SubPool.get? p tx.hash = some tx

/-- What the content lists in one of the halves, by account. -/
def listed (c : Coordinator NoncePool) (views : Nat → Backend) (side : Half) :
    List (Address × Transaction) :=
  ((c.content views).half side).listing

/-! ## Sub-pools of one coordinator -/

theorem mem_viewed {v : NoncePool × Backend} :
    v ∈ c.viewed views ↔ ∃ i p, c.pools[i]? = some p ∧ v = (p, views i) := by
  rw [List.mem_iff_getElem?]
  constructor
  · rintro ⟨i, hi⟩
    rw [viewed, List.getElem?_mapIdx] at hi
    obtain ⟨p, hp, rfl⟩ := Option.map_eq_some_iff.mp hi
    exact ⟨i, p, hp, rfl⟩
  · rintro ⟨i, p, hp, rfl⟩
    refine ⟨i, ?_⟩
    rw [viewed, List.getElem?_mapIdx, hp]
    rfl

/-- Accounts are exclusive, so the sub-pools have nothing in common. -/
theorem Orderly.separate (h : c.Orderly) (views : Nat → Backend) : Separate (c.viewed views) := by
  refine ⟨fun v hv => ?_, ?_⟩
  · obtain ⟨i, p, hp, rfl⟩ := mem_viewed.mp hv
    exact (h.in_order i p hp).tidy.coherent
  · refine List.pairwise_iff_getElem.mpr fun i j hi hj hlt a ha hb => ?_
    rw [viewed, List.length_mapIdx] at hi hj
    simp only [viewed, List.getElem_mapIdx] at ha hb
    have howner := NoncePool.Exclusive.owner_iff h a
    have hown := (howner i).mpr ⟨_, List.getElem?_eq_getElem hi, ha⟩
    have hown' := (howner j).mpr ⟨_, List.getElem?_eq_getElem hj, hb⟩
    exact Nat.ne_of_lt hlt (Option.some.inj (hown.symm.trans hown'))

/-- What is held is what some sub-pool has in one of the halves. -/
theorem holds_iff (h : c.Orderly) (views : Nat → Backend) {tx : Transaction} :
    c.Holds tx ↔ ∃ side, ∃ q ∈ allInHalf (c.viewed views) side, q.tx = tx := by
  have hs := h.separate views
  constructor
  · rintro ⟨p, hp, hget⟩
    obtain ⟨i, hi⟩ := List.mem_iff_getElem?.mp hp
    obtain ⟨q, hq, rfl⟩ := Option.map_eq_some_iff.mp hget
    have hv : (p, views i) ∈ c.viewed views := mem_viewed.mpr ⟨i, p, hi, rfl⟩
    have hc := hs.coherent _ hv
    rw [← (hc.hash_eq hq).1] at hq
    obtain ⟨side, hmem⟩ := NoncePool.exists_half hc (views i) hq
    exact ⟨side, q, (NoncePool.mem_allInHalf hs).mpr ⟨_, hv, hmem⟩, rfl⟩
  · rintro ⟨side, q, hq, rfl⟩
    obtain ⟨v, hv, hget⟩ := hs.held_of_mem hq
    obtain ⟨i, p, hp, rfl⟩ := mem_viewed.mp hv
    refine ⟨p, List.mem_of_getElem? hp, Option.map_eq_some_iff.mpr ⟨q, ?_, rfl⟩⟩
    rw [((hs.coherent _ hv).hash_eq hget).2]
    exact hget

/-! ## Merged answers -/

theorem half_content (c : Coordinator NoncePool) (views : Nat → Backend) (side : Half) :
    (c.content views).half side
      = collectAll (c.viewed views) (fun p => p.holdings.senders) side := by
  cases side with
  | pending => exact (List.foldl_hom PoolContent.pending fun _ _ => rfl).symm
  | queued => exact (List.foldl_hom PoolContent.queued fun _ _ => rfl).symm

theorem half_contentOf (c : Coordinator NoncePool) (views : Nat → Backend) (a : Address)
    (side : Half) :
    (c.contentOf views a).half side = (ofAccount (c.viewed views) side a).map Pooled.tx := by
  have hfold : (c.contentOf views a).half side
      = (c.viewed views).foldl (fun txs v => txs ++ (v.1.half v.2 side a).map Pooled.tx) [] := by
    cases side with
    | pending => exact (List.foldl_hom AccountContent.pending fun _ _ => rfl).symm
    | queued => exact (List.foldl_hom AccountContent.queued fun _ _ => rfl).symm
  rw [hfold, ofAccount, List.map_flatMap, List.flatMap_eq_foldl]

/-- The counts of several sub-pools. -/
theorem foldl_stats {vs : List (NoncePool × Backend)}
    (hc : ∀ v ∈ vs, v.1.holdings.Coherent) (s : PoolStats) :
    vs.foldl (fun s v => s.merge (SubPool.stats v.1 v.2)) s
      = s.merge ⟨(allInHalf vs .pending).length, (allInHalf vs .queued).length⟩ := by
  induction vs generalizing s with
  | nil => rfl
  | cons v rest ih =>
    obtain ⟨hv, hrest⟩ := List.forall_mem_cons.mp hc
    have hstats : SubPool.stats v.1 v.2
        = ⟨(v.1.inHalf v.2 .pending).length, (v.1.inHalf v.2 .queued).length⟩ :=
      NoncePool.stats_eq hv v.2
    rw [List.foldl_cons, ih hrest, hstats]
    simp only [PoolStats.merge, allInHalf, List.flatMap_cons, List.length_append, Nat.add_assoc]

theorem foldl_pending (vs : List (NoncePool × Backend)) (s : PoolStats) :
    vs.foldl (fun n v => n + (SubPool.stats v.1 v.2).pending) s.pending
      = (vs.foldl (fun s v => s.merge (SubPool.stats v.1 v.2)) s).pending := by
  induction vs generalizing s with
  | nil => rfl
  | cons v rest ih => exact ih (s.merge (SubPool.stats v.1 v.2))

/-! ## Where a transaction is -/

/-- The first report that says something is a report. -/
theorem find?_known (reports : List TxStatus) :
    (∀ s, (reports.find? (· != .unknown)).getD .unknown = s → s ≠ .unknown → s ∈ reports) ∧
      ((reports.find? (· != .unknown)).getD .unknown = .unknown ↔ ∀ s ∈ reports, s = .unknown) := by
  cases hfind : reports.find? (· != .unknown) with
  | none =>
    have hall := List.find?_eq_none.mp hfind
    refine ⟨fun s hs hne => absurd hs.symm hne, fun _ s hs => ?_, fun _ => rfl⟩
    have hnot := hall s hs
    simpa using hnot
  | some s =>
    have hmem := List.mem_of_find?_eq_some hfind
    have hne : s ≠ .unknown := by
      have hknown := List.find?_some hfind
      simpa using hknown
    exact ⟨fun s' hs' _ => hs' ▸ hmem, fun hs => absurd hs hne, fun hall => hall s hmem⟩

theorem status_eq_unknown_iff (h : c.Orderly) (views : Nat → Backend) (hash : Digest) :
    c.status views hash = .unknown ↔ c.has hash = false := by
  rw [status, (find?_known _).2, has, List.any_eq_false]
  have hv : ∀ i p, c.pools[i]? = some p →
      (SubPool.status p (views i) hash = .unknown ↔ ¬(SubPool.get? p hash).isSome = true) := by
    intro i p hp
    have hget : SubPool.get? p hash = (p.holdings.get? hash).map Pooled.tx := rfl
    have hstatus := NoncePool.status_eq_unknown_iff (h.in_order i p hp).tidy.coherent (views i) hash
    rw [hget, Option.isSome_map, Option.not_isSome_iff_eq_none]
    exact hstatus
  constructor
  · intro hall p hp
    obtain ⟨i, hi⟩ := List.mem_iff_getElem?.mp hp
    refine (hv i p hi).mp (hall _ (List.mem_map.mpr ⟨(p, views i), ?_, rfl⟩))
    exact mem_viewed.mpr ⟨i, p, hi, rfl⟩
  · intro hall s hs
    obtain ⟨v, hmem, rfl⟩ := List.mem_map.mp hs
    obtain ⟨i, p, hp, rfl⟩ := mem_viewed.mp hmem
    exact (hv i p hp).mpr (hall p (List.mem_of_getElem? hp))

/-- What is reported in a half is there. -/
theorem exists_of_status (h : c.Orderly) {hash : Digest} {side : Half}
    (hstatus : c.status views hash = side.status) :
    ∃ q ∈ allInHalf (c.viewed views) side, q.hash = hash := by
  have hmem := (find?_known _).1 _ hstatus side.status_ne_unknown
  obtain ⟨v, hv, hown⟩ := List.mem_map.mp hmem
  have hc := (h.separate views).coherent v hv
  obtain ⟨q, hq, hhash⟩ := (NoncePool.status_eq_iff hc v.2 hash side).mp hown
  exact ⟨q, List.mem_flatMap.mpr ⟨v, hv, hq⟩, hhash⟩

/-- Two transactions with one digest are in one half, or have two senders. -/
theorem eq_or_sender_ne (h : c.Orderly) {side side' : Half} {q q' : Pooled}
    (hq : q ∈ allInHalf (c.viewed views) side) (hq' : q' ∈ allInHalf (c.viewed views) side')
    (hhash : q.hash = q'.hash) : side = side' ∨ q.tx.sender ≠ q'.tx.sender := by
  have hs := h.separate views
  by_cases hsender : q.tx.sender = q'.tx.sender
  · -- One account is held by one sub-pool, which knows a digest once.
    obtain ⟨v, hv, hmem⟩ := (NoncePool.mem_allInHalf hs).mp hq
    obtain ⟨w, hw, hmem'⟩ := (NoncePool.mem_allInHalf hs).mp hq'
    have hc := hs.coherent v hv
    have hva := NoncePool.holdsFrom_of_half hc (List.ne_nil_of_mem hmem)
    have hwa := NoncePool.holdsFrom_of_half (hs.coherent w hw) (List.ne_nil_of_mem hmem')
    rw [← hsender] at hwa hmem'
    rw [hs.half_eq_half hw hv hwa hva] at hmem'
    have hget := (NoncePool.held_of_mem_half hc hmem).1
    rw [hhash, (NoncePool.held_of_mem_half hc hmem').1] at hget
    obtain rfl := Option.some.inj hget
    left
    cases side <;> cases side' <;> first
      | rfl
      | exact absurd hmem' (NoncePool.not_mem_queued hc hmem)
      | exact absurd hmem (NoncePool.not_mem_queued hc hmem')
  · exact Or.inr hsender

/-! ## All queries -/

/-- **What the queries say**, for given answers of the execution layer (`PoolCoordinator`). -/
structure Consistent (c : Coordinator NoncePool) (views : Nat → Backend) : Prop where
  /-- The content lists what is held, under its sender, and nothing else. -/
  listed_iff : ∀ a tx,
    (a, tx) ∈ c.listed views .pending ++ c.listed views .queued ↔ tx.sender = a ∧ c.Holds tx
  /-- It lists nothing twice, neither in one half nor in both. -/
  listed_once : (c.listed views .pending ++ c.listed views .queued).Nodup
  has_iff : ∀ hash, c.has hash = true ↔ ∃ tx, c.Holds tx ∧ tx.hash = hash
  /-- What can be executed is what the content says. -/
  pending_eq : c.pending views none = (c.content views).pending
  /-- What given accounts can have executed is the same, restricted to them. -/
  pending_of : ∀ accounts a, (c.pending views (some accounts))[a]?
    = if a ∈ accounts then (c.content views).pending[a]? else none
  /-- What is held of an account is what the content says of it. -/
  contentOf_eq : ∀ a, c.contentOf views a
    = ⟨(c.content views).pending.getD a [], (c.content views).queued.getD a []⟩
  /-- What is not held is not known. -/
  unknown_iff : ∀ hash, c.status views hash = .unknown ↔ c.has hash = false
  /-- What is reported in a half is listed in it. -/
  reported : ∀ side hash, c.status views hash = side.status →
    ∃ a tx, (a, tx) ∈ c.listed views side ∧ tx.hash = hash
  /-- What is listed in a half is reported there, or else the digest of it has
  collided with that of another transaction that is held. -/
  reports : ∀ side a tx, (a, tx) ∈ c.listed views side →
    c.status views tx.hash = side.status ∨ ∃ tx', c.Holds tx' ∧ tx.Collide tx'
  /-- The counts are those of the halves. -/
  stats_eq : c.stats views
    = ⟨(c.listed views .pending).length, (c.listed views .queued).length⟩
  pendingSize_eq : c.pendingSize views = (c.listed views .pending).length
  /-- No sub-pool counts a digest twice, or more of them than it holds. -/
  counts : ∀ (i : Nat) (p : NoncePool), c.pools[i]? = some p →
    (p.pendingHashes (views i)).Nodup ∧ (p.pendingHashes (views i)).length ≤ p.holdings.size
  /-- Visitors are shown what is listed as executable, each once. -/
  shown_perm : (c.executable views).Perm ((c.listed views .pending).map Prod.snd)
  /-- They are shown it sub-pool by sub-pool, and what arrived last comes first. -/
  shown_runs : ∃ runs : List (List Pooled), runs.length = c.pools.length ∧
    c.executable views = runs.flatten.map Pooled.tx ∧
    ∀ (i : Nat) (p : NoncePool) (run : List Pooled), c.pools[i]? = some p → runs[i]? = some run →
      (∀ q ∈ run, p.holdings.get? q.hash = some q) ∧ run.Pairwise fun q q' => q'.seq < q.seq
  /-- Going from one sub-pool to the next is going through all of it. -/
  visit_eq : ∀ {β : Type} (step : β → Transaction → β × Bool) (notes : β),
    visitEach step (fun v => SubPool.executable v.1 v.2) notes (c.viewed views)
      = visit step notes (c.executable views)
  /-- A visitor that always goes on sees all of it, -/
  visit_all : visit (recorder none) [] (c.executable views) = (c.executable views, true)
  /-- and one that declines sees nothing after that. -/
  visit_declined : ∀ {β : Type} (step : β → Transaction → β × Bool) (notes : β) before tx after,
    c.executable views = before ++ tx :: after → (visit step notes before).2 = true →
      (step (visit step notes before).1 tx).2 = false →
        visit step notes (c.executable views) = step (visit step notes before).1 tx

section
variable (h : c.Orderly) (views)
include h

theorem Orderly.mem_listed {a : Address} {tx : Transaction} {side : Half} :
    (a, tx) ∈ c.listed views side
      ↔ tx.sender = a ∧ ∃ q ∈ allInHalf (c.viewed views) side, q.tx = tx := by
  rw [listed, half_content, ((h.separate views).listing_perm side).mem_iff, List.mem_map]
  constructor
  · rintro ⟨q, hq, heq⟩
    obtain ⟨rfl, rfl⟩ := Prod.mk.inj heq
    exact ⟨rfl, q, hq, rfl⟩
  · rintro ⟨rfl, q, hq, rfl⟩
    exact ⟨q, hq, rfl⟩

theorem Orderly.length_listed (side : Half) :
    (c.listed views side).length = (allInHalf (c.viewed views) side).length := by
  rw [listed, half_content, (h.separate views).length_listing]

theorem Orderly.reports {side : Half} {a : Address} {tx : Transaction}
    (hlisted : (a, tx) ∈ c.listed views side) :
    c.status views tx.hash = side.status ∨ ∃ tx', c.Holds tx' ∧ tx.Collide tx' := by
  obtain ⟨_, q, hq, rfl⟩ := (h.mem_listed views).mp hlisted
  have hs := h.separate views
  obtain ⟨v, hv, hget⟩ := hs.held_of_mem hq
  have hhash := ((hs.coherent v hv).hash_eq hget).2
  have hknown : c.status views q.tx.hash ≠ .unknown := by
    intro hunknown
    rw [status_eq_unknown_iff h views, ← Bool.not_eq_true, Coordinator.has_iff] at hunknown
    obtain ⟨i, p, hp, rfl⟩ := mem_viewed.mp hv
    exact hunknown ⟨p, List.mem_of_getElem? hp, q, hhash ▸ hget⟩
  obtain ⟨side', hside'⟩ : ∃ side' : Half, c.status views q.tx.hash = side'.status := by
    cases hstatus : c.status views q.tx.hash with
    | unknown => exact absurd hstatus hknown
    | queued => exact ⟨.queued, rfl⟩
    | pending => exact ⟨.pending, rfl⟩
  -- Whatever is reported is in the same half, or it has another sender.
  obtain ⟨q', hq', hhash'⟩ := exists_of_status h hside'
  rcases eq_or_sender_ne h hq hq' (hhash.symm.trans hhash'.symm) with rfl | hsender
  · exact Or.inl hside'
  · refine Or.inr ⟨q'.tx, (holds_iff h views).mpr ⟨side', q', hq', rfl⟩, fun hpreimage => ?_, ?_⟩
    · exact hsender (Transaction.sender_eq_of_preimage_eq hpreimage)
    · obtain ⟨w, hw, hget'⟩ := hs.held_of_mem hq'
      rw [((hs.coherent w hw).hash_eq hget').2, hhash']

/-- **The queries of sub-pools with nothing in common agree.** -/
theorem Orderly.consistent : c.Consistent views where
  listed_iff a tx := by
    rw [List.mem_append, h.mem_listed, h.mem_listed, holds_iff h views, ← and_or_left]
    refine and_congr_right fun _ => ?_
    constructor
    · rintro (hpending | hqueued)
      · exact ⟨.pending, hpending⟩
      · exact ⟨.queued, hqueued⟩
    · rintro ⟨side, hside⟩
      cases side with
      | pending => exact Or.inl hside
      | queued => exact Or.inr hside
  listed_once := by
    have hs := h.separate views
    rw [listed, listed, half_content, half_content]
    refine List.nodup_append.mpr ⟨hs.nodup_content .pending, hs.nodup_content .queued, ?_⟩
    rintro ⟨a, tx⟩ hpending _ hqueued rfl
    exact hs.not_mem_both hpending hqueued
  has_iff hash := by
    rw [has, List.any_eq_true]
    constructor
    · rintro ⟨p, hp, hsome⟩
      obtain ⟨tx, htx⟩ := Option.isSome_iff_exists.mp hsome
      obtain ⟨i, hi⟩ := List.mem_iff_getElem?.mp hp
      obtain ⟨q, hq, rfl⟩ := Option.map_eq_some_iff.mp htx
      have hhash := ((h.in_order i p hi).tidy.coherent.hash_eq hq).2
      exact ⟨q.tx, ⟨p, hp, hhash.symm ▸ htx⟩, hhash⟩
    · rintro ⟨tx, ⟨p, hp, htx⟩, rfl⟩
      exact ⟨p, hp, by rw [htx]; rfl⟩
  pending_eq := (half_content c views .pending).symm
  pending_of accounts a := by
    have hcontent := half_content c views .pending
    have hlook := (h.separate views).getElem?_content_of accounts .pending a
    rw [← hcontent] at hlook
    exact hlook
  contentOf_eq a := by
    have hside : ∀ side, (c.contentOf views a).half side
        = ((c.content views).half side).getD a [] := by
      intro side
      rw [half_contentOf, half_content, (h.separate views).getD_content]
    exact congr (congrArg AccountContent.mk (hside .pending)) (hside .queued)
  unknown_iff hash := status_eq_unknown_iff h views hash
  reported side hash hstatus := by
    obtain ⟨q, hq, rfl⟩ := exists_of_status h hstatus
    have hs := h.separate views
    obtain ⟨v, hv, hget⟩ := hs.held_of_mem hq
    exact ⟨q.tx.sender, q.tx, (h.mem_listed views).mpr ⟨rfl, q, hq, rfl⟩,
      ((hs.coherent v hv).hash_eq hget).2⟩
  reports side a tx hlisted := h.reports views hlisted
  stats_eq := by
    rw [h.length_listed, h.length_listed, stats, foldl_stats (h.separate views).coherent,
      PoolStats.merge, Nat.zero_add, Nat.zero_add]
  pendingSize_eq := by
    rw [pendingSize, h.length_listed, foldl_pending _ ⟨0, 0⟩,
      foldl_stats (h.separate views).coherent, PoolStats.merge, Nat.zero_add]
  counts i p hp := by
    have hc := (h.in_order i p hp).tidy.coherent
    exact ⟨NoncePool.nodup_pendingHashes hc _, NoncePool.length_pendingHashes_le hc _⟩
  shown_perm := by
    rw [listed, half_content]
    exact (h.separate views).executable_perm
  shown_runs := by
    refine ⟨(c.viewed views).map fun v => v.1.shown v.2, ?_, ?_, fun i p run hp hrun => ?_⟩
    · rw [List.length_map, viewed, List.length_mapIdx]
    · rw [executable, ← List.flatMap_def, List.map_flatMap]
      rfl
    · rw [List.getElem?_map, viewed, List.getElem?_mapIdx, hp] at hrun
      obtain rfl := Option.some.inj hrun
      have hc := (h.in_order i p hp).tidy.coherent
      refine ⟨fun q hq => ?_, NoncePool.pairwise_shown hc _⟩
      exact (Holdings.mem_newestFirst hc).mp (List.mem_filter.mp hq).1
  visit_eq step notes := visitEach_eq_visit _ notes _
  visit_all := visit_recorder_none [] _
  visit_declined step notes before tx after heq hbefore htx := by
    rw [heq]
    exact visit_of_declines hbefore htx

end

/-- **The queries agree and lose nothing**, whatever happened to a coordinator of
new sub-pools and whatever the execution layer answered meanwhile. -/
theorem consistent_of_run (head : Header)
    (specs : List (String × NonceLimits × (Transaction → Bool))) :
    ∃ c₀ : Coordinator NoncePool, start head (freshPools specs) = .running c₀ ∧
      ∀ (actions : List Action) (views : Nat → Backend), (c₀.run actions).Consistent views := by
  obtain ⟨c₀, hstart, horderly, _⟩ := start_freshPools head specs
  exact ⟨c₀, hstart, fun actions views => (horderly.run actions).consistent views⟩

end Coordinator

end TxRelay
