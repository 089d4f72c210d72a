/-
The order in which transfers came in.

A pool lists its transfers by the time of arrival, the latest first, and looks them up
one by one, so that what has gone is passed over. Times of arrival are never changed and
never given out twice: whatever is asked of the pool, what it lets in comes first and
what is left stays in order.
-/
import Mathlib.Data.List.Sort
import TxRelay.Gossip.TransferSet
import TxRelay.Proofs.Eviction

set_option autoImplicit false

namespace TxRelay

namespace TransferStore

/-! ## The list of a store -/

variable {s s' : TransferStore} {arrived : Option PooledTransfer}

/-- The transfers are listed from the newest on. -/
theorem Coherent.pairwise_newestFirst (hc : s.Coherent) :
    s.newestFirst.Pairwise fun e e' => e'.seq < e.seq := by
  unfold newestFirst oldestFirst
  rw [List.pairwise_reverse, List.pairwise_filterMap, Entries.values_eq_map_toList, List.pairwise_map]
  -- Times of arrival are the keys of a map, which lists them in order.
  apply Std.ExtTreeMap.ordered_keys_toList.imp_of_mem
  rintro ⟨n, id⟩ ⟨n', id'⟩ hmem hmem' hlt e he e' he'
  obtain ⟨_, hheld, hseq⟩ := hc.arrival.mp (Std.ExtTreeMap.mem_toList_iff_getElem?_eq_some.mp hmem)
  obtain ⟨_, hheld', hseq'⟩ := hc.arrival.mp (Std.ExtTreeMap.mem_toList_iff_getElem?_eq_some.mp hmem')
  rw [Option.some.inj (he.symm.trans hheld), Option.some.inj (he'.symm.trans hheld'), hseq, hseq']
  exact compareOfLessAndEq_eq_lt.mp hlt

/-- **The list is determined** by what is there and by the times of arrival. -/
theorem Coherent.newestFirst_eq (hc : s.Coherent) {order : List PooledTransfer}
    (hnewest : order.Pairwise fun e e' => e'.seq < e.seq)
    (hmem : ∀ e, e ∈ order ↔ ∃ id, s.get? id = some e) : s.newestFirst = order := by
  have : Std.Irrefl fun e e' : PooledTransfer => e'.seq < e.seq := ⟨fun e => Nat.lt_irrefl e.seq⟩
  have : Std.Antisymm fun e e' : PooledTransfer => e'.seq < e.seq :=
    ⟨fun _ _ hlt hgt => absurd hgt (Nat.lt_asymm hlt)⟩
  apply hc.pairwise_newestFirst.eq_of_mem_iff hnewest
  intro e
  rw [hc.mem_newestFirst, hmem]

/-! ## One step -/

/-- **A step of a store**: what is there afterwards came in with it, later than anything
else, or was there before, and arrived when it did. -/
structure Advances (s s' : TransferStore) (arrived : Option PooledTransfer) : Prop where
  arrives : ∀ e, arrived = some e → s'.get? e.id = some e ∧ s.get? e.id = none ∧ s.nextSeq ≤ e.seq
  keeps : ∀ id e, s'.get? id = some e →
    arrived = some e ∨ ∃ e₀, s.get? id = some e₀ ∧ e₀.tx = e.tx ∧ e₀.seq = e.seq

section
variable (h : Advances s s' arrived) (hc : s.Coherent) (hc' : s'.Coherent)
include h hc hc'

/-- What is left of what was listed. -/
theorem Advances.of_left {e e' : PooledTransfer} (he : e ∈ s.newestFirst)
    (he' : s'.get? e.id = some e') : e'.tx = e.tx ∧ e'.seq = e.seq := by
  obtain ⟨id, hheld⟩ := hc.mem_newestFirst.mp he
  obtain rfl := (hc.id_eq hheld).1
  rcases h.keeps _ e' he' with hnew | ⟨e₀, hheld₀, htx, hseq⟩
  · obtain ⟨_, hnone, _⟩ := h.arrives e' hnew
    rw [(hc'.id_eq he').1, hheld] at hnone
    cases hnone
  · rw [← Option.some.inj (hheld.symm.trans hheld₀)] at htx hseq
    exact ⟨htx.symm, hseq.symm⟩

/-- **After a step** what came in is listed first, and then what is left, in the order
in which it was listed before. -/
theorem Advances.newestFirst_eq :
    s'.newestFirst = arrived.toList ++ s.newestFirst.filterMap fun e => s'.get? e.id := by
  apply hc'.newestFirst_eq
  · rw [List.pairwise_append, List.pairwise_filterMap]
    refine ⟨?_, ?_, ?_⟩
    · cases arrived with
      | none => exact List.Pairwise.nil
      | some e => exact List.pairwise_singleton _ e
    · apply hc.pairwise_newestFirst.imp_of_mem
      intro e e' he he' hlt left hleft left' hleft'
      rw [(h.of_left hc hc' he hleft).2, (h.of_left hc hc' he' hleft').2]
      exact hlt
    · intro e hnew e' hleft
      obtain ⟨e₀, he₀, hheld'⟩ := List.mem_filterMap.mp hleft
      obtain ⟨id, hheld⟩ := hc.mem_newestFirst.mp he₀
      have hlast := (h.arrives e (by simpa using hnew)).2.2
      have hbefore := hc.seq_lt hheld
      rw [(h.of_left hc hc' he₀ hheld').2]
      omega
  · intro e
    rw [List.mem_append, List.mem_filterMap]
    constructor
    · rintro (hnew | ⟨e₀, _, hheld⟩)
      · exact ⟨e.id, (h.arrives e (by simpa using hnew)).1⟩
      · exact ⟨e₀.id, hheld⟩
    · rintro ⟨id, hheld⟩
      rcases h.keeps id e hheld with hnew | ⟨e₀, hheld₀, _, _⟩
      · left
        simpa using hnew
      · right
        refine ⟨e₀, hc.mem_newestFirst.mpr ⟨id, hheld₀⟩, ?_⟩
        rw [(hc.id_eq hheld₀).1, hheld]

/-- So it is for the transfers as such. -/
theorem Advances.map_newestFirst_eq :
    s'.newestFirst.map PooledTransfer.tx = arrived.toList.map PooledTransfer.tx ++
      (s.newestFirst.map PooledTransfer.tx).filter fun tx => s'.contains tx.id := by
  have hleft : ∀ order : List PooledTransfer, (∀ e ∈ order, e ∈ s.newestFirst) →
      (order.filterMap fun e => s'.get? e.id).map PooledTransfer.tx
        = (order.map PooledTransfer.tx).filter fun tx => s'.contains tx.id := by
    intro order hall
    induction order with
    | nil => rfl
    | cons e rest ih =>
      obtain ⟨hmem, hrest⟩ := List.forall_mem_cons.mp hall
      obtain ⟨id, hheld⟩ := hc.mem_newestFirst.mp hmem
      have hid : e.tx.id = e.id := (hc.id_eq hheld).2.trans (hc.id_eq hheld).1.symm
      rw [List.filterMap_cons, List.map_cons, List.filter_cons, contains_eq_isSome, hid, ← ih hrest]
      cases hheld' : s'.get? e.id with
      | none => rfl
      | some e' =>
        have htx := (h.of_left hc hc' hmem hheld').1
        simp [htx]
  rw [h.newestFirst_eq hc hc', List.map_append, hleft s.newestFirst (fun e he => he)]

end

end TransferStore

namespace Mempool

open TransferStore (Coherent Advances)

variable {p : Mempool} {b : TransferBackend} {tx : Transfer} {isLocal : Bool}

/-! ## Whatever is asked -/

/-- What an action lets in. -/
def letIn? (p : Mempool) : Action → Option Transfer
  | .add b tx isLocal =>
    match (p.add b tx isLocal).2 with
    | .ok () => some tx
    | .error _ => none
  | .propose _ | .confirm _ | .rollback _ | .discard _ _ => none

/-- What is taken in arrives last, and the others stay what they are. -/
theorem Takes.advances {maxSize : Nat} {s s' : TransferStore} {evicted : List Digest}
    (h : Takes maxSize s tx isLocal s' evicted) (hnew : s.get? tx.id = none) :
    Advances s s' (some (s.arriving tx isLocal)) := by
  have harrived : s'.get? tx.id = some (s.arriving tx isLocal) ∧
      ∀ id e, s'.get? id = some e → id ≠ tx.id → s.get? id = some e := by
    cases h with
    | entered hroom =>
      have hsame : (s.removeAll (s.rivals tx)).1.arriving tx isLocal = s.arriving tx isLocal := by
        unfold TransferStore.arriving
        rw [(TransferStore.rest_removeAll s _).1]
      have hget : ∀ id, ((s.removeAll (s.rivals tx)).1.insert tx isLocal).refresh.get? id
          = if tx.id = id then some (s.arriving tx isLocal) else (s.removeAll (s.rivals tx)).1.get? id := by
        intro id
        rw [← hsame]
        exact TransferStore.get?_insert _ tx isLocal id
      refine ⟨by rw [hget, if_pos rfl], fun id e he hne => ?_⟩
      rw [hget, if_neg hne.symm] at he
      exact TransferStore.Within.removeAll s _ id e he
    | displacing v hrivals hfull hfirst hbefore =>
      have hiff : ∀ id e, ((s.insert tx isLocal).without v).refresh.get? id = some e ↔ _ :=
        fun id e => TransferStore.get?_insert_without_iff hnew hfirst.held
      refine ⟨(hiff tx.id _).mpr (Or.inl ⟨rfl, rfl⟩), fun id e he hne => ?_⟩
      exact (((hiff id e).mp he).resolve_left fun hsame => hne hsame.1).1
  obtain ⟨hself, hothers⟩ := harrived
  constructor
  · intro e heq
    obtain rfl := Option.some.inj heq
    exact ⟨hself, hnew, Nat.le_refl _⟩
  · intro id e he
    by_cases hid : id = tx.id
    · left
      rw [← hself, ← hid, he]
    · exact Or.inr ⟨e, hothers id e he hid, rfl, rfl⟩

/-- Where nobody is let in, everybody stays as they are. -/
theorem advances_of_within {s s' : TransferStore} (h : s'.Within s) : Advances s s' none where
  arrives _ he := nomatch he
  keeps id e he := Or.inr ⟨e, h id e he, rfl, rfl⟩

/-- Marks make no difference to that. -/
theorem advances_of_marks {s s' : TransferStore} {issued : Bool} {ids : List Digest}
    (hmarks : ∀ id, s'.get? id
      = if id ∈ ids then (s.get? id).map ({ · with issued }) else s.get? id) : Advances s s' none where
  arrives _ he := nomatch he
  keeps id e he := by
    right
    rw [hmarks] at he
    split at he
    · obtain ⟨e₀, he₀, rfl⟩ := Option.map_eq_some_iff.mp he
      exact ⟨e₀, he₀, rfl, rfl⟩
    · exact ⟨e, he, rfl, rfl⟩

/-- **What is asked of a pool** is a step of its store. -/
theorem Orderly.advances_act (hp : p.Orderly) (action : Action) :
    ∃ arrived, Advances p.store (p.act action).store arrived ∧
      arrived.map PooledTransfer.tx = p.letIn? action := by
  cases action with
  | add b tx isLocal =>
    show ∃ arrived, Advances p.store (p.add b tx isLocal).1.store arrived ∧ _
    unfold letIn?
    dsimp only
    cases houtcome : (p.add b tx isLocal).2 with
    | error err =>
      obtain ⟨filter, verdicts, n, hsame⟩ := hp.exists_add_eq_of_error houtcome
      rw [hsame]
      exact ⟨none, advances_of_within (TransferStore.Within.refl p.store), rfl⟩
    | ok _ =>
      obtain ⟨heligible, evicted, htaken⟩ := hp.of_ok houtcome
      exact ⟨_, htaken.advances heligible.fresh, rfl⟩
  | propose max => exact ⟨none, advances_of_marks (TransferStore.get?_issueAll p.store _), rfl⟩
  | confirm ids => exact ⟨none, advances_of_within (within_confirm p ids), rfl⟩
  | rollback ids => exact ⟨none, advances_of_marks (TransferStore.get?_reopenAll p.store ids), rfl⟩
  | discard id reason => exact ⟨none, advances_of_within (within_discard p id reason), rfl⟩

/-- **What is let in is listed first**, before what is left, in the order in which it was
listed. -/
theorem Orderly.newestFirst_act (hp : p.Orderly) (action : Action) :
    (p.act action).newestFirst
      = (p.letIn? action).toList ++ p.newestFirst.filter fun tx => (p.act action).has tx.id := by
  obtain ⟨arrived, hstep, htx⟩ := hp.advances_act action
  have hlist := hstep.map_newestFirst_eq hp.coherent (coherent_act hp.coherent action)
  rw [← Option.toList_map, htx] at hlist
  exact hlist

/-- **How a pool lists its transfers** (`Mempool::iterate`). -/
structure ListsNewest (p : Mempool) : Prop where
  /-- This is the order in which peers are offered them. -/
  items_eq : ∀ b : TransferBackend, GossipSet.items p b = p.store.newestFirst.map PooledTransfer.tx
  /-- What is pooled is listed, under its own id, -/
  get?_iff : ∀ id e, p.store.get? id = some e ↔ e ∈ p.store.newestFirst ∧ e.tx.id = id
  /-- and each of them once, -/
  once : (p.store.newestFirst.map fun e => e.tx.id).Nodup
  /-- by the time of arrival, the latest first. -/
  newest : p.store.newestFirst.Pairwise fun e e' => e'.seq < e.seq
  /-- What is let in next will come first, before what is left of the others. -/
  newestFirst_act : ∀ action, (p.act action).newestFirst
    = (p.letIn? action).toList ++ p.newestFirst.filter fun tx => (p.act action).has tx.id

theorem Orderly.listsNewest (hp : p.Orderly) : p.ListsNewest where
  items_eq _ := rfl
  get?_iff id e := by
    rw [hp.coherent.mem_newestFirst]
    constructor
    · intro he
      exact ⟨⟨id, he⟩, (hp.coherent.id_eq he).2⟩
    · rintro ⟨⟨id', he⟩, rfl⟩
      rw [(hp.coherent.id_eq he).2, he]
  once := by
    unfold List.Nodup
    rw [List.pairwise_map]
    apply hp.coherent.pairwise_newestFirst.imp_of_mem
    intro e e' hmem hmem' hlt heq
    obtain ⟨id, he⟩ := hp.coherent.mem_newestFirst.mp hmem
    obtain ⟨id', he'⟩ := hp.coherent.mem_newestFirst.mp hmem'
    rw [(hp.coherent.id_eq he).2, (hp.coherent.id_eq he').2] at heq
    rw [heq, he'] at he
    rw [Option.some.inj he] at hlt
    exact Nat.lt_irrefl _ hlt
  newest := hp.coherent.pairwise_newestFirst
  newestFirst_act := hp.newestFirst_act

/-! ## A pool with two transfers -/

/-- A transfer is offered through this node's own interface, and one from outside. -/
def twoOffers : List Action := [.add lenient strangers.1 true, .add lenient strangers.2 false]

/-- The second one is listed before the first. -/
theorem newestFirst_twoOffers (hnew : new .small (fun _ => default) = .ok p) :
    (p.run twoOffers).newestFirst = [strangers.2, strangers.1] := by
  let q := (p.add lenient strangers.1 true).1
  have hq : q.Orderly := (orderly_new hnew).add lenient strangers.1 true
  have hahead : ¬strangers.1.nonce < lenient.nonce strangers.1.account := by decide
  have hunopposed : q.Unopposed lenient strangers.2 := unopposed_strangers hnew
  have hroom : q.store.size < q.settings.maxSize := by
    have hsettings : q.settings = .small := (settings_add p lenient strangers.1 true).trans (settings_new hnew)
    have hsize : q.store.size = 1 := by
      unfold TransferStore.size
      rw [entries_add_of_new hnew rfl hahead true]
      rfl
    rw [hsettings, hsize]
    decide
  have hok : (q.add lenient strangers.2 false).2 = .ok () :=
    hq.ok_of_room (hunopposed.eligible hq.coherent) hroom false
  have hheld : q.store.get? strangers.1.id = some ⟨strangers.1, strangers.1.id, true, 0, false⟩ := by
    rw [get?_add_of_new hnew rfl hahead true, if_pos rfl]
  have hstays : (q.add lenient strangers.2 false).1.has strangers.1.id = true := by
    unfold has
    rw [TransferStore.contains_eq_isSome, hq.get?_add_of_held hheld (hunopposed.alone _ _)]
    · rfl
    · rw [hq.coherent.goesBefore_arriving_iff hheld]
      simp
  have hkept : ([strangers.1].filter fun tx => (q.act (.add lenient strangers.2 false)).has tx.id)
      = [strangers.1] := by
    apply List.filter_eq_self.mpr
    intro tx htx
    rw [List.mem_singleton.mp htx]
    exact hstays
  have hlist := hq.newestFirst_act (.add lenient strangers.2 false)
  have hlet : q.letIn? (.add lenient strangers.2 false) = some strangers.2 := by
    unfold letIn?
    dsimp only
    rw [hok]
  have hfirst : q.newestFirst = [strangers.1] := newestFirst_add_of_new hnew rfl hahead true
  rw [hlet, hfirst, hkept] at hlist
  exact hlist

end Mempool

end TxRelay
