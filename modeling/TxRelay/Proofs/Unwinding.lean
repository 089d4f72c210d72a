/-
A coordinator that is not made leaves nothing behind.

If a sub-pool does not take its seat, those that took theirs before it leave them again, the last
one first, and nobody asks what they say to that. No head has been asked for by then, and no loop
follows any. Other sub-pools do not notice: a sub-pool is called only if it is on the list up to
the refusal, and it leaves the table of the new coordinator and no other one.

A sub-pool that is ordered by nonce refuses a seat exactly if it has one. So
those that took their seats were free and are free again, with nothing in them, and one that
refused because it serves another coordinator still does, with all that it holds and all that is
claimed for it.
-/
import TxRelay.Pool.Scripted
import TxRelay.Proofs.Charter
import TxRelay.Proofs.Closing
import TxRelay.Proofs.Resetting
import TxRelay.Proofs.SharedPools

set_option autoImplicit false

namespace TxRelay

open Function (update)

namespace NoncePool

/-! ## One sub-pool -/

/-- **A sub-pool is vacant**: it has no seat and holds nothing. -/
structure Vacant (p : NoncePool) : Prop where
  seat_eq : p.seat = none
  coherent : p.holdings.Coherent
  get?_eq : ∀ hash, p.holdings.get? hash = none

variable {p : NoncePool}

theorem Vacant.isEmpty (h : p.Vacant) : SubPool.IsEmpty p := isEmpty_of_get? h.coherent h.get?_eq

theorem Vacant.senders_eq (h : p.Vacant) : p.holdings.senders = [] := by
  apply List.eq_nil_iff_forall_not_mem.mpr
  intro a ha
  obtain ⟨hash, q, hq, _⟩ := (h.coherent.mem_senders_iff a).mp ha
  rw [h.get?_eq] at hq
  cases hq

/-- The sub-pool on a seat. -/
def seatedAt (p : NoncePool) (seat : Nat) (head : Header) : NoncePool :=
  { p with seat := some seat, head := some head }

theorem attach_of_unseated (hseat : p.seat = none) (seat : Nat) (head : Header) :
    p.attach seat head = (p.seatedAt seat head, .ok ()) := by
  rw [attach, hseat, seatedAt]

theorem attach_of_seated (hseat : p.seat ≠ none) (seat : Nat) (head : Header) :
    p.attach seat head = (p, .error (.attachFailed p.name "already initialised")) := by
  obtain ⟨own, hown⟩ := Option.ne_none_iff_exists'.mp hseat
  rw [attach, hown]

/-- Whatever it held, a sub-pool that leaves its seat is vacant. -/
theorem vacant_detach_seatedAt (p : NoncePool) (seat : Nat) (head : Header) (c : Commons) :
    ((p.seatedAt seat head).detach c).1.Vacant where
  seat_eq := rfl
  coherent := Holdings.Coherent.clear p.holdings
  get?_eq := p.holdings.get?_clear

theorem charter_detach (p : NoncePool) (c : Commons) : (p.detach c).1.charter = p.charter := by
  have hleaves : Becomes (fun _ => True) p (p.detach c).1 := .leaves p c
  exact hleaves.charter_eq

/-- With nothing to give up, it gives everything up. -/
theorem unreleased_detach_seatedAt (h : p.Vacant) (seat : Nat) (head : Header) (c : Commons) :
    ((p.seatedAt seat head).detach c).1.unreleased = p.unreleased := by
  show p.unreleased ++ (c.reservations.releaseAll seat p.holdings.senders).2 = p.unreleased
  rw [h.senders_eq]
  exact List.append_nil _

/-- A vacant sub-pool that takes its seat at a new table is in order there. -/
theorem Vacant.inOrder (h : p.Vacant) (hunreleased : p.unreleased = []) (seat : Nat) (head : Header)
    (poolCount : Nat) : (p.seatedAt seat head).InOrder seat (Reservations.new poolCount) where
  seated := Or.inl rfl
  tidy := by
    constructor
    case coherent => exact h.coherent
    case owner_iff =>
      intro a
      show none = some seat ↔ p.holdings.HoldsFrom a ∨ none = some a
      constructor
      · intro hnone
        cases hnone
      · rintro (⟨hash, q, hq, _⟩ | hfalse)
        · rw [h.get?_eq] at hq
          cases hq
        · cases hfalse
    case unreleased => exact hunreleased

end NoncePool

namespace SharedPools

/-! ## Whatever the sub-pools are -/

section
variable {ι σ : Type} [DecidableEq ι] [SubPool σ]

/-- **What a refusal comes to** (`PoolCoordinator::new`). The list names sub-pools that take their
seats, then the one that refuses, and then some more. -/
structure Unwound (h : SharedPools ι σ) (k : Nat) (head : Header) (before : List ι) (i : ι)
    (rest : List ι) (e : PoolError) : Prop where
  /-- Seats were offered up to the one that was refused, and those before it were left. Nothing
  else was done: new heads were not asked for, and no loop was begun. -/
  acts_eq : (h.construct k head (before ++ i :: rest)).2.1 = (unwinding before.length).map .call
  /-- What is reported is the refusal, with the name of the sub-pool. -/
  outcome_eq : (h.construct k head (before ++ i :: rest)).2.2
    = .error (e.ofAttach (SubPool.name ((refusing h k head before i).pool i)))
  /-- Those that leave have left, whatever they said. -/
  shared_eq : (h.construct k head (before ++ i :: rest)).1
    = (((refusing h k head before i).opened k (before ++ i :: rest).length).dismiss before.reverse).1
  /-- If none is listed twice, this is how starting a coordinator fails. -/
  start_eq : (before ++ i :: rest).Nodup →
    Coordinator.start head ((before ++ i :: rest).map h.pool)
      = .failed (e.ofAttach (SubPool.name ((refusing h k head before i).pool i)))
          ((before ++ i :: rest).map (h.construct k head (before ++ i :: rest)).1.pool)
          (unwinding before.length)
  /-- The one that refused was told to take a seat, and nothing else, -/
  refused_eq : i ∉ before → (h.construct k head (before ++ i :: rest)).1.pool i
    = (SubPool.attach (h.pool i) before.length head).1
  /-- and other sub-pools were told nothing. -/
  pool_eq : ∀ j, j ∉ before → j ≠ i → (h.construct k head (before ++ i :: rest)).1.pool j = h.pool j
  /-- They are where they were, -/
  tableOf_eq : ∀ j, j ∉ before → (h.construct k head (before ++ i :: rest)).1.tableOf j = h.tableOf j
  /-- and the tables of other coordinators are as they were. -/
  tables_eq : ∀ t, t ≠ k → (h.construct k head (before ++ i :: rest)).1.tables t = h.tables t

variable {h : SharedPools ι σ} {k : Nat} {head : Header} {before : List ι} {i : ι} {e : PoolError}

/-- Whoever leaves, leaves once. -/
theorem exists_pool_dismiss (h : SharedPools ι σ) {leaving : List ι} (hnodup : leaving.Nodup) {j : ι}
    (hj : j ∈ leaving) :
    ∃ c, (h.dismiss leaving).1.pool j = (SubPool.detach (h.pool j) c).1 := by
  induction leaving generalizing h with
  | nil => cases hj
  | cons i rest ih =>
    obtain ⟨hi, hrest⟩ := List.nodup_cons.mp hnodup
    rw [dismiss_cons]
    rcases List.mem_cons.mp hj with rfl | hmem
    · refine ⟨h.tables (h.tableOf j), ?_⟩
      rw [pool_dismiss_of_not_mem _ hi, pool_detach, Function.update_self]
    · obtain ⟨c, hc⟩ := ih (h.detach i).1 hrest hmem
      have hne : j ≠ i := by
        rintro rfl
        exact hi hmem
      rw [pool_detach, Function.update_of_ne hne] at hc
      exact ⟨c, hc⟩

theorem tableOf_refusing (hr : h.Refused k head before i e) :
    (refusing h k head before i).tableOf = (seats k head 0 h before).tableOf :=
  tableOf_attach_of_error hr.refused

theorem unwound (hr : h.Refused k head before i e) (rest : List ι) :
    h.Unwound k head before i rest e := by
  have hconstruct := construct_of_refused hr rest
  constructor
  case acts_eq => rw [hconstruct]
  case outcome_eq => rw [hconstruct]
  case shared_eq => rw [hconstruct]
  case start_eq =>
    intro hnodup
    rw [SharedPools.start_eq k hnodup, hconstruct]
    dsimp only
    rw [called_map_call]
  case refused_eq =>
    intro hi
    rw [hconstruct, pool_dismiss_of_not_mem _ (by simpa using hi)]
    show (refusing h k head before i).pool i = _
    rw [refusing, pool_attach, Function.update_self, (seats_of_not_mem h k head 0 hi).1]
  case pool_eq =>
    intro j hj hne
    rw [hconstruct, pool_dismiss_of_not_mem _ (by simpa using hj)]
    show (refusing h k head before i).pool j = _
    rw [refusing, pool_attach_of_ne _ _ _ _ hne, (seats_of_not_mem h k head 0 hj).1]
  case tableOf_eq =>
    intro j hj
    rw [hconstruct, tableOf_dismiss]
    show (refusing h k head before i).tableOf j = _
    rw [tableOf_refusing hr, (seats_of_not_mem h k head 0 hj).2]
  case tables_eq =>
    intro t ht
    rw [hconstruct, tables_dismiss_of_ne]
    · show update (refusing h k head before i).tables k _ t = _
      rw [Function.update_of_ne ht, refusing, tables_attach, tables_seats]
    · -- Those that leave are at the new table.
      intro j hj
      show (refusing h k head before i).tableOf j ≠ t
      rw [tableOf_refusing hr, tableOf_seats hr.willing (List.mem_reverse.mp hj)]
      exact Ne.symm ht

end

/-! ## Sub-pools that are ordered by nonce -/

section
variable {ι : Type} [DecidableEq ι] {h : SharedPools ι NoncePool} {k : Nat} {head : Header} {seat : Nat}
  {listed before : List ι} {i : ι} {e : PoolError}

theorem attach_ok_iff : (h.attach k head seat i).2 = .ok () ↔ (h.pool i).seat = none := by
  rw [attach_eq]
  show ((h.pool i).attach seat head).2 = .ok () ↔ _
  constructor
  · intro hok
    by_contra hseat
    rw [NoncePool.attach_of_seated hseat] at hok
    cases hok
  · intro hseat
    rw [NoncePool.attach_of_unseated hseat]

/-- **Who takes a seat**: all that are free, if none is listed twice. -/
theorem willing_iff :
    Willing k head seat h listed ↔ listed.Nodup ∧ ∀ j ∈ listed, (h.pool j).seat = none := by
  induction listed generalizing seat h with
  | nil => exact ⟨fun _ => ⟨List.nodup_nil, nofun⟩, fun _ => trivial⟩
  | cons i rest ih =>
    rw [Willing, attach_ok_iff, ih, List.nodup_cons, List.forall_mem_cons]
    -- Whoever has taken a seat is not free any more, and so cannot be listed again.
    have hother : ∀ j, j ≠ i → ((h.attach k head seat i).1.pool j).seat = (h.pool j).seat :=
      fun j hne => by rw [pool_attach_of_ne h k head seat hne]
    constructor
    · rintro ⟨hfree, hnodup, hrest⟩
      have hi : i ∉ rest := by
        intro hmem
        have htaken := hrest i hmem
        have hpool : (h.attach k head seat i).1.pool i = ((h.pool i).attach seat head).1 := by
          rw [pool_attach, Function.update_self]
          rfl
        rw [hpool, NoncePool.attach_of_unseated hfree] at htaken
        cases htaken
      refine ⟨⟨hi, hnodup⟩, hfree, fun j hj => ?_⟩
      rw [← hother j fun heq => hi (heq ▸ hj)]
      exact hrest j hj
    · rintro ⟨⟨hi, hnodup⟩, hfree, hrest⟩
      refine ⟨hfree, hnodup, fun j hj => ?_⟩
      rw [hother j fun heq => hi (heq ▸ hj)]
      exact hrest j hj

/-- What those that take seats are like then. -/
theorem pool_seats (hwilling : Willing k head seat h listed) {n : Nat} {j : ι}
    (hj : listed[n]? = some j) :
    (seats k head seat h listed).pool j = (h.pool j).seatedAt (seat + n) head := by
  induction listed generalizing seat h n with
  | nil => cases hj
  | cons i rest ih =>
    obtain ⟨hnodup, hfree⟩ := willing_iff.mp hwilling
    obtain ⟨hi, -⟩ := List.nodup_cons.mp hnodup
    rw [seats]
    cases n with
    | zero =>
      obtain rfl : i = j := Option.some.inj hj
      rw [(seats_of_not_mem _ k head (seat + 1) hi).1, pool_attach, Function.update_self]
      exact congrArg Prod.fst (NoncePool.attach_of_unseated (hfree i List.mem_cons_self) seat head)
    | succ n =>
      have hne : j ≠ i := by
        rintro rfl
        exact hi (List.mem_of_getElem? hj)
      rw [ih hwilling.2 hj, pool_attach_of_ne h k head seat hne,
        show seat + 1 + n = seat + (n + 1) by omega]

/-- **Who refuses a seat**: one that has one, and it says so. -/
theorem Refused.seated (hr : h.Refused k head before i e) :
    (i ∈ before ∨ (h.pool i).seat ≠ none) ∧ e = .attachFailed (h.pool i).name "already initialised" := by
  have hrefused := hr.refused
  rw [attach_eq] at hrefused
  by_cases hi : i ∈ before
  · obtain ⟨n, hn⟩ := List.mem_iff_getElem?.mp hi
    rw [pool_seats hr.willing hn] at hrefused
    exact ⟨Or.inl hi, (Except.error.inj hrefused).symm⟩
  · rw [(seats_of_not_mem h k head 0 hi).1] at hrefused
    have hseat : (h.pool i).seat ≠ none := by
      intro hfree
      have hok : ((h.pool i).attach before.length head).2 = .error e := hrefused
      rw [NoncePool.attach_of_unseated hfree] at hok
      cases hok
    have herror : ((h.pool i).attach before.length head).2 = .error e := hrefused
    rw [NoncePool.attach_of_seated hseat] at herror
    exact ⟨Or.inr hseat, (Except.error.inj herror).symm⟩

/-- **A coordinator can be made** of vacant sub-pools of which none is listed twice. They
are exclusive at its table if they had nothing left to give up. -/
theorem construct_of_vacant (hnodup : listed.Nodup) (hvacant : ∀ j ∈ listed, (h.pool j).Vacant) :
    (h.construct k head listed).2.2 = .ok () ∧ ((∀ j ∈ listed, (h.pool j).unreleased = []) →
      NoncePool.Exclusive (listed.map (h.construct k head listed).1.pool)
        ((h.construct k head listed).1.tables k).reservations) := by
  have hwilling : Willing k head 0 h listed :=
    willing_iff.mpr ⟨hnodup, fun j hj => (hvacant j hj).seat_eq⟩
  rw [construct_of_willing hwilling]
  refine ⟨rfl, fun hunreleased => ?_⟩
  dsimp only
  rw [tables_opened]
  constructor
  case in_order =>
    intro n p hp
    rw [List.getElem?_map] at hp
    obtain ⟨j, hj, rfl⟩ := Option.map_eq_some_iff.mp hp
    have hmem := List.mem_of_getElem? hj
    show ((seats k head 0 h listed).pool j).InOrder n _
    rw [pool_seats hwilling hj, Nat.zero_add]
    exact (hvacant j hmem).inOrder (hunreleased j hmem) n head listed.length
  case owner_lt => exact fun a n howner => by cases howner
  case anomalies_eq => rfl

/-- **What a refusal leaves behind** among sub-pools that are ordered by nonce. -/
structure FreedByRefusal (h : SharedPools ι NoncePool) (k : Nat) (head : Header) (before : List ι)
    (i : ι) (rest : List ι) : Prop where
  /-- The one that refused had a seat, one of these or another. -/
  cause : i ∈ before ∨ (h.pool i).seat ≠ none
  outcome_eq : (h.construct k head (before ++ i :: rest)).2.2
    = .error (.attachFailed (h.pool i).name "already initialised")
  /-- Those before it are free, with nothing in them, and are for what they were for. -/
  vacant : ∀ j ∈ before, ((h.construct k head (before ++ i :: rest)).1.pool j).Vacant ∧
    SubPool.IsEmpty ((h.construct k head (before ++ i :: rest)).1.pool j) ∧
    ((h.construct k head (before ++ i :: rest)).1.pool j).charter = (h.pool j).charter
  /-- Another coordinator can be made of any of them, -/
  reusable : ∀ (k' : Nat) (head' : Header) (others : List ι), others.Nodup →
    (∀ j ∈ others, j ∈ before) →
      ((h.construct k head (before ++ i :: rest)).1.construct k' head' others).2.2 = .ok ()
  /-- and they are exclusive there if they had been vacant from the first. -/
  exclusive : ∀ (k' : Nat) (head' : Header) (others : List ι), others.Nodup →
    (∀ j ∈ others, j ∈ before) → (∀ j ∈ others, (h.pool j).Vacant ∧ (h.pool j).unreleased = []) →
      NoncePool.Exclusive
        (others.map ((h.construct k head (before ++ i :: rest)).1.construct k' head' others).1.pool)
        (((h.construct k head (before ++ i :: rest)).1.construct k' head' others).1.tables k').reservations
  /-- Whoever is not among them is as it was, where it was, -/
  pool_eq : ∀ j, j ∉ before → (h.construct k head (before ++ i :: rest)).1.pool j = h.pool j ∧
    (h.construct k head (before ++ i :: rest)).1.tableOf j = h.tableOf j
  /-- so in particular whoever had a seat: that is as it was, and so is all that is claimed at the
  table, if it is not the new one. -/
  serving : ∀ j, (h.pool j).seat ≠ none → (h.construct k head (before ++ i :: rest)).1.pool j = h.pool j ∧
    (h.construct k head (before ++ i :: rest)).1.tableOf j = h.tableOf j ∧
    (h.tableOf j ≠ k →
      (h.construct k head (before ++ i :: rest)).1.tables (h.tableOf j) = h.tables (h.tableOf j))

/-- What those before a refusal have come to: they took seats, and left them. -/
theorem exists_pool_construct (hr : h.Refused k head before i e) (rest : List ι) {j : ι}
    (hj : j ∈ before) : ∃ seat c, (h.construct k head (before ++ i :: rest)).1.pool j
      = (((h.pool j).seatedAt seat head).detach c).1 := by
  obtain ⟨hnodup, -⟩ := willing_iff.mp hr.willing
  obtain ⟨n, hn⟩ := List.mem_iff_getElem?.mp hj
  -- The one that refused may be one of these, but it refused, and was left alone.
  have hseated : (refusing h k head before i).pool j = (h.pool j).seatedAt n head := by
    have hpool := pool_seats hr.willing hn
    rw [Nat.zero_add] at hpool
    rw [refusing, pool_attach]
    by_cases hne : j = i
    · subst hne
      rw [Function.update_self, hpool]
      rfl
    · rw [Function.update_of_ne hne, hpool]
  obtain ⟨c, hc⟩ := exists_pool_dismiss
    ((refusing h k head before i).opened k (before ++ i :: rest).length)
    ((List.reverse_perm before).nodup_iff.mpr hnodup) (List.mem_reverse.mpr hj)
  refine ⟨n, c, ?_⟩
  rw [construct_of_refused hr, hc]
  exact congrArg (fun p : NoncePool => (p.detach c).1) hseated

theorem freedByRefusal (hr : h.Refused k head before i e) (rest : List ι) :
    h.FreedByRefusal k head before i rest := by
  have hunwound := unwound hr rest
  obtain ⟨hcause, rfl⟩ := hr.seated
  have hvacant : ∀ j ∈ before, ((h.construct k head (before ++ i :: rest)).1.pool j).Vacant := by
    intro j hj
    obtain ⟨seat, c, hpool⟩ := exists_pool_construct hr rest hj
    rw [hpool]
    exact (h.pool j).vacant_detach_seatedAt seat head c
  have hpool : ∀ j, j ∉ before → (h.construct k head (before ++ i :: rest)).1.pool j = h.pool j := by
    intro j hj
    by_cases hne : j = i
    · subst hne
      have hseat := hcause.resolve_left hj
      rw [hunwound.refused_eq hj]
      exact congrArg Prod.fst (NoncePool.attach_of_seated hseat before.length head)
    · exact hunwound.pool_eq j hj hne
  constructor
  case cause => exact hcause
  case outcome_eq => exact hunwound.outcome_eq
  case vacant =>
    intro j hj
    refine ⟨hvacant j hj, (hvacant j hj).isEmpty, ?_⟩
    obtain ⟨seat, c, hleft⟩ := exists_pool_construct hr rest hj
    rw [hleft, NoncePool.charter_detach]
    rfl
  case reusable =>
    intro k' head' others hnodup hothers
    exact (construct_of_vacant hnodup fun j hj => hvacant j (hothers j hj)).1
  case exclusive =>
    intro k' head' others hnodup hothers hspare
    apply (construct_of_vacant hnodup fun j hj => hvacant j (hothers j hj)).2
    intro j hj
    obtain ⟨hfree, hunreleased⟩ := hspare j hj
    obtain ⟨seat, c, hleft⟩ := exists_pool_construct hr rest (hothers j hj)
    rw [hleft, NoncePool.unreleased_detach_seatedAt hfree, hunreleased]
  case pool_eq => exact fun j hj => ⟨hpool j hj, hunwound.tableOf_eq j hj⟩
  case serving =>
    intro j hseat
    have hj : j ∉ before := fun hmem => hseat ((willing_iff.mp hr.willing).2 j hmem)
    exact ⟨hpool j hj, hunwound.tableOf_eq j hj, hunwound.tables_eq _⟩

end

/-! ## Every refusal -/

/-- **A refusal is unwound.** If a sub-pool is the first on a list that does not take its seat,
no coordinator is made, those before it leave their seats in reverse order whatever they say,
and everything else is as it was. Sub-pools that are ordered by nonce are free for another
coordinator then, or serve the one that they served. -/
theorem unwound_of_refused {ι : Type} [DecidableEq ι] (k : Nat) (head : Header) (before : List ι)
    (i : ι) (rest : List ι) (e : PoolError) :
    (∀ (σ : Type) [SubPool σ] (h : SharedPools ι σ), h.Refused k head before i e →
        h.Unwound k head before i rest e) ∧
      ∀ h : SharedPools ι NoncePool, h.Refused k head before i e →
        h.FreedByRefusal k head before i rest :=
  ⟨fun _ _ _ hr => unwound hr rest, fun _ hr => freedByRefusal hr rest⟩

/-- Sub-pools that refuse every seat from a given index on, and never leave without an error. -/
def unhelpful (first : Nat) : SharedPools Nat ScriptedPool where
  pool j :=
    { name := "scripted", kinds := [], attachError := if j < first then none else some .closed
      detachError := some .full, breaksOff := false, silent := false, nonce := 0, status := .unknown
      locals := [], held := [] }
  tableOf _ := 0
  tables _ := ⟨Reservations.new 0, Bus.new Bus.standardCapacity⟩

/-- Sub-pools of which the third one serves the first coordinator. -/
def partlyServing (serving : NoncePool × Commons) : SharedPools Nat NoncePool where
  pool j := if j = 2 then serving.1 else NoncePool.ofKinds "pool" .small [.legacy]
  tableOf _ := 0
  tables _ := serving.2

theorem refused_third {serving : NoncePool × Commons} (hseat : serving.1.seat ≠ none) :
    (partlyServing serving).Refused 1 .genesis [0, 1] 2
      (.attachFailed serving.1.name "already initialised") := by
  refine ⟨⟨rfl, rfl, trivial⟩, ?_⟩
  have hkept := (seats_of_not_mem (partlyServing serving) 1 .genesis 0
    (by decide : 2 ∉ [0, 1])).1
  rw [attach_eq, hkept]
  exact congrArg Prod.snd (NoncePool.attach_of_seated hseat 2 .genesis)

theorem kept_third {serving : NoncePool × Commons} (hseat : serving.1.seat ≠ none)
    (hfreed : (partlyServing serving).FreedByRefusal 1 .genesis [0, 1] 2 [3]) :
    ((partlyServing serving).construct 1 .genesis [0, 1, 2, 3]).1.pool 2 = serving.1 ∧
      ((partlyServing serving).construct 1 .genesis [0, 1, 2, 3]).1.tables 0 = serving.2 := by
  obtain ⟨hpool, _, htables⟩ := hfreed.serving 2 hseat
  exact ⟨hpool, htables nofun⟩

/-- A sub-pool has the name it was given, whatever it has taken in since, -/
theorem name_alone (limits : NonceLimits) (b : Backend) (txs : List Transaction) :
    (NoncePool.alone limits b txs).1.name = "" := by
  let seated := ((NoncePool.new "" limits fun _ => true).attach 0 default).1
  have hbecomes : NoncePool.Becomes (fun _ => True) seated (NoncePool.alone limits b txs).1 :=
    .takesIn seated b ⟨Reservations.new 1, Bus.new Bus.standardCapacity⟩ txs false
      fun _ _ => trivial
  exact congrArg Prod.fst hbecomes.charter_eq

/-- and it has the senders of what it holds. -/
theorem owner_of_get? {p : NoncePool} {c : Commons} {seat : Nat} (h : NoncePool.Reached p c)
    (hseat : p.seat = some seat) {hash : Digest} {tx : Transaction}
    (hheld : (p.holdings.get? hash).map Pooled.tx = some tx) :
    c.reservations.owner? tx.sender = some seat := by
  obtain ⟨q, hq, rfl⟩ := Option.map_eq_some_iff.mp hheld
  exact ((h.inLine.in_order seat hseat).tidy.owner_iff _).mpr (Or.inl ⟨hash, q, hq, rfl⟩)

/-- Two sub-pools take their seats, the third one refuses, and a fourth one would have. If the
third one holds two transactions and has their sender, it still does. -/
theorem unwound_of_third :
    ((unhelpful 2).Refused 1 .genesis [0, 1] 2 .closed ∧
        (unhelpful 2).Unwound 1 .genesis [0, 1] 2 [3] .closed) ∧
      let before := partlyServing NoncePool.holdingTwo
      before.Refused 1 .genesis [0, 1] 2 (.attachFailed "" "already initialised") ∧
        before.FreedByRefusal 1 .genesis [0, 1] 2 [3] ∧
        let left := (before.construct 1 .genesis [0, 1, 2, 3]).1
        ((left.pool 2).holdings.get? (default : Transaction).hash).map Pooled.tx = some default ∧
          ((left.pool 2).holdings.get? PoolSet.second.hash).map Pooled.tx = some PoolSet.second ∧
          (left.tables 0).reservations.owner? (default : Transaction).sender = some 0 := by
  have hscripted : (unhelpful 2).Refused 1 .genesis [0, 1] 2 .closed := ⟨⟨rfl, rfl, trivial⟩, rfl⟩
  refine ⟨⟨hscripted, (unwound_of_refused 1 .genesis [0, 1] 2 [3] .closed).1 _ _ hscripted⟩, ?_⟩
  obtain ⟨hseat, hfirst, hsecond⟩ := NoncePool.holds_holdingTwo
  have hseated : NoncePool.holdingTwo.1.seat ≠ none := by
    rw [hseat]
    nofun
  have hreached : NoncePool.Reached NoncePool.holdingTwo.1 NoncePool.holdingTwo.2 :=
    NoncePool.reached_alone _ _ _
  have hname : NoncePool.holdingTwo.1.name = "" := name_alone _ _ _
  have hclaimed := owner_of_get? hreached hseat hfirst
  have hrefused := refused_third hseated
  rw [hname] at hrefused
  have hfreed := (unwound_of_refused 1 .genesis [0, 1] 2 [3] _).2 _ hrefused
  obtain ⟨hpool, htable⟩ := kept_third hseated hfreed
  refine ⟨hrefused, hfreed, ?_⟩
  dsimp only
  rw [hpool, htable]
  exact ⟨hfirst, hsecond, hclaimed⟩

end SharedPools

end TxRelay
