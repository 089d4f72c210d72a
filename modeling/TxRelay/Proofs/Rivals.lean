/-
Transfers that spend the same input.

An offer is measured against its rivals twice: once to see whether it may be let
in, and once more to take them out. Both times they are found through the inputs,
so they are the same, and since they leave room nobody else goes with them. What
spends an input can therefore only be followed by something that pays more, as
long as the input is spent at all.
-/
import TxRelay.Proofs.Placing

set_option autoImplicit false

namespace TxRelay

namespace Mempool

open TransferStore (Coherent)

/-! ## Who is a rival -/

/-- A pooled transfer spends an input of a transfer that is offered. -/
def Rival (p : Mempool) (tx : Transfer) (id : Digest) (e : PooledTransfer) : Prop :=
  p.store.get? id = some e ∧ ∃ input ∈ tx.inputs, input ∈ e.tx.inputs

section
variable {p : Mempool} {b : TransferBackend} {tx : Transfer} {isLocal : Bool} {id : Digest}
  {e : PooledTransfer}

theorem mem_rivals_iff (hc : p.store.Coherent) :
    id ∈ p.store.rivals tx ↔ ∃ e, p.Rival tx id e := by
  rw [TransferStore.mem_rivals]
  constructor
  · rintro ⟨input, hinput, hspends⟩
    obtain ⟨e, he, hown⟩ := hc.spender.mp hspends
    exact ⟨e, he, input, hinput, hown⟩
  · rintro ⟨e, he, input, hinput, hown⟩
    exact ⟨input, hinput, hc.spender.mpr ⟨e, he, hown⟩⟩

/-- The rivals are listed in the order of their ids. -/
theorem pairwise_rivals (s : TransferStore) (tx : Transfer) :
    (s.rivals tx).Pairwise fun id id' => compare id id' = .lt :=
  Std.ExtTreeSet.ordered_toList

theorem outbids_iff {s : TransferStore} (he : s.get? id = some e) :
    outbids s tx id = true ↔ e.issued = false ∧ e.tx.fee < tx.fee := by
  unfold outbids
  rw [he]
  simp

/-- What is left of the check where the chain has no objection. -/
theorem check_of_acceptable {s : TransferStore} (hvalid : b.validate tx = .ok ())
    (hahead : ¬tx.nonce < b.nonce tx.account) :
    check b s tx
      = if (s.rivals tx).all (outbids s tx) then .ok () else .error (.conflict (s.rivals tx)) := by
  unfold check
  rw [hvalid]
  exact if_neg hahead

/-- An eligible transfer outbids all of its rivals. -/
theorem Eligible.outbid (h : p.Eligible b tx) (hc : p.store.Coherent) (hrival : p.Rival tx id e) :
    e.issued = false ∧ e.tx.fee < tx.fee := by
  obtain ⟨hvalid, hahead⟩ := of_check h.passes
  have hpasses := h.passes
  rw [check_of_acceptable hvalid hahead] at hpasses
  split at hpasses
  · next hall =>
    have hmem := (mem_rivals_iff hc).mpr ⟨e, hrival⟩
    exact (outbids_iff hrival.1).mp (List.all_eq_true.mp hall id hmem)
  · cases hpasses

/-- One rival that is not outbid is enough. -/
theorem check_of_rival (hc : p.store.Coherent) (hvalid : b.validate tx = .ok ())
    (hahead : ¬tx.nonce < b.nonce tx.account) (hrival : p.Rival tx id e)
    (hstands : e.issued = true ∨ tx.fee ≤ e.tx.fee) :
    check b p.store tx = .error (.conflict (p.store.rivals tx)) := by
  rw [check_of_acceptable hvalid hahead, if_neg]
  intro hall
  have hmem := (mem_rivals_iff hc).mpr ⟨e, hrival⟩
  obtain ⟨hfree, hless⟩ := (outbids_iff hrival.1).mp (List.all_eq_true.mp hall id hmem)
  rcases hstands with hissued | hle
  · rw [hfree] at hissued
    cases hissued
  · exact UInt64.not_lt.mpr hle hless

/-! ## What an offer does to them -/

/-- **A transfer with rivals** that is let in takes their place and no other. -/
theorem Orderly.get?_add_of_rival (hp : p.Orderly) (hok : (p.add b tx isLocal).2 = .ok ())
    (hrival : p.Rival tx id e) (id' : Digest) :
    (p.add b tx isLocal).1.store.get? id'
      = if tx.id = id' then some (p.store.arriving tx isLocal)
        else if id' ∈ p.store.rivals tx then none else p.store.get? id' := by
  have hmem := (mem_rivals_iff hp.coherent).mpr ⟨e, hrival⟩
  obtain ⟨_, evicted, htaken⟩ := hp.of_ok hok
  generalize (p.add b tx isLocal).1.store = s at htaken ⊢
  cases htaken with
  | entered hroom =>
    show ((p.store.removeAll (p.store.rivals tx)).1.insert tx isLocal).get? id' = _
    rw [TransferStore.get?_insert, hp.coherent.get?_removeAll]
    unfold TransferStore.arriving
    rw [(TransferStore.rest_removeAll p.store _).1]
  | displacing e hrivals hfull hfirst hbefore =>
    rw [hrivals] at hmem
    cases hmem

theorem Orderly.get?_add_iff (hp : p.Orderly) (hok : (p.add b tx isLocal).2 = .ok ())
    (hrival : p.Rival tx id e) (id' : Digest) (e' : PooledTransfer) :
    (p.add b tx isLocal).1.store.get? id' = some e' ↔
      (id' = tx.id ∧ e' = p.store.arriving tx isLocal) ∨
        (p.store.get? id' = some e' ∧ ¬p.Rival tx id' e') := by
  have hfresh := (hp.of_ok hok).1.fresh
  rw [hp.get?_add_of_rival hok hrival]
  constructor
  · intro he'
    split at he'
    · next heq => exact Or.inl ⟨heq.symm, (Option.some.inj he').symm⟩
    · split at he'
      · cases he'
      · next hnot => exact Or.inr ⟨he', fun h => hnot ((mem_rivals_iff hp.coherent).mpr ⟨e', h⟩)⟩
  · rintro (⟨rfl, rfl⟩ | ⟨he', hnot⟩)
    · exact if_pos rfl
    · rw [if_neg, if_neg, he']
      · intro hmem
        obtain ⟨e'', hrival'⟩ := (mem_rivals_iff hp.coherent).mp hmem
        obtain rfl := Option.some.inj (hrival'.1.symm.trans he')
        exact hnot hrival'
      · rintro rfl
        rw [hfresh] at he'
        cases he'

theorem get?_of_not_has (hnew : p.has id = false) : p.store.get? id = none := by
  unfold has at hnew
  rw [TransferStore.contains_eq_isSome, Option.isSome_eq_false_iff, Option.isNone_iff_eq_none] at hnew
  exact hnew

/-- **A transfer that does not outbid a rival** is refused, with the ids of all of
them. -/
theorem Orderly.add_of_rival (hp : p.Orderly) (hnew : p.has tx.id = false)
    (hverdict : p.store.verdicts.peek? tx.id = none) (hvalid : b.validate tx = .ok ())
    (hahead : b.nonce tx.account ≤ tx.nonce) (hrival : p.Rival tx id e)
    (hstands : e.issued = true ∨ tx.fee ≤ e.tx.fee) (isLocal : Bool) :
    (p.add b tx isLocal).2 = .error (.conflict (p.store.rivals tx)) := by
  have hcheck := check_of_rival hp.coherent hvalid (UInt64.not_lt.mpr hahead) hrival hstands
  rw [hp.add_of_check (get?_of_not_has hnew) hverdict hcheck]

/-- **A transfer that outbids all of its rivals**, and has any, is let in. -/
theorem Orderly.ok_of_outbid (hp : p.Orderly) (hnew : p.has tx.id = false)
    (hverdict : p.store.verdicts.peek? tx.id = none) (hvalid : b.validate tx = .ok ())
    (hahead : b.nonce tx.account ≤ tx.nonce) (hrival : p.Rival tx id e)
    (hall : ∀ id e, p.Rival tx id e → e.issued = false ∧ e.tx.fee < tx.fee) (isLocal : Bool) :
    (p.add b tx isLocal).2 = .ok () := by
  have hpasses : check b p.store tx = .ok () := by
    rw [check_of_acceptable hvalid (UInt64.not_lt.mpr hahead), if_pos]
    apply List.all_eq_true.mpr
    intro id' hmem
    obtain ⟨e', hrival'⟩ := (mem_rivals_iff hp.coherent).mp hmem
    exact (outbids_iff hrival'.1).mpr (hall id' e' hrival')
  rcases hp.snd_add_of_eligible ⟨get?_of_not_has hnew, hverdict, hpasses⟩ isLocal with
    hok | ⟨_, hrivals⟩
  · exact hok
  · have hmem := (mem_rivals_iff hp.coherent).mpr ⟨e, hrival⟩
    rw [hrivals] at hmem
    cases hmem

end

/-! ## Who spends an input -/

/-- The pooled transfer that spends an input. -/
def spending? (p : Mempool) (input : Digest) : Option Transfer :=
  (p.store.spenders[input]?).bind p.get?

section
variable {p : Mempool} {input : Digest} {t t' : Transfer}

theorem spending?_eq_some_iff (hc : p.store.Coherent) :
    p.spending? input = some t ↔
      ∃ e, p.store.get? t.id = some e ∧ e.tx = t ∧ input ∈ t.inputs := by
  unfold spending? get?
  rw [Option.bind_eq_some_iff]
  constructor
  · rintro ⟨id, hspends, hget⟩
    obtain ⟨e, he, rfl⟩ := Option.map_eq_some_iff.mp hget
    obtain ⟨e', he', hown⟩ := hc.spender.mp hspends
    obtain rfl := Option.some.inj (he.symm.trans he')
    exact ⟨e, by rw [(hc.id_eq he).2, he], rfl, hown⟩
  · rintro ⟨e, he, rfl, hown⟩
    exact ⟨e.tx.id, hc.spender.mpr ⟨e, he, hown⟩, by rw [he, Option.map_some]⟩

/-- Where no transfer comes in an input keeps its spender, if it has one. -/
theorem spending?_of_all {p' : Mempool} (hc : p.store.Coherent) (hc' : p'.store.Coherent)
    (hold : p'.store.All fun tx => ∃ e, p.store.get? tx.id = some e ∧ e.tx = tx)
    (ht : p.spending? input = some t) (ht' : p'.spending? input = some t') : t' = t := by
  obtain ⟨e, he, rfl, hown⟩ := (spending?_eq_some_iff hc).mp ht
  obtain ⟨e', he', rfl, hown'⟩ := (spending?_eq_some_iff hc').mp ht'
  obtain ⟨e₀, he₀, htx⟩ := hold _ e' he'
  have hown₀ : input ∈ e₀.tx.inputs := by
    rw [htx]
    exact hown'
  have hid := hc.eq_of_input he he₀ hown hown₀
  rw [← hid, he] at he₀
  rw [← htx, ← Option.some.inj he₀]

/-- A transfer that is pooled is pooled under its id. -/
theorem all_pooled (hc : p.store.Coherent) :
    p.store.All fun tx => ∃ e, p.store.get? tx.id = some e ∧ e.tx = tx := by
  intro id e he
  refine ⟨e, ?_, rfl⟩
  rw [(hc.id_eq he).2, he]

/-- **An offer** that changes the spender of an input pays more than the one before. -/
theorem Orderly.spending?_add (hp : p.Orderly) (b : TransferBackend) (tx : Transfer) (isLocal : Bool)
    (ht : p.spending? input = some t) (ht' : (p.add b tx isLocal).1.spending? input = some t') :
    t' = t ∨ t.fee < t'.fee := by
  have hc' := coherent_add hp.coherent b tx isLocal
  cases houtcome : (p.add b tx isLocal).2 with
  | error err =>
    left
    obtain ⟨filter, verdicts, n, hsame⟩ := hp.exists_add_eq_of_error houtcome
    have hall := all_pooled hp.coherent
    apply spending?_of_all hp.coherent hc' ?_ ht ht'
    rw [hsame]
    exact hall
  | ok _ =>
    obtain ⟨e', he', rfl, hown'⟩ := (spending?_eq_some_iff hc').mp ht'
    obtain ⟨e, he, rfl, hown⟩ := (spending?_eq_some_iff hp.coherent).mp ht
    rcases get?_add he' with hold | ⟨htx, _⟩
    · left
      have hid := hp.coherent.eq_of_input he hold hown hown'
      rw [← hid, he] at hold
      rw [← Option.some.inj hold]
    · right
      rw [htx] at hown' ⊢
      exact ((hp.of_ok houtcome).1.outbid hp.coherent ⟨he, input, hown', hown⟩).2

/-- **Whatever is asked of the pool**, an input keeps its spender, loses it or gets one
that pays more. -/
theorem Orderly.spending?_act (hp : p.Orderly) (action : Action) (ht : p.spending? input = some t)
    (ht' : (p.act action).spending? input = some t') : t' = t ∨ t.fee < t'.fee := by
  have hc' := coherent_act hp.coherent action
  have hall := all_pooled hp.coherent
  cases action with
  | add b tx isLocal => exact hp.spending?_add b tx isLocal ht ht'
  | propose max => exact Or.inl (spending?_of_all hp.coherent hc' (all_propose hall max) ht ht')
  | confirm ids =>
    exact Or.inl (spending?_of_all hp.coherent hc' ((within_confirm p ids).all hall) ht ht')
  | rollback ids => exact Or.inl (spending?_of_all hp.coherent hc' (all_rollback hall ids) ht ht')
  | discard id reason =>
    exact Or.inl (spending?_of_all hp.coherent hc' ((within_discard p id reason).all hall) ht ht')

/-- **The fee of what spends an input rises** with every change, as long as something
does. -/
theorem Orderly.spending?_run (hp : p.Orderly) {during : List Action}
    (hspent : ∀ n ≤ during.length, (p.run (during.take n)).spending? input ≠ none)
    (ht : p.spending? input = some t) (ht' : (p.run during).spending? input = some t') :
    t' = t ∨ t.fee < t'.fee := by
  -- By induction over the actions: the first leaves the input with a spender.
  induction during generalizing p t with
  | nil =>
    obtain rfl := Option.some.inj (ht.symm.trans ht')
    exact Or.inl rfl
  | cons action rest ih =>
    have hfirst : (p.act action).spending? input ≠ none := hspent 1 (Nat.succ_le_succ (Nat.zero_le _))
    obtain ⟨t₁, ht₁⟩ := Option.ne_none_iff_exists'.mp hfirst
    have hrest : ∀ n ≤ rest.length, ((p.act action).run (rest.take n)).spending? input ≠ none :=
      fun n hn => hspent (n + 1) (Nat.succ_le_succ hn)
    rcases hp.spending?_act action ht ht₁ with rfl | hless
    · exact ih (hp.act action) hrest ht₁ ht'
    · right
      rcases ih (hp.act action) hrest ht₁ ht' with rfl | hless'
      · exact hless
      · exact UInt64.lt_trans hless hless'

end

/-! ## All of it -/

/-- **How a pool settles who spends an input** (`Mempool::check`). -/
structure SettlesRivalry (p : Mempool) : Prop where
  /-- A transfer is let in only if its rivals were not handed over and pay less, -/
  outbids : ∀ b tx isLocal id e, (p.add b tx isLocal).2 = .ok () → p.Rival tx id e →
    e.issued = false ∧ e.tx.fee < tx.fee
  /-- and if it has any, it comes in for exactly these. -/
  replaces : ∀ b tx isLocal, (p.add b tx isLocal).2 = .ok () → (∃ id e, p.Rival tx id e) →
    ∀ id e, (p.add b tx isLocal).1.store.get? id = some e ↔
      (id = tx.id ∧ e = p.store.arriving tx isLocal) ∨
        (p.store.get? id = some e ∧ ¬p.Rival tx id e)
  /-- If it is new, no verdict on it is remembered and the chain has no objection, one
  rival that stands is enough to refuse it, and all of them are named. -/
  refuses : ∀ b tx isLocal id e, p.has tx.id = false → p.store.verdicts.peek? tx.id = none →
    b.validate tx = .ok () → b.nonce tx.account ≤ tx.nonce → p.Rival tx id e →
      (e.issued = true ∨ tx.fee ≤ e.tx.fee) →
        ∃ ids, (p.add b tx isLocal).2 = .error (.conflict ids) ∧
          (∀ id', id' ∈ ids ↔ ∃ e', p.Rival tx id' e') ∧
          ids.Pairwise fun id' id'' => compare id' id'' = .lt
  /-- If all of its rivals give way, it is let in. -/
  admits : ∀ b tx isLocal, p.has tx.id = false → p.store.verdicts.peek? tx.id = none →
    b.validate tx = .ok () → b.nonce tx.account ≤ tx.nonce → (∃ id e, p.Rival tx id e) →
      (∀ id e, p.Rival tx id e → e.issued = false ∧ e.tx.fee < tx.fee) →
        (p.add b tx isLocal).2 = .ok ()
  /-- What spends an input is the pooled transfer that lists it. -/
  spends : ∀ input t, p.spending? input = some t ↔
    ∃ e, p.store.get? t.id = some e ∧ e.tx = t ∧ input ∈ t.inputs
  /-- Whatever is asked next, it stays, goes or is followed by one that pays more, -/
  changes : ∀ action input t t', p.spending? input = some t →
    (p.act action).spending? input = some t' → t' = t ∨ t.fee < t'.fee
  /-- and so it is over any time in which something spends the input throughout. -/
  rises : ∀ during input t t', (∀ n ≤ during.length, (p.run (during.take n)).spending? input ≠ none) →
    p.spending? input = some t → (p.run during).spending? input = some t' →
      t' = t ∨ t.fee < t'.fee

theorem Orderly.settlesRivalry {p : Mempool} (hp : p.Orderly) : p.SettlesRivalry where
  outbids _ _ _ _ _ hok hrival := (hp.of_ok hok).1.outbid hp.coherent hrival
  replaces _ _ _ hok hrival := by
    obtain ⟨id, e, hrival⟩ := hrival
    exact hp.get?_add_iff hok hrival
  refuses b tx isLocal _ _ hnew hverdict hvalid hahead hrival hstands :=
    ⟨p.store.rivals tx, hp.add_of_rival hnew hverdict hvalid hahead hrival hstands isLocal,
      fun _ => mem_rivals_iff hp.coherent, pairwise_rivals p.store tx⟩
  admits _ _ isLocal hnew hverdict hvalid hahead hrival hall := by
    obtain ⟨id, e, hrival⟩ := hrival
    exact hp.ok_of_outbid hnew hverdict hvalid hahead hrival hall isLocal
  spends _ _ := spending?_eq_some_iff hp.coherent
  changes action _ _ _ ht ht' := hp.spending?_act action ht ht'
  rises _ _ _ _ hspent ht ht' := hp.spending?_run hspent ht ht'

/-- **Rivalry is settled by the fee**, whatever was asked of a pool before, and whoever
listens to it. -/
theorem settlesRivalry_of_run {settings : MempoolSettings} {salts : Nat → Salt} {p : Mempool}
    (hnew : new settings salts = .ok p) (actions : List Action) (bus : Bus) :
    ({ p.run actions with bus } : Mempool).SettlesRivalry :=
  (((orderly_new hnew).run actions).with_bus bus).settlesRivalry

/-- Two transfers that spend the same input. -/
def rivalPair : Transfer × Transfer :=
  ({ (default : Transfer) with fee := 1, inputs := [default] },
    { (default : Transfer) with fee := 2, inputs := [default] })

theorem ids_rivalPair : rivalPair.1.id ≠ rivalPair.2.id := by decide +kernel

section
variable {settings : MempoolSettings} {salts : Nat → Salt} {p : Mempool} {b : TransferBackend}
  {tx tx' : Transfer} {input : Digest} {isLocal : Bool}

/-- A first transfer is a rival of whatever spends an input of it. -/
theorem rival_add_of_new (hnew : new settings salts = .ok p) (hvalid : b.validate tx = .ok ())
    (hahead : ¬tx.nonce < b.nonce tx.account) (hinput : input ∈ tx'.inputs) (hown : input ∈ tx.inputs) :
    (p.add b tx isLocal).1.Rival tx' tx.id ⟨tx, tx.id, isLocal, 0, false⟩ :=
  ⟨by rw [get?_add_of_new hnew hvalid hahead, if_pos rfl], input, hinput, hown⟩

theorem has_add_of_new (hnew : new settings salts = .ok p) (hvalid : b.validate tx = .ok ())
    (hahead : ¬tx.nonce < b.nonce tx.account) (hne : tx.id ≠ tx'.id) :
    (p.add b tx isLocal).1.has tx'.id = false := by
  unfold has
  rw [TransferStore.contains_eq_isSome, get?_add_of_new hnew hvalid hahead, if_neg hne]
  rfl

end

/-- A small pool that was offered the first of them lets the second in for it. -/
theorem settlesRivalry_of_pair :
    ∃ p : Mempool, new .small (fun _ => default) = .ok p ∧
      (p.run ((rivalOffers 1 2).take 1)).SettlesRivalry ∧
      ((p.run ((rivalOffers 1 2).take 1)).add ⟨fun _ => .ok (), fun _ => 0⟩ rivalPair.2 true).2 = .ok () ∧
      (p.run ((rivalOffers 1 2).take 1)).store.get? rivalPair.1.id ≠ none ∧
      (p.run (rivalOffers 1 2)).store.get? rivalPair.1.id = none := by
  obtain ⟨p, hnew⟩ := exists_new_small
  let b : TransferBackend := ⟨fun _ => .ok (), fun _ => 0⟩
  let q := (p.add b rivalPair.1 true).1
  have hsettles : q.SettlesRivalry := settlesRivalry_of_run hnew ((rivalOffers 1 2).take 1) q.bus
  have hahead : ¬rivalPair.1.nonce < b.nonce rivalPair.1.account := by decide
  have hrival : q.Rival rivalPair.2 rivalPair.1.id ⟨rivalPair.1, rivalPair.1.id, true, 0, false⟩ :=
    rival_add_of_new hnew rfl hahead (List.mem_singleton_self _) (List.mem_singleton_self _)
  have hhas : q.has rivalPair.2.id = false := has_add_of_new hnew rfl hahead ids_rivalPair
  have hok : (q.add b rivalPair.2 true).2 = .ok () := by
    apply hsettles.admits b rivalPair.2 true hhas (peek?_add_of_new hnew rfl hahead true _) rfl
      (by decide) ⟨_, _, hrival⟩
    intro id e h
    have hheld := h.1
    rw [get?_add_of_new hnew rfl hahead] at hheld
    split at hheld
    · rw [← Option.some.inj hheld]
      exact ⟨rfl, by decide⟩
    · cases hheld
  refine ⟨p, hnew, hsettles, hok, ?_, ?_⟩
  · show q.store.get? rivalPair.1.id ≠ none
    rw [hrival.1]
    exact nofun
  · show (q.add b rivalPair.2 true).1.store.get? rivalPair.1.id = none
    apply Option.eq_none_iff_forall_ne_some.mpr
    intro e he
    rcases (hsettles.replaces b rivalPair.2 true hok ⟨_, _, hrival⟩ _ e).mp he with
      ⟨hid, _⟩ | ⟨hheld, hnot⟩
    · exact ids_rivalPair hid
    · rw [hrival.1] at hheld
      rw [← Option.some.inj hheld] at hnot
      exact hnot hrival

end Mempool

end TxRelay
