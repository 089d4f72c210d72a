/-
An offer that is refused: what `Mempool::add` leaves behind.

Whether a transfer finds its place is known only after its rivals have been taken
out and the pool has evicted whoever is too many. Yet a refusal leaves the transfers
as they were: where rivals have gone there is room, so whoever is turned away had
none, and was itself the only one to be evicted. What a refusal does leave behind are
a verdict, a trace in the filter and a time of arrival that was used up. The latter
two cannot be told from what is handed to block assembly later on. The verdict can:
while it is remembered the transfer is refused again, also when nothing else stands
against it any more (`exists_moved`).
-/
import TxRelay.Proofs.Renumbering
import TxRelay.Proofs.Rivals

set_option autoImplicit false

namespace TxRelay

/-- A map remembers what is put in. -/
theorem Lru.peek?_put_self {κ ν : Type} [DecidableEq κ] {m : Lru κ ν} (hroom : 0 < m.capacity) (k : κ)
    (v : ν) : (m.put k v).peek? k = some v := by
  unfold put peek?
  obtain ⟨n, hn⟩ := Nat.exists_eq_add_of_lt hroom
  rw [hn, List.take_succ_cons, List.find?_cons_of_pos (by simp)]
  rfl

namespace TransferStore

variable {s : TransferStore}

/-- The times of arrival from a given one on, moved. -/
def shift (k d n : Nat) : Nat := if n < k then n else n + d

/-- **A time of arrival that is used up** moves the ones to come. -/
theorem Coherent.renumbered_of_skip (hc : s.Coherent) {filter : Bloom.RollingFilter}
    {verdicts : Lru Digest String} {d : Nat}
    (hc' : ({ s with filter, verdicts, nextSeq := s.nextSeq + d } : TransferStore).Coherent) :
    s.Renumbered (shift s.nextSeq d)
      { s with filter, verdicts, nextSeq := s.nextSeq + d } where
  coherent := hc
  coherent' := hc'
  mono {m n} hlt := by
    unfold shift
    split <;> split <;> omega
  next n := by
    show shift s.nextSeq d (s.nextSeq + n) = s.nextSeq + d + n
    unfold shift
    rw [if_neg (by omega)]
    omega
  get?_eq id := by
    show s.get? id = (s.get? id).map _
    cases he : s.get? id with
    | none => rfl
    | some e =>
      -- What is there has arrived before.
      have hseq : shift s.nextSeq d e.seq = e.seq := if_pos (hc.seq_lt he)
      rw [Option.map_some, PooledTransfer.renumber, hseq]

end TransferStore

namespace Mempool

open TransferStore (Coherent)

variable {p : Mempool} {b : TransferBackend} {tx : Transfer} {isLocal : Bool} {e : MempoolError}

/-- After a refusal the times of arrival to come are moved, at most. -/
theorem Orderly.renumbered_add_of_error (hp : p.Orderly) (herror : (p.add b tx isLocal).2 = .error e) :
    ∃ f, p.Renumbered f (p.add b tx isLocal).1 := by
  have hc' := coherent_add hp.coherent b tx isLocal
  obtain ⟨filter, verdicts, d, hsame⟩ := hp.exists_add_eq_of_error herror
  rw [hsame] at hc' ⊢
  exact ⟨_, rfl, hp.coherent.renumbered_of_skip hc'⟩

/-- Nothing is remembered about a transfer that is pooled, or for which there is no
room. -/
theorem Orderly.verdicts_add_of_error (hp : p.Orderly) (herror : (p.add b tx isLocal).2 = .error e)
    (hmemorable : e = .full ∨ e = .duplicate tx.id) :
    (p.add b tx isLocal).1.store.verdicts = p.store.verdicts := by
  have hoffering := hp.offering b tx isLocal
  generalize p.add b tx isLocal = result at hoffering herror ⊢
  cases hoffering with
  | known e' he' => rfl
  | remembered reason hnew hverdict =>
    rw [← Except.error.inj herror] at hmemorable
    simp at hmemorable
  | unfit err hnew hverdict hcheck =>
    have hworth := isMemorable_of_check hcheck
    rw [Except.error.inj herror] at hworth
    rcases hmemorable with rfl | rfl
    · cases hworth
    · cases hworth
  | turnedAway h hrivals hfull hlast => rfl
  | letIn s evicted h htaken => cases herror

/-- **A transfer for which there is no room** has no rivals, and is the only one that
is evicted. -/
theorem Orderly.evicted_of_full (hp : p.Orderly) (hfull : (p.add b tx isLocal).2 = .error .full) :
    p.store.rivals tx = [] ∧ (place p.settings.maxSize p.store tx isLocal).2 = [tx.id] := by
  have hoffering := hp.offering b tx isLocal
  generalize p.add b tx isLocal = result at hoffering hfull
  cases hoffering with
  | known e he => cases hfull
  | remembered reason hnew hverdict => cases hfull
  | unfit err hnew hverdict hcheck =>
    have hworth := isMemorable_of_check hcheck
    rw [Except.error.inj hfull] at hworth
    cases hworth
  | turnedAway h hrivals hsize hlast =>
    refine ⟨hrivals, ?_⟩
    have hplaced := placing_place hp.coherent h.fresh hp.size_le isLocal
    generalize place p.settings.maxSize p.store tx isLocal = placed at hplaced ⊢
    cases hplaced with
    | taken s evicted htaken =>
      cases htaken with
      | entered hroom =>
        rw [hrivals] at hroom
        have hroom : p.store.size < p.settings.maxSize := hroom
        omega
      | displacing e _ _ hfirst hbefore =>
        exact absurd hbefore (hlast e hfirst.held hfirst.free).asymm
    | turnedAway _ _ _ => rfl
  | letIn s evicted h htaken => cases hfull

/-- **A pool that refused a transfer** (`Mempool::add`), before and after. -/
structure Unmoved (p p' : Mempool) (tx : Transfer) (isLocal : Bool) (e : MempoolError) : Prop where
  /-- The transfers with their marks and times of arrival, the order of eviction, the
  order of arrival and the spenders are what they were, and nothing was announced. -/
  same : ∃ filter verdicts nextSeq,
    p' = { p with store := { p.store with filter, verdicts, nextSeq } }
  /-- If there was no room, nobody was taken out but the newcomer. -/
  full : e = .full →
    p.store.rivals tx = [] ∧ (place p.settings.maxSize p.store tx isLocal).2 = [tx.id]
  /-- The same transfers are handed to block assembly as before, -/
  propose_eq : ∀ max, (p'.propose max).2 = (p.propose max).2
  /-- and whatever is asked from now on, the same as if there had been no offer, as
  long as for each transfer that is offered either both pools remember a verdict or neither
  does. Without that it fails (`exists_moved`). -/
  proposes : ∀ later, SameView p p' later →
    ∀ max, ((p'.run later).propose max).2 = ((p.run later).propose max).2
  /-- They make none if nothing else is offered, or if the transfer was pooled already
  or did not find room. -/
  sameView : ∀ later, (∀ action ∈ later, ∀ b tx isLocal, action ≠ .add b tx isLocal) ∨
    e = .full ∨ e = .duplicate tx.id → SameView p p' later

theorem Orderly.unmoved (hp : p.Orderly) (herror : (p.add b tx isLocal).2 = .error e) :
    p.Unmoved (p.add b tx isLocal).1 tx isLocal e := by
  obtain ⟨f, hrenumbered⟩ := hp.renumbered_add_of_error herror
  refine ⟨?_, ?_, hrenumbered.propose_eq, ?_, ?_⟩
  · obtain ⟨filter, verdicts, n, hsame⟩ := hp.exists_add_eq_of_error herror
    exact ⟨filter, verdicts, _, hsame⟩
  · rintro rfl
    exact hp.evicted_of_full herror
  · intro later hview max
    exact (hrenumbered.run hview).propose_eq max
  · rintro later (hnone | hmemorable)
    · exact sameView_of_no_offers _ _ hnone
    · exact hrenumbered.sameView (hp.verdicts_add_of_error herror hmemorable) later

/-- **A refusal leaves a pool unmoved**, whatever was asked of it before, whoever
listens to it and for whatever reason it refuses. -/
theorem unmoved_of_run {settings : MempoolSettings} {salts : Nat → Salt}
    (hnew : new settings salts = .ok p) (actions : List Action) (bus : Bus)
    (herror : (({ p.run actions with bus } : Mempool).add b tx isLocal).2 = .error e) :
    ({ p.run actions with bus } : Mempool).Unmoved
      (({ p.run actions with bus } : Mempool).add b tx isLocal).1 tx isLocal e :=
  (((orderly_new hnew).run actions).with_bus bus).unmoved herror

/-- A small pool that holds the second of two rivals refuses the first. -/
theorem unmoved_of_pair :
    ∃ p : Mempool, new .small (fun _ => default) = .ok p ∧
      ∃ ids, ((p.run ((rivalOffers 2 1).take 1)).add ⟨fun _ => .ok (), fun _ => 0⟩ rivalPair.1 true).2
          = .error (.conflict ids) ∧
        (p.run ((rivalOffers 2 1).take 1)).Unmoved (p.run (rivalOffers 2 1)) rivalPair.1 true
          (.conflict ids) := by
  obtain ⟨p, hnew⟩ := exists_new_small
  let b : TransferBackend := ⟨fun _ => .ok (), fun _ => 0⟩
  let q := (p.add b rivalPair.2 true).1
  have hahead : ¬rivalPair.2.nonce < b.nonce rivalPair.2.account := by decide
  have hrival : q.Rival rivalPair.1 rivalPair.2.id ⟨rivalPair.2, rivalPair.2.id, true, 0, false⟩ :=
    rival_add_of_new hnew rfl hahead (List.mem_singleton_self _) (List.mem_singleton_self _)
  have herror : (q.add b rivalPair.1 true).2 = .error (.conflict (q.store.rivals rivalPair.1)) := by
    apply ((orderly_new hnew).add b rivalPair.2 true).add_of_rival
      (has_add_of_new hnew rfl hahead ids_rivalPair.symm) (peek?_add_of_new hnew rfl hahead true _) rfl
      (by decide) hrival (Or.inr (by decide))
  exact ⟨p, hnew, _, herror, unmoved_of_run hnew ((rivalOffers 2 1).take 1) q.bus herror⟩

/-- The second of two rivals goes into a block, and the first is offered once more. -/
def offeredAgain : List Action :=
  [.confirm [rivalPair.2.id], .add ⟨fun _ => .ok (), fun _ => 0⟩ rivalPair.1 true]

/-- Confirming what is alone in a pool leaves it empty. -/
theorem get?_confirm_of_alone (hc : p.store.Coherent) {id : Digest}
    (halone : ∀ id', id ≠ id' → p.store.get? id' = none) (id' : Digest) :
    (p.confirm [id]).1.store.get? id' = none := by
  show (p.store.removeAll [id]).1.get? id' = none
  rw [hc.get?_removeAll]
  split
  · rfl
  · next hne => exact halone id' fun heq => hne (List.mem_singleton.mpr heq.symm)

theorem entries_confirm_of_alone (hc : p.store.Coherent) {id : Digest}
    (halone : ∀ id', id ≠ id' → p.store.get? id' = none) : (p.confirm [id]).1.store.entries = ∅ :=
  Std.ExtTreeMap.ext_getElem? fun id' => get?_confirm_of_alone hc halone id'

/-- What is remembered about refused transfers outlasts a block. -/
theorem verdicts_confirm (p : Mempool) (ids : List Digest) :
    (p.confirm ids).1.store.verdicts = p.store.verdicts := (TransferStore.rest_removeAll p.store ids).2

/-- When what was alone in a pool is in a block, a transfer on which no verdict is remembered
comes in and is handed over. -/
theorem Orderly.propose_of_unjudged (hp : p.Orderly) {id : Digest}
    (halone : ∀ id', id ≠ id' → p.store.get? id' = none)
    (hunjudged : p.store.verdicts.peek? tx.id = none) (hvalid : b.validate tx = .ok ())
    (hahead : ¬tx.nonce < b.nonce tx.account) (hroom : 0 < p.settings.maxSize) :
    (((p.confirm [id]).1.add b tx true).1.propose 1).2 = [tx] := by
  -- The block has taken the only entry: nobody is a rival, and there is room.
  have hnone := get?_confirm_of_alone hp.coherent halone
  have hentries := entries_confirm_of_alone hp.coherent halone
  have hrivals : (p.confirm [id]).1.store.rivals tx = [] := by
    apply rivals_eq_nil (coherent_confirm hp.coherent [id])
    intro id' e he
    rw [hnone id'] at he
    cases he
  have hforgotten : (p.confirm [id]).1.store.verdicts.peek? tx.id = none := by
    rw [verdicts_confirm]
    exact hunjudged
  have hsize : (p.confirm [id]).1.store.size < (p.confirm [id]).1.settings.maxSize := by
    rw [TransferStore.size, hentries]
    exact hroom
  have hstore := store_add_of_room (hnone tx.id) (verdict_of_none hforgotten) hvalid
    hahead hrivals hsize true
  apply propose_of_entries_eq (e := (p.confirm [id]).1.store.arriving tx true) rfl ?_ 0
  rw [hstore]
  show (p.confirm [id]).1.store.entries.insert tx.id ((p.confirm [id]).1.store.arriving tx true) = _
  rw [hentries]
  rfl

/-- One on which a verdict is remembered does not come in, and there is nothing to hand over. -/
theorem Orderly.propose_of_judged (hp : p.Orderly) {id : Digest}
    (halone : ∀ id', id ≠ id' → p.store.get? id' = none) {reason : String}
    (hjudged : p.store.verdicts.peek? tx.id = some reason) (b : TransferBackend) :
    (((p.confirm [id]).1.add b tx true).1.propose 1).2 = [] := by
  have hnone := get?_confirm_of_alone hp.coherent halone
  have hremembered : (p.confirm [id]).1.store.verdicts.peek? tx.id = some reason := by
    rw [verdicts_confirm]
    exact hjudged
  have hconfirmed : (p.confirm [id]).1.Orderly := hp.act (.confirm [id])
  rw [hconfirmed.add_of_peek? (hnone tx.id) hremembered b true]
  apply List.eq_nil_iff_forall_not_mem.mpr
  intro t ht
  obtain ⟨e, he, _⟩ := of_mem_proposed ((coherent_confirm hp.coherent [id]).verdict tx.id) ht
  cases he.symm.trans (hnone t.id)

/-- **A verdict makes a difference** to what block assembly is handed: of two small pools that
hold the second of two rivals one refuses the first. When the rival is in a block, the
first is offered to both of them: the pool that has not seen it hands it over, the other one has
nothing to hand over. -/
theorem exists_moved :
    ∃ p : Mempool, new .small (fun _ => default) = .ok p ∧
      (∃ ids, ((p.run ((rivalOffers 2 1).take 1)).add ⟨fun _ => .ok (), fun _ => 0⟩ rivalPair.1
        true).2 = .error (.conflict ids)) ∧
      (((p.run ((rivalOffers 2 1).take 1)).run offeredAgain).propose 1).2 = [rivalPair.1] ∧
      (((p.run (rivalOffers 2 1)).run offeredAgain).propose 1).2 = [] := by
  obtain ⟨p, hnew⟩ := exists_new_small
  let b : TransferBackend := ⟨fun _ => .ok (), fun _ => 0⟩
  let q := (p.add b rivalPair.2 true).1
  have hahead : ¬rivalPair.2.nonce < b.nonce rivalPair.2.account := by decide
  have hq : q.Orderly := (orderly_new hnew).add b rivalPair.2 true
  have hrival : q.Rival rivalPair.1 rivalPair.2.id ⟨rivalPair.2, rivalPair.2.id, true, 0, false⟩ :=
    rival_add_of_new hnew rfl hahead (List.mem_singleton_self _) (List.mem_singleton_self _)
  have hunjudged : q.store.verdict rivalPair.1.id = (q.store, none) :=
    verdict_add_of_new hnew rfl hahead true _
  have halone : ∀ id, rivalPair.2.id ≠ id → q.store.get? id = none := by
    intro id hne
    exact (get?_add_of_new hnew rfl hahead true id).trans (if_neg hne)
  let reason := (MempoolError.conflict (q.store.rivals rivalPair.1)).message
  have hrefused : q.add b rivalPair.1 true
      = ({ q with store := q.store.remember rivalPair.1.id reason },
          .error (.conflict (q.store.rivals rivalPair.1))) := by
    apply hq.add_of_check (halone _ ids_rivalPair.symm) (congrArg Prod.snd hunjudged)
    exact check_of_rival hq.coherent rfl (by decide) hrival (Or.inr (by decide))
  refine ⟨p, hnew, ⟨_, congrArg Prod.snd hrefused⟩, ?_, ?_⟩
  · have hroom : 0 < q.settings.maxSize := by
      rw [settings_add p b rivalPair.2 true, settings_new hnew]
      decide
    exact hq.propose_of_unjudged halone (congrArg Prod.snd hunjudged) rfl (by decide) hroom
  · have hstore : (q.add b rivalPair.1 true).1.store = q.store.remember rivalPair.1.id reason :=
      congrArg (fun result => result.1.store) hrefused
    have halone' : ∀ id, rivalPair.2.id ≠ id → (q.add b rivalPair.1 true).1.store.get? id = none := by
      intro id hne
      rw [hstore]
      exact halone id hne
    have hjudged : (q.add b rivalPair.1 true).1.store.verdicts.peek? rivalPair.1.id = some reason := by
      rw [hstore]
      apply Lru.peek?_put_self
      rw [verdicts_add_of_new hnew rfl hahead]
      decide
    exact (hq.add b rivalPair.1 true).propose_of_judged halone' hjudged b

end Mempool

end TxRelay
