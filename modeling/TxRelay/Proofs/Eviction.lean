/-
Who makes way in a full pool of transfers.

A newcomer takes part in its own eviction. It arrived last, so whoever else may be
evicted goes before it, unless the newcomer is from outside and all of them came in
through this node's own interface. Transfers that were handed to block assembly take
up room and are not in the order of eviction, so a pool that holds nothing else turns
everybody away. Between them these two facts decide every offer to a full pool, as
long as no rivals are in the way: those go for the fee and not for the room.
-/
import TxRelay.Proofs.Rivals

set_option autoImplicit false

namespace TxRelay

namespace TransferStore

variable {s : TransferStore} {tx : Transfer} {isLocal : Bool} {e v : PooledTransfer} {id : Digest}

/-- What is there after a newcomer was put in and somebody else taken out. -/
theorem get?_insert_without_iff (hnew : s.get? tx.id = none) (hv : s.get? v.id = some v) :
    ((s.insert tx isLocal).without v).get? id = some e ↔
      (id = tx.id ∧ e = s.arriving tx isLocal) ∨ (s.get? id = some e ∧ id ≠ v.id) := by
  have hne : v.id ≠ tx.id := by
    intro heq
    rw [heq, hnew] at hv
    cases hv
  rw [get?_without, get?_insert]
  by_cases hout : v.id = id
  · subst hout
    simp [hne]
  · by_cases hin : tx.id = id
    · subst hin
      simp [hout, hnew, eq_comm]
    · simp [hout, hin, Ne.symm hout, Ne.symm hin]

/-- **Who goes before a newcomer**: whoever is from outside, and the others if the
newcomer is none from outside either. -/
theorem Coherent.goesBefore_arriving_iff (hc : s.Coherent) (he : s.get? id = some e) :
    e.GoesBefore (s.arriving tx isLocal) ↔ e.isLocal = false ∨ isLocal = true := by
  have hseq := hc.seq_lt he
  unfold PooledTransfer.GoesBefore arriving
  cases e.isLocal <;> cases isLocal <;> simp [hseq]

/-- A newcomer goes first only as one from outside before one that is not. -/
theorem Coherent.arriving_goesBefore_iff (hc : s.Coherent) (he : s.get? id = some e) :
    (s.arriving tx isLocal).GoesBefore e ↔ isLocal = false ∧ e.isLocal = true := by
  have hseq := Nat.lt_asymm (hc.seq_lt he)
  unfold PooledTransfer.GoesBefore arriving
  cases e.isLocal <;> cases isLocal <;> simp [hseq]

/-- **When a newcomer is the first to go**: nobody from outside may be evicted, and if
the newcomer is not from outside itself then nobody at all. -/
theorem Coherent.goesFirst_iff (hc : s.Coherent) (tx : Transfer) (isLocal : Bool) :
    (∀ e, s.get? e.id = some e → e.issued = false → (s.arriving tx isLocal).GoesBefore e) ↔
      (∀ e, s.get? e.id = some e → e.issued = false → e.isLocal = true) ∧
        (isLocal = false ∨ ∀ e, s.get? e.id = some e → e.issued = true) := by
  constructor
  · intro hfirst
    refine ⟨fun e he hfree => ((hc.arriving_goesBefore_iff he).mp (hfirst e he hfree)).2, ?_⟩
    cases isLocal with
    | false => exact Or.inl rfl
    | true =>
      right
      intro e he
      cases hfree : e.issued with
      | true => rfl
      | false => simpa using (hc.arriving_goesBefore_iff he).mp (hfirst e he hfree)
  · rintro ⟨hlocal, hremote | hissued⟩ e he hfree
    · exact (hc.arriving_goesBefore_iff he).mpr ⟨hremote, hlocal e he hfree⟩
    · rw [hissued e he] at hfree
      cases hfree

end TransferStore

namespace Mempool

open TransferStore (Coherent FirstToGo)

section
variable {p : Mempool} {b : TransferBackend} {tx : Transfer} {isLocal : Bool} {id : Digest}
  {e : PooledTransfer} {limit : Nat}

/-! ## Offers that are not opposed -/

theorem rivals_eq_nil_iff (hc : p.store.Coherent) :
    p.store.rivals tx = [] ↔ ∀ id e, ¬p.Rival tx id e := by
  rw [List.eq_nil_iff_forall_not_mem]
  simp only [mem_rivals_iff hc, not_exists]

/-- **Nothing stands against an offer** but the room that it takes: the transfer is new,
no verdict on it is remembered, the chain has no objection, and it has no rivals. -/
structure Unopposed (p : Mempool) (b : TransferBackend) (tx : Transfer) : Prop where
  fresh : p.has tx.id = false
  unjudged : p.store.verdicts.peek? tx.id = none
  valid : b.validate tx = .ok ()
  ahead : b.nonce tx.account ≤ tx.nonce
  alone : ∀ id e, ¬p.Rival tx id e

theorem Unopposed.eligible (h : p.Unopposed b tx) (hc : p.store.Coherent) : p.Eligible b tx where
  fresh := get?_of_not_has h.fresh
  unjudged := h.unjudged
  passes := by
    rw [check_of_acceptable h.valid (UInt64.not_lt.mpr h.ahead), (rivals_eq_nil_iff hc).mpr h.alone]
    rfl

/-! ## Who makes way -/

/-- Who is let in where there is no room, and has no rivals, takes somebody's place. -/
theorem Orderly.exists_displaced (hp : p.Orderly) (hfull : p.store.size = p.settings.maxSize)
    (halone : ∀ id e, ¬p.Rival tx id e) (hok : (p.add b tx isLocal).2 = .ok ()) :
    ∃ v, p.store.FirstToGo v ∧ v.GoesBefore (p.store.arriving tx isLocal) ∧
      (p.add b tx isLocal).1.store = ((p.store.insert tx isLocal).without v).refresh := by
  obtain ⟨_, evicted, htaken⟩ := hp.of_ok hok
  generalize (p.add b tx isLocal).1.store = s at htaken ⊢
  cases htaken with
  | entered hroom =>
    rw [(rivals_eq_nil_iff hp.coherent).mpr halone] at hroom
    have hroom : p.store.size < p.settings.maxSize := hroom
    omega
  | displacing v _ _ hfirst hbefore => exact ⟨v, hfirst, hbefore, rfl⟩

/-- What is eligible and finds no room would be the first to go of a full pool. -/
theorem Orderly.of_full (hp : p.Orderly) (h : p.Eligible b tx)
    (hfull : (p.add b tx isLocal).2 = .error .full) :
    p.store.size = p.settings.maxSize ∧
      ∀ e, p.store.get? e.id = some e → e.issued = false → (p.store.arriving tx isLocal).GoesBefore e := by
  have hoffering := hp.offering b tx isLocal
  generalize p.add b tx isLocal = result at hoffering hfull
  cases hoffering with
  | known | remembered | letIn => cases hfull
  | unfit err _ _ hcheck =>
    rw [h.passes] at hcheck
    cases hcheck
  | turnedAway _ _ hsize hlast => exact ⟨hsize, hlast⟩

/-- **For a transfer without rivals** that is let in where there is no room, the first
to go makes way and nobody else. -/
theorem Orderly.displaces_add (hp : p.Orderly) (hfull : p.store.size = p.settings.maxSize)
    (halone : ∀ id e, ¬p.Rival tx id e) (hok : (p.add b tx isLocal).2 = .ok ()) :
    ∃ v, p.store.FirstToGo v ∧ v.id ≠ tx.id ∧ ∀ id e,
      (p.add b tx isLocal).1.store.get? id = some e ↔
        (id = tx.id ∧ e = p.store.arriving tx isLocal) ∨ (p.store.get? id = some e ∧ id ≠ v.id) := by
  have hnew := (hp.of_ok hok).1.fresh
  obtain ⟨v, hfirst, _, hafter⟩ := hp.exists_displaced hfull halone hok
  refine ⟨v, hfirst, ?_, ?_⟩
  · intro heq
    have hheld := hfirst.held
    rw [heq, hnew] at hheld
    cases hheld
  · intro id e
    rw [hafter]
    exact TransferStore.get?_insert_without_iff hnew hfirst.held

/-- **An offer that nothing stands against** is refused exactly if the newcomer would be
the first to go, and then for want of room. -/
theorem Orderly.add_of_unopposed (hp : p.Orderly) (hfull : p.store.size = p.settings.maxSize)
    (h : p.Unopposed b tx) (isLocal : Bool) :
    ((p.add b tx isLocal).2 = .error .full ∧
      ∀ e, p.store.get? e.id = some e → e.issued = false → (p.store.arriving tx isLocal).GoesBefore e) ∨
    ((p.add b tx isLocal).2 = .ok () ∧
      ∃ v, p.store.get? v.id = some v ∧ v.issued = false ∧ v.GoesBefore (p.store.arriving tx isLocal)) := by
  have heligible := h.eligible hp.coherent
  rcases hp.snd_add_of_eligible heligible isLocal with hok | ⟨hrefused, _⟩
  · right
    obtain ⟨v, hfirst, hbefore, _⟩ := hp.exists_displaced hfull h.alone hok
    exact ⟨hok, v, hfirst.held, hfirst.free, hbefore⟩
  · exact Or.inl ⟨hrefused, (hp.of_full heligible hrefused).2⟩

/-- Where there is room, what is eligible is let in. -/
theorem Orderly.ok_of_room (hp : p.Orderly) (h : p.Eligible b tx)
    (hroom : p.store.size < p.settings.maxSize) (isLocal : Bool) : (p.add b tx isLocal).2 = .ok () := by
  rcases hp.snd_add_of_eligible h isLocal with hok | ⟨hrefused, _⟩
  · exact hok
  · have hfull := (hp.of_full h hrefused).1
    omega

/-- **Who is gone after an offer** was a rival, or went before the newcomer. -/
theorem Orderly.get?_add_of_held (hp : p.Orderly) (he : p.store.get? id = some e)
    (halone : ¬p.Rival tx id e) (hbefore : ¬e.GoesBefore (p.store.arriving tx isLocal)) :
    (p.add b tx isLocal).1.store.get? id = some e := by
  have hoffering := hp.offering b tx isLocal
  generalize p.add b tx isLocal = result at hoffering ⊢
  cases hoffering with
  | known _ _ => exact he
  | remembered _ _ _ => exact he
  | unfit _ _ _ _ => exact he
  | turnedAway h hrivals _ _ =>
    rw [hp.coherent.without_arriving h.fresh hrivals]
    exact he
  | letIn s evicted h htaken =>
    have hne : tx.id ≠ id := by
      rintro rfl
      rw [h.fresh] at he
      cases he
    cases htaken with
    | entered hroom =>
      show ((p.store.removeAll (p.store.rivals tx)).1.insert tx isLocal).get? id = some e
      rw [TransferStore.get?_insert, if_neg hne, hp.coherent.get?_removeAll, if_neg, he]
      intro hmem
      obtain ⟨e', hrival⟩ := (mem_rivals_iff hp.coherent).mp hmem
      rw [Option.some.inj (hrival.1.symm.trans he)] at hrival
      exact halone hrival
    | displacing v _ _ hfirst hgoes =>
      apply (TransferStore.get?_insert_without_iff h.fresh hfirst.held).mpr
      right
      refine ⟨he, ?_⟩
      rintro rfl
      rw [Option.some.inj (hfirst.held.symm.trans he)] at hgoes
      exact hbefore hgoes

/-! ## In the course of a run -/

/-- **How much a pool holds, and who makes way** (`Mempool::add`). -/
structure MakesWay (limit : Nat) (p : Mempool) : Prop where
  /-- It holds no more than it may, with what was handed to block assembly. -/
  size_le : p.size ≤ limit
  /-- If it is full, a newcomer without rivals that is let in displaces the first to go
  and nobody else, -/
  displaces : ∀ b tx isLocal, p.size = limit → (∀ id e, ¬p.Rival tx id e) →
    (p.add b tx isLocal).2 = .ok () →
      ∃ v, p.store.FirstToGo v ∧ v.id ≠ tx.id ∧ ∀ id e,
        (p.add b tx isLocal).1.store.get? id = some e ↔
          (id = tx.id ∧ e = p.store.arriving tx isLocal) ∨ (p.store.get? id = some e ∧ id ≠ v.id)
  /-- and where nothing but the room is in question, it is turned away exactly if it is
  the first to go itself, and let in otherwise. -/
  turnsAway : ∀ b tx isLocal, p.size = limit → p.Unopposed b tx →
    ((p.add b tx isLocal).2 = .error .full ↔
      ∀ e, p.store.get? e.id = some e → e.issued = false →
        (p.store.arriving tx isLocal).GoesBefore e) ∧
    ((p.add b tx isLocal).2 = .ok () ∨ (p.add b tx isLocal).2 = .error .full)
  /-- It is if nobody from outside may be evicted, and nobody at all unless it is from
  outside. -/
  goesFirst_iff : ∀ tx isLocal,
    (∀ e, p.store.get? e.id = some e → e.issued = false → (p.store.arriving tx isLocal).GoesBefore e) ↔
      (∀ e, p.store.get? e.id = some e → e.issued = false → e.isLocal = true) ∧
        (isLocal = false ∨ ∀ e, p.store.get? e.id = some e → e.issued = true)
  /-- For an offer from outside nobody goes who came in through this node's own
  interface, rivals apart, -/
  spares_local : ∀ b tx id e, p.store.get? id = some e → e.isLocal = true → ¬p.Rival tx id e →
    (p.add b tx false).1.store.get? id = some e
  /-- and for no offer whoever was handed to block assembly. -/
  spares_issued : ∀ b tx isLocal id e, p.store.get? id = some e → e.issued = true →
    (p.add b tx isLocal).1.store.get? id = some e

theorem Orderly.makesWay (hp : p.Orderly) (hlimit : p.settings.maxSize = limit) :
    p.MakesWay limit where
  size_le := hlimit ▸ hp.size_le
  displaces b tx isLocal hfull halone hok := by
    rw [← hlimit] at hfull
    exact hp.displaces_add hfull halone hok
  turnsAway b tx isLocal hfull h := by
    rw [← hlimit] at hfull
    rcases hp.add_of_unopposed hfull h isLocal with ⟨hanswer, hlast⟩ | ⟨hanswer, v, hv, hfree, hbefore⟩
    · exact ⟨iff_of_true hanswer hlast, Or.inr hanswer⟩
    · have hnot : ¬∀ e, p.store.get? e.id = some e → e.issued = false →
          (p.store.arriving tx isLocal).GoesBefore e := by
        intro hlast
        exact hbefore.asymm (hlast v hv hfree)
      simp [hanswer, hnot]
  goesFirst_iff tx isLocal := hp.coherent.goesFirst_iff tx isLocal
  spares_local b tx id e he hlocal halone := by
    apply hp.get?_add_of_held he halone
    rw [hp.coherent.goesBefore_arriving_iff he]
    simp [hlocal]
  spares_issued b tx isLocal id e he hissued := get?_add_of_issued hp.coherent he hissued b tx isLocal

/-- **The bound holds and the first to go makes way**, with any settings that make a
pool, whatever was asked of it before and whoever listens to it. -/
theorem makesWay_of_run {settings : MempoolSettings} {salts : Nat → Salt}
    (hnew : new settings salts = .ok p) (actions : List Action) (bus : Bus) :
    ({ p.run actions with bus } : Mempool).MakesWay settings.maxSize := by
  have hsettings : ({ p.run actions with bus } : Mempool).settings = settings :=
    (settings_run p actions).trans (settings_new hnew)
  exact (((orderly_new hnew).run actions).with_bus bus).makesWay (congrArg _ hsettings)

end

/-! ## A pool with room for one -/

/-- Two transfers that spend nothing. -/
def strangers : Transfer × Transfer :=
  ({ (default : Transfer) with fee := 1 }, { (default : Transfer) with fee := 2 })

theorem ids_strangers : strangers.1.id ≠ strangers.2.id := by decide +kernel

/-- In a new pool that was offered the one, nothing stands against the other. -/
theorem unopposed_strangers {settings : MempoolSettings} {salts : Nat → Salt} {p : Mempool}
    (hnew : new settings salts = .ok p) :
    (p.add lenient strangers.1 true).1.Unopposed lenient strangers.2 where
  fresh := has_add_of_new hnew rfl (by decide) ids_strangers
  unjudged := peek?_add_of_new hnew rfl (by decide) true _
  valid := rfl
  ahead := by decide
  alone := by
    rintro id e ⟨_, input, hinput, _⟩
    cases hinput

/-- Where the one came in through this node's own interface, the other one is turned away
from outside, and takes its place through the same interface. -/
theorem makesWay_of_strangers :
    ∃ p q : Mempool, new { MempoolSettings.small with maxSize := 1 } (fun _ => default) = .ok p ∧
      q = p.run [.add lenient strangers.1 true] ∧ q.MakesWay 1 ∧
      (q.add lenient strangers.2 false).2 = .error .full ∧
      (q.add lenient strangers.2 true).2 = .ok () ∧
      (q.add lenient strangers.2 true).1.store.get? strangers.1.id = none := by
  have hvalid : ({ MempoolSettings.small with maxSize := 1 } : MempoolSettings).validate = .ok () := rfl
  obtain ⟨p, hnew⟩ : ∃ p, new { MempoolSettings.small with maxSize := 1 } (fun _ => default) = .ok p := by
    rw [new, hvalid]
    exact ⟨_, rfl⟩
  let q := (p.add lenient strangers.1 true).1
  have hmakes : q.MakesWay 1 := makesWay_of_run hnew [.add lenient strangers.1 true] q.bus
  have hahead : ¬strangers.1.nonce < lenient.nonce strangers.1.account := by decide
  have hheld : ∀ id, q.store.get? id
      = if strangers.1.id = id then some ⟨strangers.1, strangers.1.id, true, 0, false⟩ else none :=
    get?_add_of_new hnew rfl hahead true
  have hsize : q.size = 1 := by
    unfold size TransferStore.size
    rw [entries_add_of_new hnew rfl hahead true]
    rfl
  have hunopposed : q.Unopposed lenient strangers.2 := unopposed_strangers hnew
  obtain ⟨haway, _⟩ := hmakes.turnsAway lenient strangers.2 false hsize hunopposed
  obtain ⟨haway', hanswer⟩ := hmakes.turnsAway lenient strangers.2 true hsize hunopposed
  rw [hmakes.goesFirst_iff] at haway haway'
  have hown := hheld strangers.1.id
  rw [if_pos rfl] at hown
  have hok : (q.add lenient strangers.2 true).2 = .ok () := by
    apply hanswer.resolve_right
    intro hfull
    rcases (haway'.mp hfull).2 with hremote | hissued
    · cases hremote
    · have hmarked := hissued ⟨strangers.1, strangers.1.id, true, 0, false⟩ hown
      cases hmarked
  refine ⟨p, q, hnew, rfl, hmakes, haway.mpr ⟨?_, Or.inl rfl⟩, hok, ?_⟩
  · intro e he _
    rw [hheld] at he
    split at he
    · rw [← Option.some.inj he]
    · cases he
  · obtain ⟨v, hfirst, _, hafter⟩ := hmakes.displaces _ _ true hsize hunopposed.alone hok
    have hv := hfirst.held
    rw [hheld] at hv
    split at hv
    · next hid =>
      apply Option.eq_none_iff_forall_ne_some.mpr
      intro e he
      rcases (hafter _ e).mp he with ⟨heq, _⟩ | ⟨_, hne⟩
      · exact ids_strangers heq
      · exact hne hid
    · cases hv

end Mempool

end TxRelay
