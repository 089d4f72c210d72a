/-
What a message brings in.

An announcement and the answer to a request hold byte strings, and each of them is looked
at by itself: what spells an item is offered to the collection, whatever became of those
before it, and what spells none is as good as not there. Two loops do this, one for each
kind of message, and they come to the same. An announcement is received in silence: it
wakes tasks, but has nothing sent, and nothing of it is reported as the node's own, which
is all that the node announces.
-/
import TxRelay.Cluster
import TxRelay.Proofs.Arrivals
import TxRelay.Proofs.Oversize
import TxRelay.Proofs.Pushing
import TxRelay.Proofs.Redelivery

set_option autoImplicit false

namespace TxRelay

namespace Gossiper

variable {σ ι ε : Type} [GossipItem ι] [GossipSet σ ι ε]

/-! ## One byte string after the other -/

section
variable (ι)

/-- Whether a byte string spells an item. -/
def isLegible (b : Bytes) : Bool := (Wire.decode b : Except Wire.Fault ι).isOk

/-- The items that byte strings spell, in their order. -/
def legible (items : List Bytes) : List ι :=
  items.filterMap fun b => (Wire.decode b : Except Wire.Fault ι).toOption

variable {ι} in
theorem legible_cons_of_ok {b : Bytes} {x : ι} (h : Wire.decode b = .ok x) (rest : List Bytes) :
    legible ι (b :: rest) = x :: legible ι rest := by
  unfold legible
  rw [List.filterMap_cons, h]
  rfl

theorem legible_cons_of_error {b : Bytes} {fault : Wire.Fault}
    (h : (Wire.decode b : Except Wire.Fault ι) = .error fault) (rest : List Bytes) :
    legible ι (b :: rest) = legible ι rest := by
  unfold legible
  rw [List.filterMap_cons, h]
  rfl

/-- **What spells no item** makes no difference. -/
theorem legible_filter (items : List Bytes) : legible ι (items.filter (isLegible ι)) = legible ι items := by
  unfold legible
  rw [List.filterMap_filter]
  apply List.filterMap_congr
  intro b _
  unfold isLegible
  cases (Wire.decode b : Except Wire.Fault ι) with
  | error fault => rfl
  | ok x => rfl

end

/-- Whether an item is let in that was not held before. -/
def isNew (env : ε) (s : σ) (x : ι) : Bool :=
  !GossipSet.has s (GossipItem.gossipId x) && (GossipSet.add s env x).2.isOk

/-- How many items are let in that were not held immediately before, if they are offered
one after the other. -/
def newcomers (env : ε) : σ → List ι → Nat
  | _, [] => 0
  | s, x :: rest => (if isNew env s x then 1 else 0) + newcomers env (GossipSet.add s env x).1 rest

/-- **Taking in** is offering what is spelled, one item after the other. -/
theorem takeIn_eq (env : ε) (s : σ) (items : List Bytes) :
    takeIn env s items = (offered env s (legible ι items), newcomers env s (legible ι items)) := by
  induction items generalizing s with
  | nil => rfl
  | cons b rest ih =>
    unfold takeIn
    cases hb : (Wire.decode b : Except Wire.Fault ι) with
    | error fault =>
      rw [legible_cons_of_error ι hb]
      exact ih s
    | ok x =>
      rw [legible_cons_of_ok hb]
      have hnext := ih (GossipSet.add s env x).1
      show _ = (offered env (GossipSet.add s env x).1 (legible ι rest),
        (if isNew env s x then 1 else 0) + newcomers env (GossipSet.add s env x).1 (legible ι rest))
      unfold isNew
      dsimp only
      generalize GossipSet.add s env x = added at hnext ⊢
      obtain ⟨s', r⟩ := added
      cases r with
      | error e =>
        dsimp only at hnext ⊢
        rw [hnext]
        simp [Except.isOk, Except.toBool]
      | ok _ =>
        dsimp only at hnext ⊢
        rw [hnext]
        cases GossipSet.has s (GossipItem.gossipId x) <;> simp [Except.isOk, Except.toBool, Nat.add_comm]

/-- **Messages are taken in item by item**, and both kinds alike (`GossipHandler::app_gossip`,
`PullGossiper::pull_from`). -/
structure TakesItemByItem (g : Gossiper σ ι) (env : ε) : Prop where
  /-- What an announcement spells is offered in its order, and what is new is counted. -/
  push_eq : ∀ payload items, Wire.decode payload = .ok (⟨items⟩ : Wire.PushMessage) →
    g.handlePush env payload
      = { g with
          set := offered env g.set (legible ι items)
          counters.receivedPush :=
            g.counters.receivedPush + newcomers env g.set (legible ι items) }
  /-- So is what an answer spells. -/
  ending_eq : ∀ payload items, Wire.decode payload = .ok (⟨items⟩ : Wire.PullResponse) →
    g.handleEnding env (.ok payload)
      = ({ g with
            set := offered env g.set (legible ι items)
            counters.receivedPull :=
              g.counters.receivedPull + newcomers env g.set (legible ι items) },
          .ok (newcomers env g.set (legible ι items)))
  /-- Without the byte strings that spell no item it is the same, -/
  push_filter : ∀ payload payload' items, Wire.decode payload = .ok (⟨items⟩ : Wire.PushMessage) →
    Wire.decode payload' = .ok (⟨items.filter (isLegible ι)⟩ : Wire.PushMessage) →
      g.handlePush env payload' = g.handlePush env payload
  ending_filter : ∀ payload payload' items, Wire.decode payload = .ok (⟨items⟩ : Wire.PullResponse) →
    Wire.decode payload' = .ok (⟨items.filter (isLegible ι)⟩ : Wire.PullResponse) →
      g.handleEnding env (.ok payload') = g.handleEnding env (.ok payload)
  /-- and what is no message brings nothing in. -/
  push_unread : ∀ payload fault, (Wire.decode payload : Except _ Wire.PushMessage) = .error fault →
    g.handlePush env payload = g
  ending_unread : ∀ payload fault, (Wire.decode payload : Except _ Wire.PullResponse) = .error fault →
    g.handleEnding env (.ok payload)
      = ({ g with counters.pullFailures := g.counters.pullFailures + 1 }, .ok 0)

theorem takesItemByItem (g : Gossiper σ ι) (env : ε) : g.TakesItemByItem env := by
  have hpush : ∀ payload items, Wire.decode payload = .ok (⟨items⟩ : Wire.PushMessage) →
      g.handlePush env payload
        = { g with
            set := offered env g.set (legible ι items)
            counters.receivedPush :=
              g.counters.receivedPush + newcomers env g.set (legible ι items) } := by
    intro payload items hdecode
    unfold handlePush
    rw [hdecode]
    dsimp only
    rw [takeIn_eq]
  have hending : ∀ payload items, Wire.decode payload = .ok (⟨items⟩ : Wire.PullResponse) →
      g.handleEnding env (.ok payload)
        = ({ g with
              set := offered env g.set (legible ι items)
              counters.receivedPull :=
                g.counters.receivedPull + newcomers env g.set (legible ι items) },
            .ok (newcomers env g.set (legible ι items))) := by
    intro payload items hdecode
    unfold handleEnding
    dsimp only
    rw [hdecode]
    dsimp only
    rw [takeIn_eq]
  refine ⟨hpush, hending, ?_, ?_, ?_, ?_⟩
  · intro payload payload' items hdecode hdecode'
    rw [hpush payload items hdecode, hpush payload' _ hdecode', legible_filter]
  · intro payload payload' items hdecode hdecode'
    rw [hending payload items hdecode, hending payload' _ hdecode', legible_filter]
  · intro payload fault hfault
    unfold handlePush
    rw [hfault]
  · intro payload fault hfault
    unfold handleEnding
    dsimp only
    rw [hfault]
    rfl

end Gossiper

/-! ## What it comes to for the pools -/

/-- Offering transactions to a coordinator of a set is adding them one by one. -/
theorem PoolSet.offered_eq (s : PoolSet) (views : Views) (txs : List Transaction) :
    Gossiper.offered views s txs
      = { s with pool := s.pool.run (txs.map fun tx => .add views [tx] false false) } := by
  induction txs generalizing s with
  | nil => rfl
  | cons tx rest ih => exact ih { s with pool := (s.pool.add views [tx] false false).1 }

/-- So is offering transfers to a pool. -/
theorem Mempool.offered_eq (p : Mempool) (b : TransferBackend) (txs : List Transfer) :
    Gossiper.offered b p txs = p.run (txs.map fun tx => .add b tx false) := by
  induction txs generalizing p with
  | nil => rfl
  | cons tx rest ih =>
    have hfirst : (GossipSet.add p b tx).1 = (p.add b tx false).1 := p.fst_takeRemote b tx
    show Gossiper.offered b (GossipSet.add p b tx).1 rest = _
    rw [hfirst]
    exact ih (p.add b tx false).1

/-! ## In silence -/

/-- **A node says nothing**: it has neither sent nor queued anything, and reports nothing
more as its own. -/
structure Node.Hushed (n n' : Node) : Prop where
  network_eq : n'.network = n.network
  outbox_eq : n'.ordinary.gossiper.outbox = n.ordinary.gossiper.outbox
  transferOutbox_eq : n'.transfers.gossiper.outbox = n.transfers.gossiper.outbox
  names : ∀ A : Transaction → Prop, n.pool.commons.bus.NamesOnly A → n'.pool.commons.bus.NamesOnly A
  namesTransfers : ∀ A : Transfer → Prop, n.mempool.bus.NamesOnly A → n'.mempool.bus.NamesOnly A

theorem Node.Hushed.refl (n : Node) : n.Hushed n :=
  ⟨rfl, rfl, rfl, fun _ h => h, fun _ h => h⟩

/-- **An announcement** that comes in. -/
theorem Node.hushed_receivePush (n : Node) (message : Bytes) : n.Hushed (n.receivePush message) := by
  unfold receivePush
  split
  · exact Hushed.refl n
  · next payload _ =>
    refine ⟨rfl, Gossiper.outbox_handlePush _ _ _, rfl, ?_, fun _ h => h⟩
    intro A h
    exact Gossiper.keeps_handlePush (PoolSet.source.keeps A n.poolViews) h payload
  · next payload _ =>
    refine ⟨rfl, rfl, Gossiper.outbox_handlePush _ _ _, fun _ h => h, ?_⟩
    intro A h
    exact Gossiper.keeps_handlePush (Mempool.source.keeps A n.ledger.transferBackend) h payload

namespace Cluster

/-- What is on its way to somebody. -/
def underway (c : Cluster) : List Delivery :=
  c.agenda.ready.filterMap fun
    | .delivery d => some d
    | .task _ _ _ | .keeper _ => none

/-- **Nothing is said on a hub**: no message is on its way that was not before, guests hear
nothing, and no node says anything. -/
structure Hushed (c c' : Cluster) : Prop where
  underway_eq : c'.underway = c.underway
  guest_eq : c'.guest = c.guest
  nodes : List.Forall₂ Node.Hushed c.nodes c'.nodes

theorem Hushed.refl (c : Cluster) : c.Hushed c :=
  ⟨rfl, rfl, List.forall₂_same.mpr fun n _ => Node.Hushed.refl n⟩

/-- Waking a task is no message. -/
theorem Hushed.wake {c c' : Cluster} (h : c.Hushed c') (i : Nat) (p : Wire.Protocol) (t : Task) :
    c.Hushed (c'.wake i p t) := by
  refine ⟨?_, h.guest_eq, h.nodes⟩
  rw [← h.underway_eq]
  unfold underway Cluster.wake Agenda.wake
  dsimp only
  split
  · rfl
  · unfold Agenda.join
    rw [List.filterMap_append]
    exact List.append_nil _

theorem Hushed.rouse {c c' : Cluster} (h : c.Hushed c') (i : Nat) : c.Hushed (c'.rouse i) := by
  have hwake : ∀ (p : Wire.Protocol) (ts : List Task) (c' : Cluster), c.Hushed c' →
      c.Hushed (ts.foldl (fun c t => c.wake i p t) c') := by
    intro p ts
    induction ts with
    | nil => exact fun c' h => h
    | cons t rest ih => exact fun c' h => ih _ (h.wake i p t)
  have hall : ∀ (n : Node) (ps : List Wire.Protocol) (c' : Cluster), c.Hushed c' →
      c.Hushed (ps.foldl (fun c p => (n.roused p).foldl (fun c t => c.wake i p t) c) c') := by
    intro n ps
    induction ps with
    | nil => exact fun c' h => h
    | cons p rest ih => exact fun c' h => ih _ (hwake p (n.roused p) c' h)
  unfold Cluster.rouse
  split
  · exact h
  · next n _ => exact hall n Wire.Protocol.all c' h

/-- **An announcement is received in silence.** -/
theorem hushed_deliver (c : Cluster) (target : Member) (message : Bytes) :
    c.Hushed (c.deliver (.announcement target message)) := by
  cases target with
  | guest => exact Hushed.refl c
  | node i =>
    have hreceived : ∀ (ns : List Node) (i : Nat),
        List.Forall₂ Node.Hushed ns (ns.modify i fun n => n.receivePush message) := by
      intro ns
      induction ns with
      | nil =>
        intro i
        rw [List.modify_nil]
        exact List.Forall₂.nil
      | cons n rest ih =>
        intro i
        cases i with
        | zero =>
          rw [List.modify_zero_cons]
          apply List.Forall₂.cons (n.hushed_receivePush message)
          exact List.forall₂_same.mpr fun n _ => Node.Hushed.refl n
        | succ i =>
          rw [List.modify_succ_cons]
          exact List.Forall₂.cons (Node.Hushed.refl n) (ih i)
    apply Hushed.rouse
    exact ⟨rfl, rfl, hreceived c.nodes i⟩

end Cluster

/-! ## All of it -/

namespace Gossiper

/-- **What a message brings in**, for both pools in any state, and whoever sends it. -/
theorem received_item_by_item :
    (∀ (g : Gossiper PoolSet Transaction) (views : PoolSet.Views), g.TakesItemByItem views ∧
      ∀ txs, offered views g.set txs
        = { g.set with pool := g.set.pool.run (txs.map fun tx => .add views [tx] false false) }) ∧
    (∀ (g : Gossiper Mempool Transfer) (b : TransferBackend), g.TakesItemByItem b ∧
      ∀ txs, offered b g.set txs = g.set.run (txs.map fun tx => .add b tx false)) ∧
    (∀ items : List Bytes, (Wire.writeList Wire.writeBytes items).length < UInt64.size →
      Wire.decode (Wire.Layout.write (⟨items⟩ : Wire.PushMessage)) = .ok (⟨items⟩ : Wire.PushMessage) ∧
      Wire.decode (Wire.Layout.write (⟨items⟩ : Wire.PullResponse))
        = .ok (⟨items⟩ : Wire.PullResponse)) ∧
    ∀ (c : Cluster) (target : Member) (message : Bytes),
      c.Hushed (c.deliver (.announcement target message)) := by
  refine ⟨fun g views => ⟨takesItemByItem g views, g.set.offered_eq views⟩,
    fun g b => ⟨takesItemByItem g b, g.set.offered_eq b⟩, ?_, Cluster.hushed_deliver⟩
  intro items hitems
  exact ⟨Wire.decode_write_of_lt hitems, Wire.decode_write_of_lt hitems⟩

/-- A message of which the first string spells nothing and the others the same transfer. -/
def mixture : List Bytes :=
  [[], Wire.Layout.write Mempool.strangers.1, Wire.Layout.write Mempool.strangers.1]

/-- It brings one transfer to a small pool, as an announcement and as an answer. -/
theorem received_mixture :
    ∃ p : Mempool, Mempool.new .small (fun _ => default) = .ok p ∧
      let g : Gossiper Mempool Transfer := .new .standard p
      let pushed := g.handlePush Mempool.lenient (Wire.Layout.write (⟨mixture⟩ : Wire.PushMessage))
      let pulled := g.handleEnding Mempool.lenient
        (.ok (Wire.Layout.write (⟨mixture⟩ : Wire.PullResponse)))
      pushed.set.newestFirst = [Mempool.strangers.1] ∧ pushed.counters.receivedPush = 1 ∧
        pulled.1.set = pushed.set ∧ pulled.1.counters.receivedPull = 1 := by
  obtain ⟨p, hnew⟩ := Mempool.exists_new_small
  obtain ⟨_, hmempool, hcarried, _⟩ := received_item_by_item
  let g : Gossiper Mempool Transfer := .new .standard p
  obtain ⟨htakes, hoffered⟩ := hmempool g Mempool.lenient
  have hlength : (Wire.Layout.write Mempool.strangers.1).length = 192 :=
    Wire.length_write_transfer Mempool.strangers.1
  obtain ⟨hpush, hpull⟩ := hcarried mixture (by
    unfold mixture
    simp only [Wire.length_writeList, List.flatMap_cons, List.flatMap_nil, List.length_append,
      Wire.length_writeBytes, hlength]
    decide)
  have hlegible : legible Transfer mixture = [Mempool.strangers.1, Mempool.strangers.1] := by
    have hempty : (Wire.decode [] : Except Wire.Fault Transfer) = .error .unexpectedEnd := rfl
    have hread : Wire.decode (Wire.Layout.write Mempool.strangers.1) = .ok Mempool.strangers.1 :=
      Wire.decode_write (by rw [hlength]; decide)
    unfold mixture
    rw [legible_cons_of_error Transfer hempty, legible_cons_of_ok hread, legible_cons_of_ok hread]
    rfl
  have hahead : ¬Mempool.strangers.1.nonce < Mempool.lenient.nonce Mempool.strangers.1.account := by
    decide
  let q := (p.add Mempool.lenient Mempool.strangers.1 false).1
  have hhas : q.has Mempool.strangers.1.id = true := by
    unfold Mempool.has
    rw [TransferStore.contains_eq_isSome, Mempool.get?_add_of_new hnew rfl hahead, if_pos rfl]
    rfl
  -- The transfer is let in at first, and known the second time.
  have hfirst : GossipSet.add p Mempool.lenient Mempool.strangers.1 = (q, .ok ()) := by
    have hadd : p.add Mempool.lenient Mempool.strangers.1 false = (q, .ok ()) :=
      Prod.ext rfl (Mempool.ok_add_of_new hnew rfl hahead false)
    show p.takeRemote Mempool.lenient Mempool.strangers.1 = _
    unfold Mempool.takeRemote
    rw [hadd]
  have hsecond : (q.add Mempool.lenient Mempool.strangers.1 false).1 = q := by
    have hcoherent : q.store.Coherent := Mempool.coherent_add (Mempool.coherent_new hnew) _ _ _
    rw [Mempool.add_of_has hcoherent hhas]
  have hset : offered Mempool.lenient g.set (legible Transfer mixture) = q := by
    rw [hlegible, hoffered]
    exact hsecond
  have hcount : newcomers Mempool.lenient g.set (legible Transfer mixture) = 1 := by
    have hnone : p.has Mempool.strangers.1.id = false := by
      unfold Mempool.has
      rw [TransferStore.contains_eq_isSome, Option.isSome_eq_false_iff, Option.isNone_iff_eq_none]
      exact Option.eq_none_iff_forall_ne_some.mpr fun e => Mempool.get?_new hnew _ e
    have hnew : isNew Mempool.lenient p Mempool.strangers.1 = true := by
      unfold isNew
      rw [hfirst]
      show (!p.has Mempool.strangers.1.id && true) = true
      rw [hnone]
      rfl
    have hold : isNew Mempool.lenient q Mempool.strangers.1 = false := by
      unfold isNew
      show (!q.has Mempool.strangers.1.id && _) = false
      rw [hhas]
      rfl
    rw [hlegible]
    show (if isNew Mempool.lenient p Mempool.strangers.1 then 1 else 0) +
      newcomers Mempool.lenient (GossipSet.add p Mempool.lenient Mempool.strangers.1).1
        [Mempool.strangers.1] = 1
    rw [hfirst, hnew]
    show 1 + ((if isNew Mempool.lenient q Mempool.strangers.1 then 1 else 0) + 0) = 1
    rw [hold]
    rfl
  refine ⟨p, hnew, ?_⟩
  dsimp only
  rw [htakes.push_eq _ _ hpush, htakes.ending_eq _ _ hpull, hset, hcount]
  exact ⟨Mempool.newestFirst_add_of_new hnew rfl hahead false, rfl, rfl, rfl⟩

end Gossiper

end TxRelay
