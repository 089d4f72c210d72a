/-
What comes once more changes nothing.

A transaction reaches a node by an announcement, in an answer to a request, from
another part of the program or through the node's own interface, and by several
of these if the network repeats itself. Each way in asks the pool, and the pool
knows what it holds: a sub-pool by the digest, if it is the sub-pool that the
transaction goes to, and the transfer pool by the id, if its filter reports it.
Both conditions hold in every state that can be reached. So whoever delivers
something again is told that all is well, and nothing about the node is
different afterwards, but for the journal of its coordinator.
-/
import TxRelay.Proofs.Blocks
import TxRelay.Proofs.Charter
import TxRelay.Proofs.Closing
import TxRelay.Proofs.PoolFilter
import TxRelay.Proofs.RoundTrip

set_option autoImplicit false

namespace TxRelay

/-! ## The two pools -/

namespace Coordinator

/-- A transaction is held by the sub-pool that it goes to, which has a seat. -/
def Hosts (pools : List NoncePool) (tx : Transaction) : Prop :=
  ∃ k p seat q, route? pools tx = some k ∧ pools[k]? = some p ∧ p.seat = some seat ∧
    p.holdings.get? tx.hash = some q

section
variable {c : Coordinator NoncePool} {tx : Transaction}

/-- What is held in its place, in order, is held by the sub-pool that it goes to. -/
theorem hosts_of_held (horderly : c.Orderly) (hplace : c.InPlace) {p : NoncePool} (hp : p ∈ c.pools)
    {q : Pooled} (hq : p.holdings.get? q.tx.hash = some q) : Hosts c.pools q.tx := by
  obtain ⟨k, hk⟩ := List.mem_iff_getElem?.mp hp
  rcases (horderly.in_order k p hk).seated with hseat | ⟨_, hnone⟩
  · exact ⟨k, p, k, q, hplace k p hk _ q hq, hk, hseat, hq⟩
  · rw [hnone] at hq
    cases hq

theorem has_of_hosts (h : Hosts c.pools tx) : c.has tx.hash = true := by
  obtain ⟨k, p, _, q, _, hp, _, hq⟩ := h
  refine List.any_eq_true.mpr ⟨p, List.mem_of_getElem? hp, ?_⟩
  show ((p.holdings.get? tx.hash).map Pooled.tx).isSome = true
  rw [hq]
  rfl

/-- **A transaction that is held** is known when it is added again, and that is
only noted. -/
theorem add_of_hosts (h : Hosts c.pools tx) (views : Nat → Backend) (isLocal sync : Bool) :
    ∃ calls, c.add views [tx] isLocal sync = (c.noted calls, [.error .alreadyKnown]) := by
  obtain ⟨k, p, seat, q, hroute, hp, hseat, hq⟩ := h
  have hknown := NoncePool.add_of_known hseat hq
  have hshare : share c.pools [tx] k = [tx] := by
    rw [share, List.filter_cons_of_pos (by rw [hroute]; exact beq_self_eq_true _), List.filter_nil]
  -- The sub-pool that the transaction goes to has it, and the others get nothing.
  have hidle : ∀ (j : Nat) (p' : NoncePool), c.pools[j]? = some p' → ∀ commons,
      takeIn views (share c.pools [tx]) isLocal j p' commons = (p', commons) := by
    intro j p' hp' commons
    rw [takeIn]
    by_cases hj : j = k
    · subst hj
      obtain rfl : p = p' := Option.some.inj (hp.symm.trans hp')
      rw [hshare, List.isEmpty_cons, if_neg Bool.false_ne_true, hknown]
    · refine if_pos ?_
      rw [share, List.filter_cons_of_neg, List.filter_nil]
      · rfl
      · rw [hroute, beq_iff_eq]
        exact fun heq => hj (Option.some.inj heq).symm
  obtain ⟨calls, hpool⟩ := add_of_idle hidle sync
  refine ⟨calls, Prod.ext hpool ?_⟩
  -- What the sub-pool says is the answer.
  obtain ⟨between, hbatch⟩ := add_distributed c views [tx] isLocal sync
  obtain ⟨_, _, hresult⟩ := hbatch.claimed 0 tx k rfl (route?_eq_some_iff.mp hroute)
  obtain ⟨p', _, hhanded⟩ := hbatch.handed k p hp
  rw [Handed, hshare, if_neg (List.cons_ne_nil _ _)] at hhanded
  have hown : c.answers views [tx] isLocal sync k = [.error .alreadyKnown] :=
    (congrArg (fun told => told.2.2) ((hknown (views k) (between k) isLocal).symm.trans hhanded)).symm
  rw [hown] at hresult
  obtain ⟨r, hr⟩ := List.length_eq_one_iff.mp hbatch.length_results
  rw [hr] at hresult ⊢
  rw [Option.some.inj hresult]
  rfl

end

end Coordinator

/-- A transfer that is pooled is known when it is offered again. -/
theorem Mempool.add_of_has {p : Mempool} (hc : p.store.Coherent) {tx : Transfer}
    (hhas : p.has tx.id = true) (b : TransferBackend) (isLocal : Bool) :
    p.add b tx isLocal = (p, .error (.duplicate tx.id)) := by
  obtain ⟨e, he⟩ := exists_get?_of_has hhas
  have hknown : isKnown p.store tx.id = true := by
    rw [isKnown, hc.reported he, Bool.true_and]
    exact hhas
  rw [add]
  exact if_pos hknown

/-! ## Collections -/

/-- **A collection absorbs what it knows**: taking it in is fine, counts as
nothing new, and leaves the collection the same. -/
structure Absorbs {σ ι ε : Type} [GossipItem ι] [GossipSet σ ι ε] (env : ε) (same : σ → σ → Prop)
    (known : σ → ι → Prop) : Prop where
  refl : ∀ s, same s s
  trans : ∀ s s' s'', same s s' → same s' s'' → same s s''
  has : ∀ s x, known s x → GossipSet.has s (GossipItem.gossipId x) = true
  add : ∀ s x, known s x → ∃ s', GossipSet.add s env x = (s', .ok ()) ∧ same s s'
  keep : ∀ s s' x, same s s' → known s x → known s' x

section
variable {σ ι ε : Type} [GossipItem ι] [GossipSet σ ι ε] {env : ε} {same : σ → σ → Prop}
  {known : σ → ι → Prop}

/-- What byte strings spell is known. -/
def Spells (known : ι → Prop) (items : List Bytes) : Prop :=
  ∀ b ∈ items, ∀ x : ι, Wire.decode b = .ok x → known x

namespace Absorbs

/-- **Nothing new is taken in** of byte strings that spell what is known. -/
theorem takeIn (h : Absorbs env same known) {s : σ} {items : List Bytes}
    (hitems : Spells (known s) items) :
    ∃ s', TxRelay.takeIn env s items = (s', 0) ∧ same s s' := by
  induction items generalizing s with
  | nil => exact ⟨s, rfl, h.refl s⟩
  | cons b rest ih =>
    rw [TxRelay.takeIn]
    cases hb : (Wire.decode b : Except Wire.Fault ι) with
    | error fault => exact ih fun b' hb' => hitems b' (List.mem_cons_of_mem b hb')
    | ok x =>
      have hx := hitems b List.mem_cons_self x hb
      obtain ⟨s', hadd, hsame⟩ := h.add s x hx
      -- The rest is still known to what the collection has become.
      obtain ⟨s'', hrest, hsame'⟩ := ih (s := s') fun b' hb' x' hx' =>
        h.keep s s' x' hsame (hitems b' (List.mem_cons_of_mem b hb') x' hx')
      refine ⟨s'', ?_, h.trans s s' s'' hsame hsame'⟩
      dsimp only
      rw [hadd, h.has s x hx]
      dsimp only
      rw [hrest]
      rfl

variable {g : Gossiper σ ι}

/-- An announcement of what is known. -/
theorem handlePush (h : Absorbs env same known) {payload : Bytes}
    (hpush : ∀ m : Wire.PushMessage, Wire.decode payload = .ok m → Spells (known g.set) m.items) :
    ∃ set, g.handlePush env payload = { g with set } ∧ same g.set set := by
  rw [Gossiper.handlePush]
  cases hm : (Wire.decode payload : Except Wire.Fault Wire.PushMessage) with
  | error fault => exact ⟨g.set, rfl, h.refl g.set⟩
  | ok m =>
    obtain ⟨set, htaken, hsame⟩ := h.takeIn (hpush m hm)
    dsimp only
    rw [htaken]
    exact ⟨set, rfl, hsame⟩

/-- An answer with what is known. -/
theorem handleEnding (h : Absorbs env same known) {payload : Bytes} {m : Wire.PullResponse}
    (hm : Wire.decode payload = .ok m) (hitems : Spells (known g.set) m.items) :
    ∃ set, g.handleEnding env (.ok payload) = ({ g with set }, .ok 0) ∧ same g.set set := by
  obtain ⟨set, htaken, hsame⟩ := h.takeIn hitems
  rw [Gossiper.handleEnding]
  dsimp only
  rw [hm]
  dsimp only
  rw [htaken]
  exact ⟨set, rfl, hsame⟩

end Absorbs

end

/-- The ordinary transactions: only the journal of the coordinator gets longer. -/
theorem PoolSet.absorbs (views : Views) :
    Absorbs views (fun s s' : PoolSet => ∃ calls, s' = { s with pool := s.pool.noted calls })
      (fun s tx => Coordinator.Hosts s.pool.pools tx) where
  refl s := ⟨[], by rw [Coordinator.noted, List.append_nil]⟩
  trans s s' s'' := by
    rintro ⟨calls, rfl⟩ ⟨calls', rfl⟩
    exact ⟨calls ++ calls', by rw [Coordinator.noted_noted]⟩
  has s tx h := Coordinator.has_of_hosts h
  add s tx h := by
    obtain ⟨calls, hadd⟩ := Coordinator.add_of_hosts h views false false
    refine ⟨{ s with pool := s.pool.noted calls }, ?_, calls, rfl⟩
    show PoolSet.add s views tx = _
    rw [PoolSet.add, hadd]
    rfl
  keep s s' tx := by
    rintro ⟨calls, rfl⟩ h
    exact h

/-- The transfers: nothing at all changes. -/
theorem Mempool.absorbs (b : TransferBackend) :
    Absorbs b (fun p p' : Mempool => p' = p)
      (fun p tx => p.store.Coherent ∧ p.has tx.id = true) where
  refl _ := rfl
  trans _ _ _ h h' := h'.trans h
  has _ _ h := h.2
  add p tx h := by
    refine ⟨p, ?_, rfl⟩
    show p.takeRemote b tx = _
    rw [takeRemote, add_of_has h.1 h.2]
    rfl
  keep _ _ _ hsame h := hsame ▸ h

/-! ## A node -/

namespace Node

/-- **A way in** for what was held before. -/
inductive Delivery where
  /-- A message that announces. -/
  | push (message : Bytes)
  /-- An answer to a request of a protocol. -/
  | answer (protocol : Wire.Protocol) (payload : Bytes)
  /-- A transaction is put into the collection that is gossiped. -/
  | take (tx : Transaction)
  | takeTransfer (tx : Transfer)
  /-- A transaction comes in through the node's own interface. -/
  | submit (tx : Transaction)
  | submitTransfer (tx : Transfer)

/-- What is said to whoever delivers. -/
inductive Receipt where
  /-- An announcement is not answered. -/
  | silent
  /-- How many new items an answer has brought. -/
  | brought (result : Except GossipError Nat)
  | taken (result : Except GossipError Unit)
  | submitted (result : Except NodeError Digest)

/-- The node after a delivery, and what it says. -/
def deliver (n : Node) : Delivery → Node × Receipt
  | .push message => (n.receivePush message, .silent)
  | .answer .ordinary payload =>
    let (gossiper, result) := n.ordinary.gossiper.handleEnding n.poolViews (.ok payload)
    ({ n with ordinary.gossiper := gossiper }, .brought result)
  | .answer .transfers payload =>
    let (gossiper, result) :=
      n.transfers.gossiper.handleEnding n.ledger.transferBackend (.ok payload)
    ({ n with transfers.gossiper := gossiper }, .brought result)
  | .take tx =>
    let (set, result) := GossipSet.add n.ordinary.gossiper.set n.poolViews tx
    ({ n with ordinary.gossiper.set := set }, .taken result)
  | .takeTransfer tx =>
    let (set, result) := GossipSet.add n.transfers.gossiper.set n.ledger.transferBackend tx
    ({ n with transfers.gossiper.set := set }, .taken result)
  | .submit tx =>
    let (n, result) := n.submit tx
    (n, .submitted result)
  | .submitTransfer tx =>
    let (n, result) := n.submitTransfer tx
    (n, .submitted result)

/-- Several deliveries, one after the other. -/
def deliverAll (n : Node) : List Delivery → Node × List Receipt
  | [] => (n, [])
  | d :: rest =>
    let (n, receipt) := n.deliver d
    let (n, receipts) := n.deliverAll rest
    (n, receipt :: receipts)

/-- What is said if all is well and nothing is new. -/
def Delivery.welcome : Delivery → Receipt
  | .push _ => .silent
  | .answer _ _ => .brought (.ok 0)
  | .take _ | .takeTransfer _ => .taken (.ok ())
  | .submit tx => .submitted (.ok tx.hash)
  | .submitTransfer tx => .submitted (.ok tx.id)

/-- A transaction is held by one of the sub-pools. -/
def Holds (n : Node) (tx : Transaction) : Prop :=
  ∃ p ∈ n.pool.pools, ∃ q, p.holdings.get? tx.hash = some q ∧ q.tx = tx

/-- Everything that byte strings spell under a protocol is held. -/
def HoldsAll (n : Node) (items : List Bytes) : Wire.Protocol → Prop
  | .ordinary => Spells (fun tx : Transaction => n.Holds tx) items
  | .transfers => Spells (fun tx : Transfer => n.mempool.has tx.id = true) items

/-- **A delivery repeats** what the node holds already. -/
def Repeats (n : Node) : Delivery → Prop
  | .push message => ∀ protocol payload (m : Wire.PushMessage),
      n.dispatch message = .ok (protocol, payload) → Wire.decode payload = .ok m →
        n.HoldsAll m.items protocol
  | .answer protocol payload =>
    ∃ m : Wire.PullResponse, Wire.decode payload = .ok m ∧ n.HoldsAll m.items protocol
  | .take tx | .submit tx => n.Holds tx
  | .takeTransfer tx | .submitTransfer tx => n.mempool.has tx.id = true

section
variable {n : Node}

/-- The node with more calls in the journal of its coordinator. -/
def noted (n : Node) (calls : List PoolCall) : Node := n.withPool (n.pool.noted calls)

theorem noted_noted (n : Node) (calls calls' : List PoolCall) :
    (n.noted calls).noted calls' = n.noted (calls ++ calls') :=
  congrArg n.withPool (n.pool.noted_noted calls calls')

theorem noted_nil (n : Node) : n.noted [] = n := by
  rw [noted, Coordinator.noted, List.append_nil]
  rfl

/-- **A delivery that repeats** is welcome, and only noted. -/
theorem deliver_of_repeats (hhosts : ∀ tx, n.Holds tx → Coordinator.Hosts n.pool.pools tx)
    (hc : n.mempool.store.Coherent) {d : Delivery} (h : n.Repeats d) :
    ∃ calls, n.deliver d = (n.noted calls, d.welcome) := by
  have hordinary := PoolSet.absorbs n.poolViews
  have htransfers := Mempool.absorbs n.ledger.transferBackend
  cases d with
  | push message =>
    show ∃ calls, (n.receivePush message, Receipt.silent) = _
    rw [receivePush]
    cases hdispatch : n.dispatch message with
    | error e => exact ⟨[], by rw [noted_nil]; rfl⟩
    | ok told =>
      obtain ⟨protocol, payload⟩ := told
      cases protocol with
      | ordinary =>
        obtain ⟨set, hpush, calls, rfl⟩ := hordinary.handlePush (g := n.ordinary.gossiper)
          fun m hm b hb x hx => hhosts x (h .ordinary payload m hdispatch hm b hb x hx)
        dsimp only
        rw [hpush]
        exact ⟨calls, rfl⟩
      | transfers =>
        obtain ⟨set, hpush, hsame⟩ := htransfers.handlePush (g := n.transfers.gossiper)
          fun m hm b hb x hx => ⟨hc, h .transfers payload m hdispatch hm b hb x hx⟩
        dsimp only
        rw [hpush, hsame]
        exact ⟨[], by rw [noted_nil]; rfl⟩
  | answer protocol payload =>
    obtain ⟨m, hm, hitems⟩ := h
    cases protocol with
    | ordinary =>
      obtain ⟨set, hanswer, calls, rfl⟩ := hordinary.handleEnding (g := n.ordinary.gossiper) hm
        fun b hb x hx => hhosts x (hitems b hb x hx)
      rw [deliver, hanswer]
      exact ⟨calls, rfl⟩
    | transfers =>
      obtain ⟨set, hanswer, hsame⟩ := htransfers.handleEnding (g := n.transfers.gossiper) hm
        fun b hb x hx => ⟨hc, hitems b hb x hx⟩
      rw [deliver, hanswer, hsame]
      exact ⟨[], by rw [noted_nil]; rfl⟩
  | take tx =>
    obtain ⟨set, hadd, calls, rfl⟩ := hordinary.add n.ordinary.gossiper.set tx (hhosts tx h)
    rw [deliver, hadd]
    exact ⟨calls, rfl⟩
  | takeTransfer tx =>
    obtain ⟨set, hadd, hsame⟩ := htransfers.add n.transfers.gossiper.set tx ⟨hc, h⟩
    rw [deliver, hadd, hsame]
    exact ⟨[], by rw [noted_nil]; rfl⟩
  | submit tx =>
    obtain ⟨calls, hadd⟩ := Coordinator.add_of_hosts (hhosts tx h) n.poolViews true false
    rw [deliver, submit, Coordinator.addLocal, hadd]
    exact ⟨calls, rfl⟩
  | submitTransfer tx =>
    rw [deliver, submitTransfer, Mempool.addLocal, Mempool.add_of_has hc h]
    exact ⟨[], by rw [noted_nil]; rfl⟩

/-! What the wire format writes of held transactions repeats them. -/

/-- What is written of held transactions spells them and nothing else. -/
theorem holdsAll_map_write {txs : List Transaction} (hheld : ∀ tx ∈ txs, n.Holds tx)
    (hfits : ∀ tx ∈ txs, (Wire.Layout.write tx).length ≤ Wire.maxMessageBytes) :
    n.HoldsAll (txs.map Wire.Layout.write) .ordinary := by
  intro b hb x hx
  obtain ⟨tx, htx, rfl⟩ := List.mem_map.mp hb
  rw [Wire.decode_write (hfits tx htx)] at hx
  rw [← Except.ok.inj hx]
  exact hheld tx htx

theorem repeats_push {items : List Bytes} (hheld : n.HoldsAll items .ordinary)
    (hfits : (Wire.Layout.write (⟨items⟩ : Wire.PushMessage)).length ≤ Wire.maxMessageBytes) :
    n.Repeats (.push (Wire.Protocol.ordinary.tag (Wire.Layout.write (⟨items⟩ : Wire.PushMessage)))) := by
  intro protocol payload m hdispatch hm
  -- The first byte names the protocol, and the rest is the message.
  rw [dispatch, Network.dispatch] at hdispatch
  dsimp only [Wire.Protocol.tag, Wire.untag?] at hdispatch
  split at hdispatch
  · cases hdispatch
  · next byte payload' htold =>
    split at htold
    · obtain ⟨rfl, rfl⟩ := Prod.mk.inj (Except.ok.inj htold)
      cases hdispatch
      rw [Wire.decode_write hfits] at hm
      rw [← Except.ok.inj hm]
      exact hheld
    · cases htold

theorem repeats_answer {items : List Bytes} (hheld : n.HoldsAll items .ordinary)
    (hfits : (Wire.Layout.write (⟨items⟩ : Wire.PullResponse)).length ≤ Wire.maxMessageBytes) :
    n.Repeats (.answer .ordinary (Wire.Layout.write (⟨items⟩ : Wire.PullResponse))) :=
  ⟨_, Wire.decode_write hfits, hheld⟩

/-- What is noted makes no difference to what is held. -/
theorem Repeats.noted {d : Delivery} (h : n.Repeats d) (calls : List PoolCall) :
    (n.noted calls).Repeats d := by
  cases d with
  | answer protocol payload => cases protocol <;> exact h
  | push | take | takeTransfer | submit | submitTransfer => exact h

theorem deliverAll_of_repeats (hhosts : ∀ tx, n.Holds tx → Coordinator.Hosts n.pool.pools tx)
    (hc : n.mempool.store.Coherent) {ds : List Delivery} (h : ∀ d ∈ ds, n.Repeats d) :
    ∃ calls, n.deliverAll ds = (n.noted calls, ds.map Delivery.welcome) := by
  induction ds generalizing n with
  | nil => exact ⟨[], by rw [noted_nil]; rfl⟩
  | cons d rest ih =>
    obtain ⟨calls, hfirst⟩ := deliver_of_repeats hhosts hc (h d List.mem_cons_self)
    obtain ⟨calls', hrest⟩ := ih (n := n.noted calls) hhosts hc fun d' hd' =>
      (h d' (List.mem_cons_of_mem d hd')).noted calls
    refine ⟨calls ++ calls', ?_⟩
    rw [deliverAll, hfirst]
    dsimp only
    rw [hrest, noted_noted]
    rfl

end

/-- **Delivering again is nothing.** Take a coordinator of new sub-pools that is
called as it should be, a new transfer pool, whatever happens to the two, and a
node with what they hold. However many deliveries in whatever order repeat what
the node holds, each of them is welcome, and afterwards the node is the same,
with its counters, its announcements, its claimed accounts and all that its two
pools hold and remember. Only the journal of its coordinator says that there were
calls. -/
theorem deliverAll_of_run (head : Header)
    (specs : List (String × NonceLimits × (Transaction → Bool))) :
    ∃ c₀ : Coordinator NoncePool, Coordinator.start head (Coordinator.freshPools specs) = .running c₀ ∧
      ∀ (actions : List Coordinator.Action), (∀ action ∈ actions, action.Routed c₀.pools) →
        ∀ (settings : MempoolSettings) (salts : Nat → Salt) (p₀ : Mempool),
          Mempool.new settings salts = .ok p₀ →
            ∀ (offers : List Mempool.Action) (n : Node), n.pool.pools = (c₀.run actions).pools →
              n.mempool.store = (p₀.run offers).store →
                ∀ ds : List Delivery, (∀ d ∈ ds, n.Repeats d) →
                  ∃ calls, n.deliverAll ds = (n.noted calls, ds.map Delivery.welcome) := by
  obtain ⟨c₀, hstart, horderly, _, hempty⟩ := Coordinator.start_freshPools head specs
  refine ⟨c₀, hstart, fun actions hrouted settings salts p₀ hnew offers n hpools hstore ds hds => ?_⟩
  have hplace := (Coordinator.inPlace_of_empty hempty).run hrouted
  refine deliverAll_of_repeats (fun tx hheld => ?_) ?_ hds
  · obtain ⟨p, hp, q, hq, rfl⟩ := hheld
    rw [hpools] at hp ⊢
    exact Coordinator.hosts_of_held (horderly.run actions) hplace hp hq
  · rw [hstore]
    exact Mempool.coherent_run (Mempool.coherent_new hnew) offers

/-- A transaction comes in on all ways, and a transfer on two. -/
def echoes : List Delivery :=
  [.push (Wire.Protocol.ordinary.tag (Wire.Layout.write
      (⟨[PoolSet.second].map Wire.Layout.write⟩ : Wire.PushMessage))),
    .submitTransfer default,
    .answer .ordinary (Wire.Layout.write
      (⟨[PoolSet.second].map Wire.Layout.write⟩ : Wire.PullResponse)),
    .submit PoolSet.second, .takeTransfer default, .take PoolSet.second]

/-- The only transaction that a sub-pool was offered is the one that it holds. -/
theorem exists_held_second :
    ∃ p ∈ PoolSet.holding.pools, ∃ q,
      p.holdings.get? PoolSet.second.hash = some q ∧ q.tx = PoolSet.second := by
  obtain ⟨p, hp, hsome⟩ := List.any_eq_true.mp PoolSet.executable_holding.1
  obtain ⟨tx, htx⟩ := Option.isSome_iff_exists.mp hsome
  obtain ⟨q, hq, _⟩ := Option.map_eq_some_iff.mp htx
  obtain ⟨k, hk⟩ := List.mem_iff_getElem?.mp hp
  obtain ⟨p₀, hp₀, hbecomes⟩ := (PoolSet.single.becomeEach_act
    (.add (PoolSet.answering 0) [PoolSet.second] true false)).exists_before hk
  obtain rfl := List.mem_singleton.mp (List.mem_of_getElem? hp₀)
  have hall : p.holdings.All fun tx => tx = PoolSet.second :=
    hbecomes.all (fun hash q hq => by cases hq) fun tx htx => List.mem_singleton.mp htx.1
  exact ⟨p, hp, q, hq, hall _ q hq⟩

/-- A node that holds both is told so. -/
theorem deliverAll_of_echoes :
    ∃ (n : Node) (calls : List PoolCall), n.Holds PoolSet.second ∧
      n.mempool.has (default : Transfer).id = true ∧
      n.deliverAll echoes = (n.noted calls, echoes.map Delivery.welcome) := by
  obtain ⟨n₀, _⟩ := least_offer
  obtain ⟨p₀, hp₀⟩ := Mempool.exists_new_small
  obtain ⟨c₀, hstart, h⟩ := deliverAll_of_run default [("", .small, fun _ => true)]
  rw [PoolSet.start_single] at hstart
  obtain rfl := Coordinator.Started.running.inj hstart
  let actions : List Coordinator.Action := [.add (PoolSet.answering 0) [PoolSet.second] true false]
  let offers : List Mempool.Action := [.add ⟨fun _ => .ok (), fun _ => 0⟩ default true]
  let n := (n₀.withPool (PoolSet.single.run actions)).withMempool (p₀.run offers)
  have hrouted : ∀ action ∈ actions, action.Routed PoolSet.single.pools := by
    intro action haction
    rw [List.mem_singleton.mp haction]
    trivial
  have hheld : n.Holds PoolSet.second := exists_held_second
  have hhas : n.mempool.has (default : Transfer).id = true := by
    have hvalid : (⟨fun _ => .ok (), fun _ => 0⟩ : TransferBackend).validate default = .ok () := rfl
    have hentries := Mempool.entries_add_of_new hp₀ hvalid (by decide) true
    show (p₀.add ⟨fun _ => .ok (), fun _ => 0⟩ default true).1.store.entries.contains _ = true
    rw [hentries]
    exact Std.ExtTreeMap.contains_insert_self
  have hspelled : n.HoldsAll ([PoolSet.second].map Wire.Layout.write) .ordinary := by
    refine holdsAll_map_write (fun tx htx => ?_) fun tx htx => ?_
    · rw [List.mem_singleton.mp htx]
      exact hheld
    · rw [List.mem_singleton.mp htx]
      decide +kernel
  have hrepeats : ∀ d ∈ echoes, n.Repeats d := by
    simp only [echoes, List.forall_mem_cons]
    exact ⟨repeats_push hspelled (by decide +kernel), hhas,
      repeats_answer hspelled (by decide +kernel), hheld, hhas, hheld, nofun⟩
  obtain ⟨calls, hdelivered⟩ :=
    h actions hrouted .small (fun _ => default) p₀ hp₀ offers n rfl rfl echoes hrepeats
  exact ⟨n, calls, hheld, hhas, hdelivered⟩

end Node

end TxRelay
