/-
Whom a cycle asks.

A cycle asks as many of the peers that may be asked as the poll size allows, in whichever
order they are drawn. If it does not come to that, it asks nobody, and nothing changes. The
transport may refuse some of the requests, which are counted, or give some up, which makes the
cycle fail; the others wait.
-/
import TxRelay.Proofs.Asking

set_option autoImplicit false

namespace TxRelay

/-! ## Whom a node may ask -/

/-- **A node may ask another one** that is connected and that the provider vouches for
(`ValidatorGate::sample`). -/
structure MayAsk (own : NodeId) (history : List Network.Occurrence) (provider : ValidatorProvider)
    (subnet : SubnetId) (node : NodeId) : Prop where
  other : node ≠ own
  connected : Network.IsConnected node history
  vouched : provider.Vouches subnet node

namespace ValidatorLookup

section
variable (own : NodeId) (history : List Network.Occurrence) (provider : ValidatorProvider)
  (subnet : SubnetId)

theorem mem_eligible_iff {node : NodeId} :
    node ∈ (provider.lookup subnet).eligible own ((Network.new own).afterAll history).peers.toList ↔
      MayAsk own history provider subnet node := by
  rw [eligible, List.mem_filter, Std.ExtTreeSet.mem_toList, Network.mem_peers_of_history,
    Bool.and_eq_true, ValidatorProvider.admits_lookup_iff, bne_iff_ne]
  constructor
  · rintro ⟨⟨hother, hconnected⟩, _, hvouched⟩
    exact ⟨hother, hconnected, hvouched⟩
  · rintro ⟨hother, hconnected, hvouched⟩
    exact ⟨⟨hother, hconnected⟩, hother, hvouched⟩

omit own history provider subnet in
theorem nodup_eligible (lookup : ValidatorLookup) (own : NodeId) (peers : Std.ExtTreeSet NodeId) :
    (lookup.eligible own peers.toList).Nodup := by
  have hpeers : peers.toList.Nodup :=
    Std.ExtTreeSet.distinct_toList.imp fun hne heq => hne (Std.LawfulEqCmp.compare_eq_iff_eq.mpr heq)
  exact hpeers.filter _

/-- **A sample** holds some of those that may be asked, each once, and as many as there are
up to the limit, however they are drawn. -/
theorem sample_spec {draw : List NodeId → List NodeId} (hdraw : ∀ nodes, (draw nodes).Perm nodes)
    (limit : Nat) :
    let asked := (provider.lookup subnet).sample own draw
      ((Network.new own).afterAll history).peers.toList limit
    asked.Nodup ∧ (∀ node ∈ asked, MayAsk own history provider subnet node) ∧
      ∃ k, Entries.Counts (MayAsk own history provider subnet) k ∧ asked.length = min limit k := by
  have hperm := hdraw
    ((provider.lookup subnet).eligible own ((Network.new own).afterAll history).peers.toList)
  have hmem : ∀ node, node ∈ (provider.lookup subnet).eligible own
      ((Network.new own).afterAll history).peers.toList ↔ MayAsk own history provider subnet node :=
    fun _ => mem_eligible_iff own history provider subnet
  have hnodup := nodup_eligible (provider.lookup subnet) own ((Network.new own).afterAll history).peers
  refine ⟨(hperm.nodup_iff.mpr hnodup).sublist (List.take_sublist limit _), ?_, ?_⟩
  · intro node hnode
    exact (hmem node).mp (hperm.mem_iff.mp (List.mem_of_mem_take hnode))
  · refine ⟨_, ⟨_, hnodup, hmem, rfl⟩, ?_⟩
    rw [sample, List.length_take, hperm.length_eq]

end

/-- Nobody is asked after a lookup that failed. -/
theorem sample_of_error {draw : List NodeId → List NodeId} (hdraw : ∀ nodes, (draw nodes).Perm nodes)
    (e : ValidatorError) (own : NodeId) (peers : List NodeId) (limit : Nat) :
    sample (.error e) own draw peers limit = [] := by
  have hnobody : eligible (.error e) own peers = [] :=
    List.filter_eq_nil_iff.mpr fun node _ => by simp [admits]
  rw [sample, hnobody, (hdraw []).eq_nil, List.take_nil]

end ValidatorLookup

/-! ## Sending -/

/-- To whom requests go out. -/
def Outgoing.recipients (out : List Outgoing) : List NodeId :=
  out.filterMap fun
    | .request node _ _ _ => some node
    | .announcement _ => none

/-- The numbers of those that the transport takes. -/
def Outgoing.taken (reach : NodeId → Except GossipError Unit) (out : List Outgoing) : List UInt32 :=
  out.filterMap fun
    | .request node id _ _ => if (reach node).isOk then some id else none
    | .announcement _ => none

theorem Outgoing.taken_cons (reach : NodeId → Except GossipError Unit) (node : NodeId) (id : UInt32)
    (deadline : Nat) (message : Bytes) (out : List Outgoing) :
    taken reach (.request node id deadline message :: out)
      = if (reach node).isOk then id :: taken reach out else taken reach out := by
  by_cases hok : (reach node).isOk = true
  · rw [if_pos hok]
    exact List.filterMap_cons_some (if_pos hok)
  · rw [if_neg hok]
    exact List.filterMap_cons_none (if_neg hok)

/-- Whether the transport refuses a request to a node, other than by giving it up. -/
def Surroundings.refuses (w : Surroundings) (node : NodeId) : Bool :=
  !(w.reach node).isOk && !w.givesUp node

variable {σ ι ε : Type} [GossipItem ι] [GossipSet σ ι ε]

namespace Service

open Outgoing (recipients taken)

/-- The protocol after so many requests came to nothing. -/
def counting (g : Gossiper σ ι) (failures : Nat) : Gossiper σ ι :=
  { g with counters.pullFailures := g.counters.pullFailures + failures }

omit [GossipItem ι] [GossipSet σ ι ε] in
theorem countRefusal_eq {w : Surroundings} {peer : NodeId} {e : GossipError}
    (h : w.reach peer = .error e) (g : Gossiper σ ι) :
    g.countRefusal e = counting g (if w.refuses peer then 1 else 0) := by
  unfold Surroundings.refuses Surroundings.givesUp
  rw [h]
  cases e <;> rfl

omit [GossipItem ι] [GossipSet σ ι ε] in
/-- **Sending** a request to each peer: each gets one, those that the transport refuses are
counted, and those that it takes wait. -/
theorem ask_spec (w : Surroundings) (message : Bytes) (g : Gossiper σ ι) (n : Network)
    (peers : List NodeId) :
    (ask w message g n peers).1 = counting g (peers.countP w.refuses) ∧
      recipients (ask w message g n peers).2.2.2 = peers ∧
      (ask w message g n peers).2.2.1 = taken w.reach (ask w message g n peers).2.2.2 ∧
        ∀ o ∈ (ask w message g n peers).2.2.2, ∃ node id,
          o = .request node id (w.clock + g.settings.requestTimeout) message := by
  -- The induction is on the peers; each request changes the protocol and the network for the next.
  induction peers generalizing g n with
  | nil => exact ⟨rfl, rfl, rfl, nofun⟩
  | cons peer rest ih =>
    rw [ask]
    dsimp only
    split
    · next hreach =>
      have hok : (w.reach peer).isOk = true := by
        rw [hreach]
        rfl
      obtain ⟨hg, hout, hwaiting, hmessages⟩ :=
        ih g (n.request peer (w.now + g.settings.requestTimeout)).1
      refine ⟨?_, congrArg (peer :: ·) hout, ?_, ?_⟩
      · have htaken : w.refuses peer = false := by
          unfold Surroundings.refuses
          rw [hok]
          rfl
        rw [List.countP_cons_of_neg (Bool.eq_false_iff.mp htaken)]
        exact hg
      · refine (congrArg (_ :: ·) hwaiting).trans ?_
        exact ((Outgoing.taken_cons w.reach peer _ _ message _).trans (if_pos hok)).symm
      · rintro o (_ | ⟨_, ho⟩)
        · exact ⟨peer, _, rfl⟩
        · exact hmessages o ho
    · next e hreach =>
      have hok : (w.reach peer).isOk = false := by
        rw [hreach]
        rfl
      have hcounting := countRefusal_eq hreach g
      have hsettings : (g.countRefusal e).settings = g.settings := by
        rw [hcounting]
        rfl
      obtain ⟨hg, hout, hwaiting, hmessages⟩ := ih (g.countRefusal e)
        ((n.request peer (w.now + g.settings.requestTimeout)).1.giveUp
          (n.request peer (w.now + g.settings.requestTimeout)).2)
      refine ⟨?_, congrArg (peer :: ·) hout, ?_, ?_⟩
      · rw [hg, hcounting, List.countP_cons, Nat.add_comm]
        unfold counting
        rw [Nat.add_assoc]
      · refine hwaiting.trans ?_
        exact ((Outgoing.taken_cons w.reach peer _ _ message _).trans
          (if_neg (Bool.eq_false_iff.mp hok))).symm
      · rw [hsettings] at hmessages
        rintro o (_ | ⟨_, ho⟩)
        · exact ⟨peer, _, rfl⟩
        · exact hmessages o ho

/-! ## How a cycle opens -/

/-- **How a cycle opens**: nobody is to be asked, or there is nothing to ask with, or everybody
in the sample is asked (`PullGossiper::gossip`). -/
inductive Opened (s : Service σ ι) (env : ε) (w : Surroundings) (n : Network) :
    Service σ ι × Network × Cycle × List Outgoing → Prop where
  | idle (g : Gossiper σ ι) (c : Cycle)
      (h : ¬s.gossiper.Ready w.lookup n.self w.clock w.draw n.peers.toList)
      (hset : g.set = s.gossiper.set) (hcounters : g.counters = s.gossiper.counters)
      (hwaiting : c.waiting = []) :
      Opened s env w n ({ s with gossiper := g }, n, c, [])
  | unbuilt (g : Gossiper σ ι) (c : Cycle)
      (h : s.gossiper.Ready w.lookup n.self w.clock w.draw n.peers.toList)
      (hunbuilt : ∀ filter salt payload,
        (GossipSet.filter s.gossiper.set env).2 = .ok (filter, salt) →
          Wire.encode (⟨filter, salt.toList⟩ : Wire.PullRequest) ≠ .ok payload)
      (hset : g.set = (GossipSet.filter s.gossiper.set env).1)
      (hcounters : g.counters = s.gossiper.counters) (hwaiting : c.waiting = []) :
      Opened s env w n ({ s with gossiper := g }, n, c, [])
  | asking (g : Gossiper σ ι) (filter : Bytes) (salt : Salt) (payload : Bytes) (c : Cycle)
      (asked : Gossiper σ ι × Network × List UInt32 × List Outgoing)
      (h : s.gossiper.Ready w.lookup n.self w.clock w.draw n.peers.toList)
      (hfilter : (GossipSet.filter s.gossiper.set env).2 = .ok (filter, salt))
      (hencode : Wire.encode (⟨filter, salt.toList⟩ : Wire.PullRequest) = .ok payload)
      (hset : g.set = (GossipSet.filter s.gossiper.set env).1)
      (hfailures : g.counters.pullFailures = s.gossiper.counters.pullFailures)
      (hsettings : g.settings = s.gossiper.settings)
      (hasked : asked = ask w ((GossipItem.protocol ι).tag payload) g n
        (w.lookup.sample n.self w.draw n.peers.toList s.gossiper.settings.pollSize))
      (hwaiting : c.waiting = asked.2.2.1)
      (hresult : c.result = if (w.lookup.sample n.self w.draw n.peers.toList
        s.gossiper.settings.pollSize).any w.givesUp then .error .cancelled else .ok 0) :
      Opened s env w n ({ s with gossiper := asked.1 }, asked.2.1, c, asked.2.2.2)

theorem beginCycle_of_error {s : Service σ ι} {env : ε} {w : Surroundings} {n : Network}
    {g : Gossiper σ ι} {e : GossipError}
    (h : s.gossiper.beginPull env w.lookup n.self w.clock w.draw n.peers.toList = (g, .error e)) :
    s.beginCycle env w n = ({ s with gossiper := g }, n,
      ⟨[], w.now + s.gossiper.settings.requestTimeout, .error e⟩, []) := by
  rw [beginCycle, h]

theorem beginCycle_of_ok {s : Service σ ι} {env : ε} {w : Surroundings} {n : Network}
    {g : Gossiper σ ι} {inquiry : Gossiper.Inquiry}
    (h : s.gossiper.beginPull env w.lookup n.self w.clock w.draw n.peers.toList = (g, .ok inquiry)) :
    s.beginCycle env w n =
      let asked := ask w ((GossipItem.protocol ι).tag inquiry.payload) g n inquiry.peers
      ({ s with gossiper := asked.1 }, asked.2.1,
        ⟨asked.2.2.1, w.now + s.gossiper.settings.requestTimeout,
          if inquiry.peers.any w.givesUp then .error .cancelled else .ok 0⟩, asked.2.2.2) := by
  rw [beginCycle, h]

theorem opened (s : Service σ ι) (env : ε) (w : Surroundings) (n : Network) :
    s.Opened env w n (s.beginCycle env w n) := by
  have hbegun := s.gossiper.begun env w.lookup n.self w.clock w.draw n.peers.toList
  generalize hbegin : s.gossiper.beginPull env w.lookup n.self w.clock w.draw n.peers.toList = begun
    at hbegun
  cases hbegun with
  | stopped hstopped =>
    rw [beginCycle_of_error hbegin]
    refine .idle s.gossiper _ (fun h => ?_) rfl rfl rfl
    rw [h.running] at hstopped
    cases hstopped
  | tooSoon hrunning hsoon =>
    rw [beginCycle_of_ok hbegin]
    refine .idle s.gossiper _ (fun h => ?_) rfl rfl rfl
    rw [h.inTime] at hsoon
    cases hsoon
  | unentitled hrunning hsoon honly hself =>
    rw [beginCycle_of_ok hbegin]
    refine .idle _ _ (fun h => ?_) rfl rfl rfl
    rw [h.entitled honly] at hself
    cases hself
  | alone hrunning hsoon halone =>
    rw [beginCycle_of_ok hbegin]
    exact .idle _ _ (fun h => h.accompanied halone) rfl rfl rfl
  | unfiltered set e h hfilter =>
    rw [beginCycle_of_error hbegin]
    refine .unbuilt _ _ h ?_ (congrArg Prod.fst hfilter).symm rfl rfl
    intro filter salt payload hok
    rw [hfilter] at hok
    cases hok
  | unwritten set filter salt fault h hfilter hencode =>
    rw [beginCycle_of_error hbegin]
    refine .unbuilt _ _ h ?_ (congrArg Prod.fst hfilter).symm rfl rfl
    intro filter' salt' payload hok hpayload
    rw [hfilter] at hok
    obtain ⟨rfl, rfl⟩ := Prod.mk.inj (Except.ok.inj hok)
    rw [hencode] at hpayload
    cases hpayload
  | asking set filter salt payload h hfilter hencode =>
    rw [beginCycle_of_ok hbegin]
    refine .asking _ filter salt payload _ _ h (congrArg Prod.snd hfilter) hencode ?_ ?_ ?_ rfl rfl rfl
    · exact (congrArg Prod.fst hfilter).symm
    · rfl
    · rfl

namespace Opened

variable {s : Service σ ι} {env : ε} {w : Surroundings} {n : Network}
  {result : Service σ ι × Network × Cycle × List Outgoing}

/-- If the protocol is not ready, the cycle is idle. -/
theorem of_not_ready (h : s.Opened env w n result)
    (hidle : ¬s.gossiper.Ready w.lookup n.self w.clock w.draw n.peers.toList) :
    result.2.2.2 = [] ∧ result.2.1 = n ∧ result.1.gossiper.set = s.gossiper.set ∧
      result.1.gossiper.counters = s.gossiper.counters := by
  cases h with
  | idle g c h hset hcounters hwaiting => exact ⟨rfl, rfl, hset, hcounters⟩
  | unbuilt g c h hunbuilt hset hcounters hwaiting => exact absurd h hidle
  | asking g filter salt payload c asked h hfilter hencode hset hfailures hsame hasked hwaiting hresult =>
    exact absurd h hidle

/-- If only an empty sample can keep it from being ready, the sample is asked. -/
theorem recipients_eq (h : s.Opened env w n result)
    (hready : w.lookup.sample n.self w.draw n.peers.toList s.gossiper.settings.pollSize ≠ [] →
      s.gossiper.Ready w.lookup n.self w.clock w.draw n.peers.toList)
    {filter : Bytes} {salt : Salt} {payload : Bytes}
    (hfilter : (GossipSet.filter s.gossiper.set env).2 = .ok (filter, salt))
    (hencode : Wire.encode (⟨filter, salt.toList⟩ : Wire.PullRequest) = .ok payload) :
    recipients result.2.2.2
        = w.lookup.sample n.self w.draw n.peers.toList s.gossiper.settings.pollSize ∧
      ∀ o ∈ result.2.2.2, ∃ node id, o = .request node id
        (w.clock + s.gossiper.settings.requestTimeout) ((GossipItem.protocol ι).tag payload) := by
  cases h with
  | idle g c h hset hcounters hwaiting =>
    exact ⟨(Classical.not_not.mp fun hsome => h (hready hsome)).symm, nofun⟩
  | unbuilt g c h hunbuilt hset hcounters hwaiting =>
    exact absurd hencode (hunbuilt filter salt payload hfilter)
  | asking g filter' salt' payload' c asked h hfilter' hencode' hset hfailures hsame hasked hwaiting
      hresult =>
    rw [hfilter] at hfilter'
    obtain ⟨rfl, rfl⟩ := Prod.mk.inj (Except.ok.inj hfilter')
    rw [hencode] at hencode'
    rw [← Except.ok.inj hencode'] at hasked
    obtain ⟨_, hout, _, hmessages⟩ := ask_spec w ((GossipItem.protocol ι).tag payload) g n
      (w.lookup.sample n.self w.draw n.peers.toList s.gossiper.settings.pollSize)
    rw [← hasked] at hout hmessages
    rw [hsame] at hmessages
    exact ⟨hout, hmessages⟩

theorem pullFailures_eq (h : s.Opened env w n result) :
    result.1.gossiper.counters.pullFailures = s.gossiper.counters.pullFailures
      + (recipients result.2.2.2).countP w.refuses := by
  cases h with
  | idle g c h hset hcounters hwaiting => exact congrArg GossipCounters.pullFailures hcounters
  | unbuilt g c h hunbuilt hset hcounters hwaiting =>
    exact congrArg GossipCounters.pullFailures hcounters
  | asking g filter salt payload c asked h hfilter hencode hset hfailures hsame hasked hwaiting hresult =>
    obtain ⟨hg, hout, _⟩ := ask_spec w ((GossipItem.protocol ι).tag payload) g n
      (w.lookup.sample n.self w.draw n.peers.toList s.gossiper.settings.pollSize)
    rw [← hasked] at hg hout
    dsimp only
    rw [hout, hg, ← hfailures]
    rfl

/-- If a request is given up, the cycle has failed. -/
theorem result_eq (h : s.Opened env w n result)
    (hgiven : ∃ node ∈ recipients result.2.2.2, w.reach node = .error .cancelled) :
    result.2.2.1.result = .error .cancelled := by
  obtain ⟨node, hnode, hreach⟩ := hgiven
  cases h with
  | idle g c h hset hcounters hwaiting => cases hnode
  | unbuilt g c h hunbuilt hset hcounters hwaiting => cases hnode
  | asking g filter salt payload c asked h hfilter hencode hset hfailures hsame hasked hwaiting hresult =>
    obtain ⟨_, hout, _⟩ := ask_spec w ((GossipItem.protocol ι).tag payload) g n
      (w.lookup.sample n.self w.draw n.peers.toList s.gossiper.settings.pollSize)
    rw [← hasked] at hout
    dsimp only at hnode
    rw [hout] at hnode
    have hgives : w.givesUp node = true := by
      unfold Surroundings.givesUp
      rw [hreach]
    exact hresult.trans (if_pos (List.any_eq_true.mpr ⟨node, hnode, hgives⟩))

theorem waiting_eq (h : s.Opened env w n result) :
    result.2.2.1.waiting = taken w.reach result.2.2.2 := by
  cases h with
  | idle g c h hset hcounters hwaiting => exact hwaiting
  | unbuilt g c h hunbuilt hset hcounters hwaiting => exact hwaiting
  | asking g filter salt payload c asked h hfilter hencode hset hfailures hsame hasked hwaiting hresult =>
    obtain ⟨_, _, htaken, _⟩ := ask_spec w ((GossipItem.protocol ι).tag payload) g n
      (w.lookup.sample n.self w.draw n.peers.toList s.gossiper.settings.pollSize)
    rw [← hasked] at htaken
    exact hwaiting.trans htaken

theorem set_or (h : s.Opened env w n result) :
    result.1.gossiper.set = s.gossiper.set ∨
      result.1.gossiper.set = (GossipSet.filter s.gossiper.set env).1 := by
  cases h with
  | idle g c h hset hcounters hwaiting => exact Or.inl hset
  | unbuilt g c h hunbuilt hset hcounters hwaiting => exact Or.inr hset
  | asking g filter salt payload c asked h hfilter hencode hset hfailures hsame hasked hwaiting hresult =>
    refine Or.inr (Eq.trans ?_ hset)
    rw [hasked]
    exact set_ask w _ g n _

end Opened

/-! ## Whom a cycle asks -/

/-- The last slot of a protocol is less than the least gap ago. -/
def InPause (settings : GossipSettings) (operations : List (Gossiper.Operation σ ε)) (now : Nat) : Prop :=
  ∃ t, (Gossiper.slots settings.minPullGap none operations).getLast? = some t ∧
    now - t < settings.minPullGap

/-- **Whom a cycle asks** that begins after some operations of the protocol, at a node with a
history, and how this is counted (`PullGossiper::gossip`). -/
structure AsksVouched (s : Service σ ι) (env : ε) (w : Surroundings) (n : Network)
    (settings : GossipSettings) (operations : List (Gossiper.Operation σ ε)) (own : NodeId)
    (history : List Network.Occurrence) (provider : ValidatorProvider) (subnet : SubnetId) : Prop where
  /-- If the protocol was not stopped, is not in a pause and has the weight that it needs, and
  a request can be made, then the request goes to as many of those that may be asked as the
  poll size allows, to each of them once, and nothing else is sent. -/
  asks : .stop ∉ operations → ¬InPause settings operations w.clock →
    (settings.onlyAsValidator = true → provider.Vouches subnet own) →
      ∀ filter salt payload, (GossipSet.filter s.gossiper.set env).2 = .ok (filter, salt) →
        Wire.encode (⟨filter, salt.toList⟩ : Wire.PullRequest) = .ok payload →
          let out := (s.beginCycle env w n).2.2.2
          (recipients out).Nodup ∧ (∀ node ∈ recipients out, MayAsk own history provider subnet node) ∧
            (∃ k, Entries.Counts (MayAsk own history provider subnet) k ∧
              (recipients out).length = min settings.pollSize k) ∧
            ∀ o ∈ out, ∃ node id, o = .request node id (w.clock + settings.requestTimeout)
              ((GossipItem.protocol ι).tag payload)
  /-- Nobody is asked by a protocol that was stopped, in a pause, after a lookup that failed, or
  without a weight if it needs one, and nothing is changed or counted. -/
  silent : .stop ∈ operations ∨ InPause settings operations w.clock ∨
      (∃ e, provider.lookup subnet = .error e) ∨
      (settings.onlyAsValidator = true ∧ ¬provider.Vouches subnet own) →
    (s.beginCycle env w n).2.2.2 = [] ∧ (s.beginCycle env w n).2.1 = n ∧
      (s.beginCycle env w n).1.gossiper.set = s.gossiper.set ∧
        (s.beginCycle env w n).1.gossiper.counters = s.gossiper.counters
  /-- Each request that the transport refuses, other than by giving it up, is a failure. -/
  failures : (s.beginCycle env w n).1.gossiper.counters.pullFailures
    = s.gossiper.counters.pullFailures + (recipients (s.beginCycle env w n).2.2.2).countP w.refuses
  /-- One that it gives up makes the cycle fail. -/
  givenUp : (∃ node ∈ recipients (s.beginCycle env w n).2.2.2, w.reach node = .error .cancelled) →
    (s.beginCycle env w n).2.2.1.result = .error .cancelled
  /-- Those that it takes wait for their answers. -/
  waiting_eq : (s.beginCycle env w n).2.2.1.waiting = taken w.reach (s.beginCycle env w n).2.2.2
  /-- Whatever becomes of them, the collection is left alone: it is as it was, or as it is for
  having been asked for its filter. -/
  set_or : (s.beginCycle env w n).1.gossiper.set = s.gossiper.set ∨
    (s.beginCycle env w n).1.gossiper.set = (GossipSet.filter s.gossiper.set env).1

section
variable {s : Service σ ι} {w : Surroundings} {n : Network} {settings : GossipSettings} {set : σ}
  {operations : List (Gossiper.Operation σ ε)} {own : NodeId} {history : List Network.Occurrence}
  {provider : ValidatorProvider} {subnet : SubnetId}

/-- **When a protocol is ready**, in terms of its operations and of what the provider answers. -/
theorem ready_iff (hs : s.gossiper = (Gossiper.new settings set).run operations)
    (hn : n = (Network.new own).afterAll history) (hlookup : w.lookup = provider.lookup subnet) :
    s.gossiper.Ready w.lookup n.self w.clock w.draw n.peers.toList ↔
      .stop ∉ operations ∧ ¬InPause settings operations w.clock ∧
        (settings.onlyAsValidator = true → provider.Vouches subnet own) ∧
        w.lookup.sample n.self w.draw n.peers.toList s.gossiper.settings.pollSize ≠ [] := by
  obtain ⟨hsettings, hcancelled, hlast⟩ :=
    Gossiper.pacing_run (g := (Gossiper.new settings set : Gossiper σ ι)) rfl operations
  rw [← hs] at hsettings hcancelled hlast
  have hsettings : s.gossiper.settings = settings := hsettings
  -- The pause is what the protocol itself takes for one.
  have hpause : s.gossiper.isTooSoon w.clock = true ↔ InPause settings operations w.clock := by
    rw [Gossiper.isTooSoon_eq_any, hlast, hsettings, Option.any_eq_true]
    simp [InPause, Gossiper.new]
  have hadmits : w.lookup.admits n.self = true ↔ provider.Vouches subnet own := by
    rw [hlookup, hn, Network.self_afterAll]
    exact ValidatorProvider.admits_lookup_iff
  rw [← hcancelled, ← hpause, ← hadmits, ← hsettings, Bool.not_eq_true, Bool.not_eq_true]
  exact ⟨fun h => ⟨h.running, h.inTime, h.entitled, h.accompanied⟩,
    fun ⟨hrunning, hgap, hentitled, hsome⟩ => ⟨hrunning, hgap, hentitled, hsome⟩⟩

theorem asksVouched (hs : s.gossiper = (Gossiper.new settings set).run operations)
    (hn : n = (Network.new own).afterAll history) (hlookup : w.lookup = provider.lookup subnet)
    (hdraw : ∀ nodes, (w.draw nodes).Perm nodes) (env : ε) :
    s.AsksVouched env w n settings operations own history provider subnet := by
  have hopened := s.opened env w n
  have hready := ready_iff hs hn hlookup
  have hsettings : s.gossiper.settings = settings := by
    rw [hs]
    exact (Gossiper.pacing_run rfl operations).1
  have hown : n.self = own := by
    rw [hn]
    exact (Network.new own).self_afterAll history
  subst hn
  constructor
  case asks =>
    intro hrunning hgap hentitled filter salt payload hfilter hencode
    obtain ⟨hout, hmessages⟩ := hopened.recipients_eq
      (fun hsome => hready.mpr ⟨hrunning, hgap, hentitled, hsome⟩) hfilter hencode
    obtain ⟨hnodup, hmay, hcounts⟩ :=
      ValidatorLookup.sample_spec own history provider subnet hdraw settings.pollSize
    rw [hlookup, hown, hsettings] at hout
    rw [hsettings] at hmessages
    dsimp only
    rw [hout]
    exact ⟨hnodup, hmay, hcounts, hmessages⟩
  case silent =>
    intro hwhy
    apply hopened.of_not_ready
    intro h
    obtain ⟨hrunning, hgap, hentitled, hsome⟩ := hready.mp h
    rcases hwhy with hstop | hpause | ⟨e, he⟩ | ⟨honly, hweight⟩
    · exact hrunning hstop
    · exact hgap hpause
    · apply hsome
      rw [hlookup, he]
      exact ValidatorLookup.sample_of_error hdraw e _ _ _
    · exact hweight (hentitled honly)
  case failures => exact hopened.pullFailures_eq
  case givenUp => exact hopened.result_eq
  case waiting_eq => exact hopened.waiting_eq
  case set_or => exact hopened.set_or

end

end Service

end TxRelay
