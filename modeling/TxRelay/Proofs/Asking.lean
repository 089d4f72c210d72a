/-
Whom a protocol may ask, and when.

Nodes are connected and disconnected, and requests to them come and go. Whoever is a peer in
the end was connected and has not been disconnected since, whatever else happened. Of the
peers those may be asked that the provider of validator sets vouches for.

A protocol asks in cycles, and does other things in between. A cycle takes a slot: it does
so unless the protocol was stopped or the last slot was taken too short a while ago, and it
does so even if nothing comes of it afterwards. So when the last slot was taken can be read
off from the times at which cycles were begun. Everything that a protocol does with its
tasks comes down to a few operations, and no other one of them has to do with slots.
-/
import TxRelay.Proofs.Entries
import TxRelay.Proofs.Pushing
import TxRelay.Proofs.Responder

set_option autoImplicit false

namespace TxRelay

/-! ## Who is connected -/

namespace Network

/-- Something that happens at a node's end of the network (`Network`). -/
inductive Occurrence where
  | registered (p : Wire.Protocol)
  | connected (node : NodeId)
  | disconnected (node : NodeId)
  /-- A request is made. -/
  | requested (node : NodeId) (deadline : Nat)
  /-- An answer or a refusal comes in. -/
  | concluded (node : NodeId) (id : UInt32) (result : Except GossipError Bytes)
  /-- Requests are given up. -/
  | givenUp (ids : List UInt32)
  /-- The time has come for the requests whose time is over. -/
  | expired (now : Nat)

/-- The network after something happened. -/
def after (n : Network) : Occurrence → Network
  | .registered p => (n.register p).toOption.getD n
  | .connected node => n.connect node
  | .disconnected node => (n.disconnect node).1
  | .requested node deadline => (n.request node deadline).1
  | .concluded node id result => (n.conclude node id result).1
  | .givenUp ids => n.without ids
  | .expired now => (n.expire now).1

/-- The network after many things happened. -/
def afterAll (n : Network) (history : List Occurrence) : Network := history.foldl after n

/-- A node was connected, and not disconnected since. -/
def IsConnected (node : NodeId) (history : List Occurrence) : Prop :=
  ∃ before since, history = before ++ .connected node :: since ∧ .disconnected node ∉ since

theorem isConnected_cons {node : NodeId} {o : Occurrence} {rest : List Occurrence} :
    IsConnected node (o :: rest) ↔
      (o = .connected node ∧ .disconnected node ∉ rest) ∨ IsConnected node rest := by
  constructor
  · rintro ⟨before, since, heq, hsince⟩
    cases before with
    | nil =>
      obtain ⟨rfl, rfl⟩ := List.cons.inj heq
      exact Or.inl ⟨rfl, hsince⟩
    | cons o' before =>
      obtain ⟨_, rfl⟩ := List.cons.inj heq
      exact Or.inr ⟨before, since, rfl, hsince⟩
  · rintro (⟨rfl, hsince⟩ | ⟨before, since, rfl, hsince⟩)
    · exact ⟨[], rest, rfl, hsince⟩
    · exact ⟨o :: before, since, rfl, hsince⟩

variable {n : Network} {node : NodeId}

theorem conclude_peers (n : Network) (node : NodeId) (id : UInt32) (result : Except GossipError Bytes) :
    (n.conclude node id result).1.self = n.self ∧ (n.conclude node id result).1.peers = n.peers := by
  unfold conclude
  split
  · split <;> exact ⟨rfl, rfl⟩
  · exact ⟨rfl, rfl⟩

theorem after_registered (n : Network) (p : Wire.Protocol) :
    (n.after (.registered p)).self = n.self ∧ (n.after (.registered p)).peers = n.peers := by
  unfold after register
  dsimp only
  split <;> exact ⟨rfl, rfl⟩

theorem self_after (n : Network) (o : Occurrence) : (n.after o).self = n.self := by
  cases o with
  | registered p => exact (n.after_registered p).1
  | connected node =>
    show (n.connect node).self = n.self
    unfold connect
    split <;> rfl
  | concluded node id result => exact (n.conclude_peers node id result).1
  | disconnected node => rfl
  | requested node deadline => rfl
  | givenUp ids => rfl
  | expired now => rfl

theorem self_afterAll (n : Network) (history : List Occurrence) : (n.afterAll history).self = n.self := by
  induction history generalizing n with
  | nil => rfl
  | cons o rest ih => exact (ih (n.after o)).trans (n.self_after o)

/-- **What happens changes the peers** if somebody else is connected, or somebody is
disconnected. -/
theorem mem_peers_after {o : Occurrence} :
    node ∈ (n.after o).peers ↔
      (node ∈ n.peers ∧ o ≠ .disconnected node) ∨ (node ≠ n.self ∧ o = .connected node) := by
  cases o with
  | registered p =>
    rw [(n.after_registered p).2]
    simp
  | connected node' =>
    show node ∈ (n.connect node').peers ↔ _
    unfold connect
    by_cases hself : node' = n.self
    · rw [if_pos hself]
      simp only [Occurrence.connected.injEq, hself]
      simp [eq_comm]
    · rw [if_neg hself]
      simp only [Std.ExtTreeSet.mem_insert, Std.LawfulEqCmp.compare_eq_iff_eq,
        Occurrence.connected.injEq]
      constructor
      · rintro (rfl | hmem)
        · exact Or.inr ⟨hself, rfl⟩
        · exact Or.inl ⟨hmem, nofun⟩
      · rintro (⟨hmem, _⟩ | ⟨_, heq⟩)
        · exact Or.inr hmem
        · exact Or.inl heq
  | disconnected node' =>
    show node ∈ n.peers.erase node' ↔ _
    simp only [Std.ExtTreeSet.mem_erase, Ne, Std.LawfulEqCmp.compare_eq_iff_eq,
      Occurrence.disconnected.injEq]
    simp [and_comm]
  | concluded node' id result =>
    show node ∈ (n.conclude node' id result).1.peers ↔ _
    rw [(n.conclude_peers node' id result).2]
    simp
  | requested node' deadline =>
    show node ∈ n.peers ↔ _
    simp
  | givenUp ids =>
    show node ∈ n.peers ↔ _
    simp
  | expired now =>
    show node ∈ n.peers ↔ _
    simp

theorem mem_peers_afterAll {history : List Occurrence} :
    node ∈ (n.afterAll history).peers ↔
      (node ∈ n.peers ∧ .disconnected node ∉ history) ∨ (node ≠ n.self ∧ IsConnected node history) := by
  induction history generalizing n with
  | nil => simp [afterAll, IsConnected]
  | cons o rest ih =>
    show node ∈ ((n.after o).afterAll rest).peers ↔ _
    rw [ih, mem_peers_after, self_after, isConnected_cons, List.mem_cons]
    -- The last of the two, connected or disconnected, decides.
    by_cases hlast : Occurrence.disconnected node ∈ rest
    · simp [hlast]
    · simp only [hlast, not_false_eq_true, and_true, or_false, and_or_left, or_assoc, Ne, eq_comm]

/-- **The peers of a node** are the others that were connected and not disconnected since. -/
theorem mem_peers_of_history {self : NodeId} {history : List Occurrence} :
    node ∈ ((new self).afterAll history).peers ↔ node ≠ self ∧ IsConnected node history := by
  rw [mem_peers_afterAll, or_iff_right]
  · rfl
  · rintro ⟨hmem, _⟩
    exact Std.ExtTreeSet.not_mem_empty hmem

end Network

/-! ## When a cycle has a slot -/

namespace Gossiper

/-- Something that a protocol does, or that happens to its collection (`GossipHandler`,
`PullGossiper`, `PushGossiper`). -/
inductive Operation (σ ε : Type) where
  | meanwhile (set : σ)
  /-- It answers a request. -/
  | answer (env : ε) (lookup : ValidatorLookup) (now deadline : Nat) (node : NodeId) (payload : Bytes)
  /-- It takes in an announcement. -/
  | receive (env : ε) (payload : Bytes)
  /-- It begins a cycle. -/
  | cycle (env : ε) (lookup : ValidatorLookup) (self : NodeId) (now : Nat)
      (draw : List NodeId → List NodeId) (peers : List NodeId)
  /-- The transport refuses a request. -/
  | unsent
  /-- A request of it has ended. -/
  | conclude (env : ε) (result : Except GossipError Bytes)
  /-- It queues its own items. -/
  | queue (es : List Event)
  /-- It announces them. -/
  | flush (answers : Nat → Except GossipError Unit)
  /-- It is stopped for good. -/
  | stop

variable {σ ι ε : Type} [GossipItem ι] [GossipSet σ ι ε]

/-- The protocol after an operation. -/
def act (g : Gossiper σ ι) : Operation σ ε → Gossiper σ ι
  | .meanwhile set => { g with set }
  | .answer env lookup now deadline node payload =>
    (g.handleRequest env lookup now deadline node payload).1
  | .receive env payload => g.handlePush env payload
  | .cycle env lookup self now draw peers => (g.beginPull env lookup self now draw peers).1
  | .unsent => g.countFailure
  | .conclude env result => (g.handleEnding env result).1
  | .queue es => g.queue es
  | .flush answers => (g.push answers).1
  | .stop => { g with cancelled := true }

/-- The protocol after several operations. -/
def run (g : Gossiper σ ι) (operations : List (Operation σ ε)) : Gossiper σ ι := operations.foldl act g

/-- The slot that an operation takes, after a last one: a cycle takes one unless the last one is
less than the gap ago. -/
def slot? {σ ε : Type} (gap : Nat) (last : Option Nat) : Operation σ ε → Option Nat
  | .cycle _ _ _ now _ _ => if last.any fun t => now - t < gap then none else some now
  | _ => none

/-- **The slots that operations take**, after a last one and until the protocol is stopped. -/
def slots {σ ε : Type} (gap : Nat) : Option Nat → List (Operation σ ε) → List Nat
  | _, [] => []
  | _, .stop :: _ => []
  | last, d :: rest => (slot? gap last d).toList ++ slots gap ((slot? gap last d).or last) rest

/-- What slots depend on: the settings, whether the protocol was stopped, and the last
slot. -/
def pacing (g : Gossiper σ ι) : GossipSettings × Bool × Option Nat :=
  (g.settings, g.cancelled, g.lastPull)

/-! ### How a cycle begins -/

/-- **A cycle has peers to ask**: the protocol was not stopped, the last slot is far enough
away, the node may ask at all, and the sample is not empty (`PullGossiper::gossip`). -/
structure Ready (g : Gossiper σ ι) (lookup : ValidatorLookup) (own : NodeId) (now : Nat)
    (draw : List NodeId → List NodeId) (peers : List NodeId) : Prop where
  running : g.cancelled = false
  inTime : g.isTooSoon now = false
  entitled : g.settings.onlyAsValidator = true → lookup.admits own = true
  accompanied : lookup.sample own draw peers g.settings.pollSize ≠ []

/-- **How a cycle begins**: with a protocol that was stopped, too soon, without a weight that
it needs, without peers, without a filter, without a request, or with everything
(`PullGossiper::gossip`). -/
inductive Begun (g : Gossiper σ ι) (env : ε) (lookup : ValidatorLookup) (self : NodeId) (now : Nat)
    (draw : List NodeId → List NodeId) (peers : List NodeId) :
    Gossiper σ ι × Except GossipError Inquiry → Prop where
  | stopped (hstopped : g.cancelled = true) :
      Begun g env lookup self now draw peers (g, .error .cancelled)
  | tooSoon (hrunning : g.cancelled = false) (hsoon : g.isTooSoon now = true) :
      Begun g env lookup self now draw peers (g, .ok .nobody)
  | unentitled (hrunning : g.cancelled = false) (hsoon : g.isTooSoon now = false)
      (honly : g.settings.onlyAsValidator = true) (hself : lookup.admits self = false) :
      Begun g env lookup self now draw peers ({ g with lastPull := some now }, .ok .nobody)
  | alone (hrunning : g.cancelled = false) (hsoon : g.isTooSoon now = false)
      (halone : lookup.sample self draw peers g.settings.pollSize = []) :
      Begun g env lookup self now draw peers ({ g with lastPull := some now }, .ok .nobody)
  | unfiltered (set : σ) (e : GossipError) (h : g.Ready lookup self now draw peers)
      (hfilter : GossipSet.filter g.set env = (set, .error e)) :
      Begun g env lookup self now draw peers ({ g with lastPull := some now, set }, .error e)
  | unwritten (set : σ) (filter : Bytes) (salt : Salt) (fault : Wire.Fault)
      (h : g.Ready lookup self now draw peers)
      (hfilter : GossipSet.filter g.set env = (set, .ok (filter, salt)))
      (hencode : Wire.encode (⟨filter, salt.toList⟩ : Wire.PullRequest) = .error fault) :
      Begun g env lookup self now draw peers
        ({ g with lastPull := some now, set }, .error (.ofFault fault))
  | asking (set : σ) (filter : Bytes) (salt : Salt) (payload : Bytes)
      (h : g.Ready lookup self now draw peers)
      (hfilter : GossipSet.filter g.set env = (set, .ok (filter, salt)))
      (hencode : Wire.encode (⟨filter, salt.toList⟩ : Wire.PullRequest) = .ok payload) :
      Begun g env lookup self now draw peers
        ({ g with
            lastPull := some now, set
            counters.pullRequestsSent := g.counters.pullRequestsSent
              + (lookup.sample self draw peers g.settings.pollSize).length },
          .ok ⟨lookup.sample self draw peers g.settings.pollSize, payload⟩)

omit [GossipItem ι] in
theorem begun (g : Gossiper σ ι) (env : ε) (lookup : ValidatorLookup) (self : NodeId) (now : Nat)
    (draw : List NodeId → List NodeId) (peers : List NodeId) :
    g.Begun env lookup self now draw peers (g.beginPull env lookup self now draw peers) := by
  -- The checks, in the order in which they are made.
  rw [beginPull]
  split
  · next hstopped => exact .stopped hstopped
  next hrunning =>
  have hrunning := Bool.eq_false_iff.mpr hrunning
  split
  · next hsoon => exact .tooSoon hrunning hsoon
  next hsoon =>
  have hsoon := Bool.eq_false_iff.mpr hsoon
  dsimp only
  split
  · next hself =>
    obtain ⟨honly, hself⟩ := Bool.and_eq_true_iff.mp hself
    exact .unentitled hrunning hsoon honly (by simpa using hself)
  next hself =>
  have hentitled : g.settings.onlyAsValidator = true → lookup.admits self = true := by
    intro honly
    cases hadmits : lookup.admits self with
    | true => rfl
    | false => exact absurd (by rw [honly, hadmits]; rfl) hself
  split
  · next halone => exact .alone hrunning hsoon (List.isEmpty_iff.mp halone)
  next hsome =>
  have hready : g.Ready lookup self now draw peers :=
    ⟨hrunning, hsoon, hentitled, fun hnil => hsome (List.isEmpty_iff.mpr hnil)⟩
  rw [inquire]
  split
  · next set e hfilter => exact .unfiltered set e hready hfilter
  next set filter salt hfilter =>
  dsimp only
  split
  · next fault hencode => exact .unwritten set filter salt fault hready hfilter hencode
  · next payload hencode => exact .asking set filter salt payload hready hfilter hencode

/-! ### Slots in the course of time -/

theorem pacing_handleRequest (g : Gossiper σ ι) (env : ε) (lookup : ValidatorLookup) (now deadline : Nat)
    (node : NodeId) (payload : Bytes) :
    (g.handleRequest env lookup now deadline node payload).1.pacing = g.pacing := by
  have hfst := congrArg pacing (fst_respond
    { g with counters.requestsReceived := g.counters.requestsReceived + 1 } env lookup now deadline
    node payload)
  rw [handleRequest]
  dsimp only
  split
  · next g' b heq => exact (congrArg (fun r => r.1.pacing) heq).symm.trans hfst
  · next g' e heq => exact (congrArg (fun r => r.1.pacing) heq).symm.trans hfst

theorem pacing_handlePush (g : Gossiper σ ι) (env : ε) (payload : Bytes) :
    (g.handlePush env payload).pacing = g.pacing := by
  rw [handlePush]
  split <;> rfl

theorem pacing_handleEnding (g : Gossiper σ ι) (env : ε) (result : Except GossipError Bytes) :
    (g.handleEnding env result).1.pacing = g.pacing := by
  rw [handleEnding.eq_def]
  split
  · rfl
  · rfl
  · split <;> rfl

omit [GossipItem ι] [GossipSet σ ι ε] in
theorem isTooSoon_eq_any (g : Gossiper σ ι) (now : Nat) :
    g.isTooSoon now = g.lastPull.any fun t => now - t < g.settings.minPullGap := by
  unfold isTooSoon
  cases g.lastPull <;> rfl

omit [GossipItem ι] in
/-- A cycle takes a slot whatever comes of it. -/
theorem pacing_beginPull (g : Gossiper σ ι) (env : ε) (lookup : ValidatorLookup) (self : NodeId)
    (now : Nat) (draw : List NodeId → List NodeId) (peers : List NodeId) :
    (g.beginPull env lookup self now draw peers).1.pacing
      = (g.settings, g.cancelled,
          if g.cancelled || g.isTooSoon now then g.lastPull else some now) := by
  have hbegun := g.begun env lookup self now draw peers
  generalize g.beginPull env lookup self now draw peers = result at hbegun ⊢
  cases hbegun with
  | stopped hstopped =>
    rw [hstopped]
    exact congrArg (fun b => (g.settings, b, g.lastPull)) hstopped
  | tooSoon hrunning hsoon =>
    rw [hsoon, Bool.or_true]
    rfl
  | unentitled hrunning hsoon honly hself =>
    rw [hrunning, hsoon]
    rfl
  | alone hrunning hsoon halone =>
    rw [hrunning, hsoon]
    rfl
  | unfiltered set e h hfilter =>
    rw [h.running, h.inTime]
    rfl
  | unwritten set filter salt fault h hfilter hencode =>
    rw [h.running, h.inTime]
    rfl
  | asking set filter salt payload h hfilter hencode =>
    rw [h.running, h.inTime]
    rfl

variable {g : Gossiper σ ι} {d : Operation σ ε}

/-- A protocol that was stopped stays as it is, -/
theorem pacing_act_of_cancelled (h : g.cancelled = true) (d : Operation σ ε) :
    (g.act d).pacing = g.pacing := by
  cases d with
  | meanwhile set => rfl
  | answer env lookup now deadline node payload =>
    exact g.pacing_handleRequest env lookup now deadline node payload
  | receive env payload => exact g.pacing_handlePush env payload
  | cycle env lookup self now draw peers =>
    have hbegin := g.pacing_beginPull env lookup self now draw peers
    rwa [h, Bool.true_or, if_pos rfl, ← h] at hbegin
  | unsent => rfl
  | conclude env result => exact g.pacing_handleEnding env result
  | queue es => rfl
  | flush answers => rfl
  | stop => exact congrArg (fun b => (g.settings, b, g.lastPull)) h.symm

/-- and in one that was not, only cycles have to do with slots. -/
theorem pacing_act (h : g.cancelled = false) (hstop : d ≠ .stop) :
    (g.act d).pacing
      = (g.settings, false, (slot? g.settings.minPullGap g.lastPull d).or g.lastPull) := by
  have hidle : g.pacing = (g.settings, false, g.lastPull) :=
    congrArg (fun b => (g.settings, b, g.lastPull)) h
  cases d with
  | meanwhile set => exact hidle
  | answer env lookup now deadline node payload =>
    exact (g.pacing_handleRequest env lookup now deadline node payload).trans hidle
  | receive env payload => exact (g.pacing_handlePush env payload).trans hidle
  | cycle env lookup self now draw peers =>
    refine (g.pacing_beginPull env lookup self now draw peers).trans ?_
    rw [h, Bool.false_or, slot?, ← isTooSoon_eq_any]
    cases g.isTooSoon now <;> rfl
  | unsent => exact hidle
  | conclude env result => exact (g.pacing_handleEnding env result).trans hidle
  | queue es => exact hidle
  | flush answers => exact hidle
  | stop => exact absurd rfl hstop

theorem pacing_run_of_cancelled (h : g.cancelled = true) (operations : List (Operation σ ε)) :
    (g.run operations).pacing = g.pacing := by
  induction operations generalizing g with
  | nil => rfl
  | cons d rest ih =>
    have hact := pacing_act_of_cancelled h d
    have hnext : (g.act d).cancelled = true := (congrArg (fun p => p.2.1) hact).trans h
    exact (ih hnext).trans hact

/-- **A protocol in the course of time**: its settings stay, it is stopped for good, and its
last slot is the last one that was taken. -/
theorem pacing_run (h : g.cancelled = false) (operations : List (Operation σ ε)) :
    (g.run operations).settings = g.settings ∧
      ((g.run operations).cancelled = true ↔ Operation.stop ∈ operations) ∧
        (g.run operations).lastPull =
          (slots g.settings.minPullGap g.lastPull operations).getLast?.or g.lastPull := by
  induction operations generalizing g with
  | nil => exact ⟨rfl, by simp [run, h], rfl⟩
  | cons d rest ih =>
    by_cases hstop : d = .stop
    · subst hstop
      have hafter := pacing_run_of_cancelled (g := g.act (.stop : Operation σ ε)) rfl rest
      refine ⟨congrArg Prod.fst hafter, ?_, congrArg (fun p => p.2.2) hafter⟩
      exact iff_of_true (congrArg (fun p => p.2.1) hafter) List.mem_cons_self
    · have hact := pacing_act h hstop
      have hsettings : (g.act d).settings = g.settings := congrArg Prod.fst hact
      have hlast := congrArg (fun p => p.2.2) hact
      obtain ⟨hs, hc, hl⟩ := ih (congrArg (fun p => p.2.1) hact)
      refine ⟨hs.trans hsettings, hc.trans ?_, hl.trans ?_⟩
      · rw [List.mem_cons, or_iff_right (Ne.symm hstop)]
      · dsimp only [pacing] at hlast
        rw [hsettings, hlast, slots]
        · cases slot? g.settings.minPullGap g.lastPull d with
          | none => rfl
          | some t =>
            rw [Option.some_or, Option.toList_some, List.singleton_append, List.getLast?_cons]
            cases (slots g.settings.minPullGap (some t) rest).getLast? <;> rfl
        · exact hstop

/-! ### What a protocol's tasks come down to -/

/-- A protocol gets from one state to another by operations. -/
def ComesTo (g g' : Gossiper σ ι) : Prop := ∃ operations : List (Operation σ ε), g' = g.run operations

theorem ComesTo.refl (g : Gossiper σ ι) : g.ComesTo g := ⟨[], rfl⟩

theorem ComesTo.trans {g g' g'' : Gossiper σ ι} (h : g.ComesTo g') (h' : g'.ComesTo g'') : g.ComesTo g'' := by
  obtain ⟨operations, rfl⟩ := h
  obtain ⟨operations', rfl⟩ := h'
  exact ⟨operations ++ operations', List.foldl_append.symm⟩

theorem comesTo_act (g : Gossiper σ ι) (d : Operation σ ε) : g.ComesTo (g.act d) := ⟨[d], rfl⟩

end Gossiper

namespace Service

open Gossiper (Operation ComesTo comesTo_act)

variable {σ ι ε α : Type} [GossipItem ι] [GossipSet σ ι ε] {env : ε} {w : Surroundings} {n : Network}

/-- A request that the transport does not take is counted, or given up. -/
theorem comesTo_countRefusal (g : Gossiper σ ι) (e : GossipError) : g.ComesTo (g.countRefusal e) := by
  cases e with
  | cancelled => exact .refl g
  | _ => exact comesTo_act g .unsent

theorem comesTo_ask (w : Surroundings) (message : Bytes) (g : Gossiper σ ι) (n : Network)
    (peers : List NodeId) : g.ComesTo (ask w message g n peers).1 := by
  induction peers generalizing g n with
  | nil => exact .refl g
  | cons peer rest ih =>
    rw [ask]
    dsimp only
    split
    · exact ih g _
    · next e _ => exact (comesTo_countRefusal g e).trans (ih (g.countRefusal e) _)

theorem comesTo_beginCycle (s : Service σ ι) (env : ε) (w : Surroundings) (n : Network) :
    s.gossiper.ComesTo (s.beginCycle env w n).1.gossiper := by
  have hbegin : s.gossiper.ComesTo
      (s.gossiper.beginPull env w.lookup n.self w.clock w.draw n.peers.toList).1 :=
    comesTo_act s.gossiper (.cycle env w.lookup n.self w.clock w.draw n.peers.toList)
  rw [beginCycle]
  generalize s.gossiper.beginPull env w.lookup n.self w.clock w.draw n.peers.toList = begun
    at hbegin ⊢
  obtain ⟨gossiper, r⟩ := begun
  cases r with
  | error e => exact hbegin
  | ok inquiry => exact hbegin.trans (comesTo_ask w _ gossiper n inquiry.peers)

theorem comesTo_conclude (env : ε) (gc : Gossiper σ ι × Cycle) (ended : List Ending) :
    gc.1.ComesTo (ended.foldl (conclude env) gc).1 := by
  induction ended generalizing gc with
  | nil => exact .refl gc.1
  | cons e rest ih => exact (comesTo_act gc.1 (.conclude env e.2)).trans (ih (conclude env gc e))

theorem comesTo_lookAtAsked (s : Service σ ι) (env : ε) (now : Nat) (n : Network) :
    s.gossiper.ComesTo (s.lookAtAsked env now n).1.gossiper := by
  rw [lookAtAsked]
  split
  · exact .refl s.gossiper
  · next c _ => exact comesTo_conclude env (s.gossiper, c) _

theorem comesTo_lookAtOwn (s : Service σ ι) (env : ε) (now : Nat) (n : Network) :
    s.gossiper.ComesTo (s.lookAtOwn env now n).1.gossiper := by
  rw [lookAtOwn]
  split
  · exact .refl s.gossiper
  · next c _ => exact comesTo_conclude env (s.gossiper, c) _

theorem comesTo_askWhileDue_go (env : ε) (w : Surroundings) (due : Nat) (s : Service σ ι) (n : Network)
    (out : List Outgoing) : s.gossiper.ComesTo (askWhileDue.go env w due s n out).1.gossiper := by
  -- The induction is on the turns of the loop; each begins a cycle and looks at it once.
  fun_induction askWhileDue.go env w due s n out with
  | case1 due s n out hstop => exact .refl s.gossiper
  | case2 due s n out hgo next s' n' cycle more hbegin s'' n'' hlook ih =>
    have hbegun := s.comesTo_beginCycle env w n
    rw [hbegin] at hbegun
    have hlooked := comesTo_lookAtOwn ({ s' with own := some cycle } : Service σ ι) env w.now n'
    rw [hlook] at hlooked
    exact (hbegun.trans hlooked).trans ih

theorem comesTo_turn (s : Service σ ι) (env : ε) (w : Surroundings) (n : Network) (t : Task) :
    s.gossiper.ComesTo (s.turn env w n t).1.gossiper := by
  rw [turn.eq_def]
  split
  · cases t with
    | feeder =>
      show s.gossiper.ComesTo s.gather.gossiper
      unfold gather
      split
      · exact .refl s.gossiper
      · next subscription _ =>
        exact (comesTo_act s.gossiper (.meanwhile (GossipSet.drain s.gossiper.set subscription).1)).trans
          (comesTo_act _ (.queue (GossipSet.drain s.gossiper.set subscription).2))
    | announcer =>
      show s.gossiper.ComesTo (s.pushIfDue w).1.gossiper
      unfold pushIfDue
      split
      · exact comesTo_act s.gossiper (.flush fun _ => w.link)
      · exact .refl s.gossiper
    | asker =>
      have hlook := s.comesTo_lookAtOwn env w.now n
      dsimp only
      generalize s.lookAtOwn env w.now n = looked at hlook ⊢
      obtain ⟨s', n'⟩ := looked
      dsimp only
      split
      · exact hlook
      · exact hlook.trans (comesTo_askWhileDue_go env w _ s' n' [])
  · exact .refl s.gossiper

/-- **Everything comes down to operations** that happens around a protocol or that it does. -/
theorem comesTo_step (src : Source σ ι ε α) (s : Service σ ι) (m : Move α ε) :
    s.gossiper.ComesTo (s.step src m).gossiper := by
  cases m with
  | operate a => exact comesTo_act s.gossiper (.meanwhile (src.act s.gossiper.set a))
  | listen l =>
    exact comesTo_act s.gossiper
      (.meanwhile (src.onBus s.gossiper.set ((src.bus s.gossiper.set).act l.action)))
  | start now =>
    show s.gossiper.ComesTo (s.start now).gossiper
    unfold start
    split
    · exact .refl s.gossiper
    · exact comesTo_act s.gossiper (.meanwhile (GossipSet.subscribe s.gossiper.set).1)
  | flush answers => exact comesTo_act s.gossiper (.flush answers)
  | turn env w n t => exact s.comesTo_turn env w n t
  | request env lookup now deadline node payload =>
    exact comesTo_act s.gossiper (.answer env lookup now deadline node payload)
  | receive env payload => exact comesTo_act s.gossiper (.receive env payload)
  | pull env w n => exact s.comesTo_beginCycle env w n
  | lookAtAsked env now n => exact s.comesTo_lookAtAsked env now n
  | note endings => exact .refl s.gossiper
  | collect => exact .refl s.gossiper
  | shutdown n => exact comesTo_act s.gossiper .stop

/-- So every state of a protocol is one that operations lead to. -/
theorem comesTo_run (src : Source σ ι ε α) (s : Service σ ι) (moves : List (Move α ε)) :
    s.gossiper.ComesTo (s.run src moves).gossiper := by
  induction moves generalizing s with
  | nil => exact .refl s.gossiper
  | cons m rest ih => exact (s.comesTo_step src m).trans (ih (s.step src m))

end Service

end TxRelay
