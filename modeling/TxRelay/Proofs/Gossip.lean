/-
A gossip protocol changes its collection in four ways only.

It adds items, asks for a filter, subscribes, and reads announcements. So a
property of the collection that those four keep is kept by everything that a
protocol and its tasks do, whatever peers say and whatever the transport does.
The properties of the two pools are carried through gossip by this one fact.
-/
import TxRelay.Gossip.Service

set_option autoImplicit false

namespace TxRelay

/-- **A property of a collection is kept** by whatever gossip does to it. -/
structure GossipSet.Keeps {σ ι ε : Type} [GossipSet σ ι ε] (P : σ → Prop) (env : ε) : Prop where
  add : ∀ s x, P s → P (GossipSet.add s env x).1
  filter : ∀ s, P s → P (GossipSet.filter s env).1
  subscribe : ∀ s, P s → P (GossipSet.subscribe s).1
  drain : ∀ s id, P s → P (GossipSet.drain s id).1

variable {σ ι ε : Type} [GossipItem ι] [GossipSet σ ι ε] {P : σ → Prop} {env : ε}

open GossipSet (Keeps)

namespace Gossiper

/-- Items that peers spell are added one after the other. -/
theorem keeps_takeIn (hk : Keeps P env) {s : σ} (hs : P s) (items : List Bytes) :
    P (takeIn env s items).1 := by
  induction items generalizing s with
  | nil => exact hs
  | cons b rest ih =>
    -- What cannot be read is passed over, and a refusal is no reason to stop.
    rw [takeIn]
    split
    · exact ih hs
    · next x _ =>
      have hadd := hk.add s x hs
      generalize GossipSet.add s env x = added at hadd ⊢
      obtain ⟨s', r⟩ := added
      cases r with
      | error e => exact ih hadd
      | ok _ => exact ih hadd

variable {g : Gossiper σ ι}

/-! ## Answering and taking in -/

theorem set_respond (g : Gossiper σ ι) (env : ε) (lookup : ValidatorLookup)
    (now deadline : Nat) (node : NodeId) (payload : Bytes) :
    (g.respond env lookup now deadline node payload).1.set = g.set := by
  rw [respond]
  dsimp only
  split
  · rfl
  split
  · rfl
  split
  · rfl
  · rfl

/-- Answering a request looks at the collection and leaves it alone. -/
theorem set_handleRequest (g : Gossiper σ ι) (env : ε) (lookup : ValidatorLookup)
    (now deadline : Nat) (node : NodeId) (payload : Bytes) :
    (g.handleRequest env lookup now deadline node payload).1.set = g.set := by
  rw [handleRequest]
  dsimp only
  split
  · next g' b heq =>
    have hset := congrArg (fun r => r.1.set) heq
    exact hset.symm.trans (set_respond _ env lookup now deadline node payload)
  · next g' e heq =>
    have hset := congrArg (fun r => r.1.set) heq
    exact hset.symm.trans (set_respond _ env lookup now deadline node payload)

theorem keeps_handlePush (hk : Keeps P env) (hg : P g.set) (payload : Bytes) :
    P (g.handlePush env payload).set := by
  rw [handlePush]
  split
  · exact hg
  · next m _ => exact keeps_takeIn hk hg m.items

theorem keeps_handleEnding (hk : Keeps P env) (hg : P g.set) (result : Except GossipError Bytes) :
    P (g.handleEnding env result).1.set := by
  rw [handleEnding.eq_def]
  split
  · exact hg
  · exact hg
  · split
    · exact hg
    · next m _ => exact keeps_takeIn hk hg m.items

/-! ## Asking -/

omit [GossipItem ι] in
theorem keeps_inquire (hk : Keeps P env) (hg : P g.set) (peers : List NodeId) :
    P (g.inquire env peers).1.set := by
  have hfilter := hk.filter g.set hg
  rw [inquire]
  generalize GossipSet.filter g.set env = filtered at hfilter ⊢
  obtain ⟨set, r⟩ := filtered
  cases r with
  | error e => exact hfilter
  | ok f =>
    dsimp only
    split
    · exact hfilter
    · exact hfilter

omit [GossipItem ι] in
theorem keeps_beginPull (hk : Keeps P env) (hg : P g.set) (lookup : ValidatorLookup) (self : NodeId)
    (now : Nat) (draw : List NodeId → List NodeId) (peers : List NodeId) :
    P (g.beginPull env lookup self now draw peers).1.set := by
  -- A cycle that does not come to an inquiry leaves the collection alone.
  rw [beginPull]
  split
  · exact hg
  split
  · exact hg
  dsimp only
  split
  · exact hg
  split
  · exact hg
  · exact keeps_inquire (g := { g with lastPull := some now }) hk hg _

end Gossiper

namespace Service

variable {s : Service σ ι}

omit [GossipItem ι] in
theorem keeps_start (hk : Keeps P env) (hs : P s.gossiper.set) (now : Nat) :
    P (s.start now).gossiper.set := by
  rw [start]
  split
  · exact hs
  · exact hk.subscribe s.gossiper.set hs

theorem keeps_gather (hk : Keeps P env) (hs : P s.gossiper.set) : P s.gather.gossiper.set := by
  rw [gather]
  split
  · exact hs
  · next subscription _ => exact hk.drain s.gossiper.set subscription hs

theorem set_pushIfDue (s : Service σ ι) (w : Surroundings) :
    (s.pushIfDue w).1.gossiper.set = s.gossiper.set := by
  rw [pushIfDue]
  split <;> rfl

/-! ## Cycles -/

omit [GossipItem ι] [GossipSet σ ι ε] in
theorem set_countRefusal (g : Gossiper σ ι) (e : GossipError) : (g.countRefusal e).set = g.set := by
  cases e <;> rfl

omit [GossipItem ι] [GossipSet σ ι ε] in
theorem set_ask (w : Surroundings) (message : Bytes) (g : Gossiper σ ι) (n : Network)
    (peers : List NodeId) : (ask w message g n peers).1.set = g.set := by
  induction peers generalizing g n with
  | nil => rfl
  | cons peer rest ih =>
    rw [ask]
    dsimp only
    split
    · exact ih g _
    · next e _ => exact (ih (g.countRefusal e) _).trans (set_countRefusal g e)

theorem keeps_beginCycle (hk : Keeps P env) (hs : P s.gossiper.set) (w : Surroundings) (n : Network) :
    P (s.beginCycle env w n).1.gossiper.set := by
  have hbegin := Gossiper.keeps_beginPull hk hs w.lookup n.self w.clock w.draw n.peers.toList
  rw [beginCycle]
  generalize s.gossiper.beginPull env w.lookup n.self w.clock w.draw n.peers.toList = begun
    at hbegin ⊢
  obtain ⟨gossiper, r⟩ := begun
  cases r with
  | error e => exact hbegin
  | ok inquiry =>
    dsimp only
    rw [set_ask]
    exact hbegin

theorem keeps_conclude (hk : Keeps P env) (gc : Gossiper σ ι × Cycle) (hg : P gc.1.set)
    (ended : List Ending) : P (ended.foldl (conclude env) gc).1.set := by
  induction ended generalizing gc with
  | nil => exact hg
  | cons e rest ih => exact ih _ (Gossiper.keeps_handleEnding hk hg e.2)

theorem keeps_look (hk : Keeps P env) (hs : P s.gossiper.set) (now : Nat) (n : Network) (c : Cycle) :
    P (s.look env now n c).1.gossiper.set :=
  keeps_conclude hk (s.gossiper, c) hs _

theorem keeps_pull (hk : Keeps P env) (hs : P s.gossiper.set) (w : Surroundings) (n : Network) :
    P (s.pull env w n).1.gossiper.set := keeps_beginCycle hk hs w n

theorem keeps_lookAtAsked (hk : Keeps P env) (hs : P s.gossiper.set) (now : Nat) (n : Network) :
    P (s.lookAtAsked env now n).1.gossiper.set := by
  rw [lookAtAsked]
  split
  · exact hs
  · next c _ => exact keeps_look hk hs now n c

theorem keeps_lookAtOwn (hk : Keeps P env) (hs : P s.gossiper.set) (now : Nat) (n : Network) :
    P (s.lookAtOwn env now n).1.gossiper.set := by
  rw [lookAtOwn]
  split
  · exact hs
  · next c _ => exact keeps_look hk hs now n c

/-- However many cycles begin in a row. -/
theorem keeps_askWhileDue_go (hk : Keeps P env) (w : Surroundings) (due : Nat) (s : Service σ ι)
    (n : Network) (out : List Outgoing) (hs : P s.gossiper.set) :
    P (askWhileDue.go env w due s n out).1.gossiper.set := by
  -- The induction is on the turns of the loop; each begins a cycle and looks at it once.
  fun_induction askWhileDue.go env w due s n out with
  | case1 due s n out hstop => exact hs
  | case2 due s n out hgo next s' n' cycle more hbegin s'' n'' hlook ih =>
    have hbegun := keeps_beginCycle hk hs w n
    rw [hbegin] at hbegun
    have hlooked := keeps_lookAtOwn (s := { s' with own := some cycle }) hk hbegun w.now n'
    rw [hlook] at hlooked
    exact ih hlooked

/-! ## Tasks -/

/-- **Whatever a task does** keeps what gossip keeps. -/
theorem keeps_turn (hk : Keeps P env) (hs : P s.gossiper.set) (w : Surroundings) (n : Network)
    (t : Task) : P (s.turn env w n t).1.gossiper.set := by
  rw [turn.eq_def]
  split
  · cases t with
    | feeder => exact keeps_gather hk hs
    | announcer =>
      show P (s.pushIfDue w).1.gossiper.set
      rw [set_pushIfDue]
      exact hs
    | asker =>
      -- The asker looks at its cycle before it begins another one.
      have hlook := keeps_lookAtOwn hk hs w.now n
      dsimp only
      generalize s.lookAtOwn env w.now n = looked at hlook ⊢
      obtain ⟨s', n'⟩ := looked
      dsimp only
      split
      · exact hlook
      · exact keeps_askWhileDue_go hk w _ s' n' [] hlook
  · exact hs

end Service

end TxRelay
