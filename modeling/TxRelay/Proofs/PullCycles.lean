/-
What becomes of a cycle.

Of the peers that were asked some may not answer in time or answer nonsense, and some
connections may break. All of these are counted, one by one, and that is all: the others'
items are offered to the collection as if the failing ones had never been asked. Only a
request that is given up is not counted.

A cycle is looked at again and again until nothing waits any more. What is said of one look
holds for each of them, whatever happened since the last one, and over all of them each
request ends once.
-/
import TxRelay.Proofs.Receiving
import TxRelay.Proofs.Recipients

set_option autoImplicit false

namespace TxRelay

variable {σ ι ε : Type} [GossipItem ι] [GossipSet σ ι ε]

/-! ## What becomes of the answers -/

namespace Gossiper

section
variable (ι)

/-- The items that an answer spells; none if there is no answer, or none that can be read. -/
def brought : Except GossipError Bytes → List ι
  | .error _ => []
  | .ok b =>
    match (Wire.decode b : Except Wire.Fault Wire.PullResponse) with
    | .error _ => []
    | .ok m => legible ι m.items

end

/-- Whether a request has failed: there is no answer, or none that can be read, and it was not
given up. -/
def hasFailed : Except GossipError Bytes → Bool
  | .error .cancelled => false
  | .error _ => true
  | .ok b =>
    match (Wire.decode b : Except Wire.Fault Wire.PullResponse) with
    | .error _ => true
    | .ok _ => false

/-- The protocol after it was offered items in answers and counted failures. -/
def supplied (g : Gossiper σ ι) (env : ε) (items : List ι) (failures : Nat) : Gossiper σ ι :=
  { g with
    set := offered env g.set items
    counters.receivedPull := g.counters.receivedPull + newcomers env g.set items
    counters.pullFailures := g.counters.pullFailures + failures }

theorem brought_of_hasFailed {result : Except GossipError Bytes} (h : hasFailed result = true) :
    brought ι result = [] := by
  cases result with
  | error e => rfl
  | ok b =>
    unfold hasFailed at h
    unfold brought
    dsimp only at h ⊢
    split
    · rfl
    · next m hm =>
      rw [hm] at h
      cases h

theorem newcomers_append (env : ε) (s : σ) (items later : List ι) :
    newcomers env s (items ++ later) = newcomers env s items + newcomers env (offered env s items) later := by
  induction items generalizing s with
  | nil => exact (Nat.zero_add _).symm
  | cons x rest ih =>
    rw [List.cons_append, newcomers, newcomers, ih, Nat.add_assoc]
    rfl

theorem supplied_supplied (g : Gossiper σ ι) (env : ε) (items later : List ι) (failures more : Nat) :
    (g.supplied env items failures).supplied env later more
      = g.supplied env (items ++ later) (failures + more) := by
  have hoffered : offered env (offered env g.set items) later = offered env g.set (items ++ later) :=
    List.foldl_append.symm
  unfold supplied
  rw [newcomers_append, ← hoffered, ← Nat.add_assoc, ← Nat.add_assoc]

/-- **An answer by itself**: its items are offered, or a failure is counted, or neither. -/
theorem handleEnding_eq (g : Gossiper σ ι) (env : ε) (result : Except GossipError Bytes) :
    g.handleEnding env result
      = (g.supplied env (brought ι result) (if hasFailed result then 1 else 0),
          match result with
          | .error .cancelled => .error .cancelled
          | _ => .ok (newcomers env g.set (brought ι result))) := by
  have htakes := g.takesItemByItem env
  cases result with
  | error e => cases e <;> rfl
  | ok b =>
    cases hdecode : (Wire.decode b : Except Wire.Fault Wire.PullResponse) with
    | error fault =>
      have hfailed : hasFailed (.ok b) = true := by
        unfold hasFailed
        dsimp only
        rw [hdecode]
      rw [htakes.ending_unread b fault hdecode, brought_of_hasFailed hfailed, if_pos hfailed]
      rfl
    | ok m =>
      have hfine : hasFailed (.ok b) = false := by
        unfold hasFailed
        dsimp only
        rw [hdecode]
      have hbrought : brought ι (.ok b) = legible ι m.items := by
        unfold brought
        dsimp only
        rw [hdecode]
      rw [htakes.ending_eq b m.items hdecode, hfine, hbrought]
      rfl

theorem snd_handleEnding_of_ne {g : Gossiper σ ι} {env : ε} {result : Except GossipError Bytes}
    (h : result ≠ .error .cancelled) :
    (g.handleEnding env result).2 = .ok (newcomers env g.set (brought ι result)) := by
  rw [handleEnding_eq]
  dsimp only
  split
  · exact absurd rfl h
  · rfl

end Gossiper

/-! ## Looking at a cycle -/

namespace Service

open Gossiper (brought hasFailed newcomers offered newcomers_append supplied_supplied handleEnding_eq
  snd_handleEnding_of_ne)

/-- The requests of a cycle that are found to have ended. -/
def ended (s : Service σ ι) (now : Nat) (n : Network) (c : Cycle) : List Ending :=
  c.waiting.filterMap (s.ending? n now)

omit [GossipItem ι] [GossipSet σ ι ε] in
/-- A request has ended if it is noted, or if it is not and its time is over. -/
theorem ending?_eq_some_iff {s : Service σ ι} {now : Nat} {n : Network} {id : UInt32} {e : Ending} :
    s.ending? n now id = some e ↔
      e.1 = id ∧ (s.unseen.lookup id = some e.2 ∨
        (s.unseen.lookup id = none ∧
          ∃ w, n.waiting[id]? = some w ∧ w.deadline ≤ now ∧ e.2 = .error (.timeout w.node))) := by
  obtain ⟨id', result⟩ := e
  unfold ending?
  cases s.unseen.lookup id with
  | some noted => simp [eq_comm]
  | none =>
    cases n.waiting[id]? with
    | none => simp
    | some w =>
      by_cases hover : w.deadline ≤ now
      · simp [hover, eq_comm]
      · simp [hover]

/-- Ended requests are taken in one after the other, and amount to what all of them together
bring and miss. -/
theorem gossiper_foldl_conclude (env : ε) (gc : Gossiper σ ι × Cycle) (ended : List Ending) :
    (ended.foldl (conclude env) gc).1
      = gc.1.supplied env (ended.flatMap fun e => brought ι e.2) (ended.countP fun e => hasFailed e.2) := by
  induction ended generalizing gc with
  | nil => rfl
  | cons e rest ih =>
    have hfirst : (conclude env gc e).1
        = gc.1.supplied env (brought ι e.2) (if hasFailed e.2 then 1 else 0) :=
      congrArg Prod.fst (handleEnding_eq gc.1 env e.2)
    rw [List.foldl_cons, ih, hfirst, supplied_supplied, List.flatMap_cons, List.countP_cons,
      Nat.add_comm]

theorem waiting_foldl_conclude (env : ε) (gc : Gossiper σ ι × Cycle) (ended : List Ending) :
    (ended.foldl (conclude env) gc).2.waiting
      = (ended.map Prod.fst).foldl List.erase gc.2.waiting := by
  induction ended generalizing gc with
  | nil => rfl
  | cons e rest ih => exact ih (conclude env gc e)

theorem result_foldl_conclude (env : ε) (gc : Gossiper σ ι × Cycle) {ended : List Ending}
    (h : ∀ e ∈ ended, e.2 ≠ .error .cancelled) :
    (ended.foldl (conclude env) gc).2.result
      = gc.2.result.map (· + newcomers env gc.1.set (ended.flatMap fun e => brought ι e.2)) := by
  induction ended generalizing gc with
  | nil =>
    show gc.2.result = gc.2.result.map (· + 0)
    cases gc.2.result <;> rfl
  | cons e rest ih =>
    have hset : (conclude env gc e).1.set = offered env gc.1.set (brought ι e.2) :=
      congrArg (fun r => r.1.set) (handleEnding_eq gc.1 env e.2)
    have hresult : (conclude env gc e).2.result
        = gc.2.result.map (· + newcomers env gc.1.set (brought ι e.2)) := by
      show (do pure ((← gc.2.result) + (← (gc.1.handleEnding env e.2).2))) = _
      rw [snd_handleEnding_of_ne (h e List.mem_cons_self)]
      cases gc.2.result <;> rfl
    rw [List.foldl_cons, ih _ fun e' he' => h e' (List.mem_cons_of_mem e he'), hset, hresult,
      List.flatMap_cons, newcomers_append]
    cases gc.2.result with
    | error e' => rfl
    | ok count => exact congrArg Except.ok (Nat.add_assoc _ _ _)

/-- Taking the elements with a property out of a list, one after the other, leaves the
others. -/
theorem foldl_erase_filter {α : Type} [BEq α] [LawfulBEq α] (p : α → Bool) (kept : List α)
    (hkept : ∀ x ∈ kept, p x = false) (l : List α) :
    (l.filter p).foldl List.erase (kept ++ l) = kept ++ l.filter fun x => !p x := by
  -- What has been passed over stays in front, so the induction is for any such list.
  induction l generalizing kept with
  | nil => rfl
  | cons x rest ih =>
    cases hx : p x with
    | true =>
      have hnew : x ∉ kept := fun hmem => by
        rw [hkept x hmem] at hx
        cases hx
      rw [List.filter_cons_of_pos hx, List.filter_cons_of_neg (by simp [hx]), List.foldl_cons,
        List.erase_append_right _ hnew, List.erase_cons_head]
      exact ih kept hkept
    | false =>
      rw [List.filter_cons_of_neg (by simp [hx]), List.filter_cons_of_pos (by simp [hx])]
      have hkept' : ∀ y ∈ kept ++ [x], p y = false := by
        intro y hy
        rcases List.mem_append.mp hy with hy | hy
        · exact hkept y hy
        · rw [List.mem_singleton.mp hy, hx]
      have hrest := ih (kept ++ [x]) hkept'
      rwa [List.append_assoc, List.append_assoc] at hrest

end Service

/-- A look at a cycle: how the protocol and the network are when it is taken. -/
structure Look (σ ι ε : Type) where
  service : Service σ ι
  env : ε
  now : Nat
  network : Network

namespace Look

open Gossiper (brought hasFailed newcomers)
open Service (conclude)

variable (l : Look σ ι ε) (c : Cycle)

/-- The requests of the cycle that are found to have ended. -/
def found : List Ending := l.service.ended l.now l.network c

/-- The protocol after the look. -/
def after : Gossiper σ ι := (l.service.look l.env l.now l.network c).1.gossiper

/-- What is left of the cycle. -/
def left : Cycle := (l.service.look l.env l.now l.network c).2.2

/-- **What a look does**, however each of the requests has ended (`PullGossiper::pull_from`). -/
structure TakesEach : Prop where
  /-- A request has ended if its ending is noted, or if its time is over. -/
  found_iff : ∀ id result, (id, result) ∈ l.found c ↔
    id ∈ c.waiting ∧ (l.service.unseen.lookup id = some result ∨
      (l.service.unseen.lookup id = none ∧ ∃ w, l.network.waiting[id]? = some w ∧
        w.deadline ≤ l.now ∧ result = .error (.timeout w.node)))
  /-- The items of all answers are offered, each failure is counted, and nothing else happens. -/
  after_eq : l.after c = l.service.gossiper.supplied l.env
    ((l.found c).flatMap fun e => brought ι e.2) ((l.found c).countP fun e => hasFailed e.2)
  /-- With a request that has failed it is as without it, but that one more failure is counted. -/
  struck : ∀ earlier e later, l.found c = earlier ++ e :: later → hasFailed e.2 = true →
    l.after c = ((earlier ++ later).foldl (conclude l.env) (l.service.gossiper, c)).1.countFailure
  /-- The requests that have not ended still wait. -/
  waiting_eq : (l.left c).waiting = c.waiting.filter fun id =>
    !(l.service.ending? l.network l.now id).isSome
  /-- Unless a request was given up, the cycle has brought what was new. -/
  result_eq : (∀ e ∈ l.found c, e.2 ≠ .error .cancelled) →
    (l.left c).result = c.result.map
      (· + newcomers l.env l.service.gossiper.set ((l.found c).flatMap fun e => brought ι e.2))

omit [GossipItem ι] [GossipSet σ ι ε] in
theorem map_fst_found : (l.found c).map Prod.fst
    = c.waiting.filter fun id => (l.service.ending? l.network l.now id).isSome := by
  unfold found Service.ended
  induction c.waiting with
  | nil => rfl
  | cons id rest ih =>
    cases hending : l.service.ending? l.network l.now id with
    | none =>
      rw [List.filterMap_cons_none hending, List.filter_cons_of_neg (by simp [hending])]
      exact ih
    | some e =>
      rw [List.filterMap_cons_some hending, List.filter_cons_of_pos (by simp [hending]), List.map_cons,
        (Service.ending?_eq_some_iff.mp hending).1, ih]

theorem takesEach : l.TakesEach c where
  found_iff id result := by
    unfold found Service.ended
    rw [List.mem_filterMap]
    constructor
    · rintro ⟨id', hid', hending⟩
      obtain ⟨rfl, hended⟩ := Service.ending?_eq_some_iff.mp hending
      exact ⟨hid', hended⟩
    · rintro ⟨hid, hended⟩
      exact ⟨id, hid, Service.ending?_eq_some_iff.mpr ⟨rfl, hended⟩⟩
  after_eq := Service.gossiper_foldl_conclude l.env (l.service.gossiper, c) (l.found c)
  struck earlier e later hfound hfailed := by
    -- Both sides are supplied with the same items, as the failing request brings none.
    have hcount : (e :: later).countP (fun e => hasFailed e.2)
        = later.countP (fun e => hasFailed e.2) + 1 := List.countP_cons_of_pos hfailed
    refine (Service.gossiper_foldl_conclude l.env (l.service.gossiper, c) (l.found c)).trans ?_
    rw [Service.gossiper_foldl_conclude, hfound, List.flatMap_append, List.flatMap_cons,
      Gossiper.brought_of_hasFailed hfailed, List.nil_append, ← List.flatMap_append,
      List.countP_append, hcount, ← Nat.add_assoc, ← List.countP_append]
    rfl
  waiting_eq := by
    refine (Service.waiting_foldl_conclude l.env (l.service.gossiper, c) (l.found c)).trans ?_
    rw [map_fst_found]
    exact Service.foldl_erase_filter _ [] nofun c.waiting
  result_eq := Service.result_foldl_conclude l.env (l.service.gossiper, c)

end Look

/-! ## The course of a cycle -/

namespace Cycle

open Gossiper (hasFailed)

/-- What is left of a cycle after several looks. -/
def leftBy (c : Cycle) (looks : List (Look σ ι ε)) : Cycle := looks.foldl (fun c l => l.left c) c

/-- What the looks find, in turn. -/
def foundBy (c : Cycle) : List (Look σ ι ε) → List Ending
  | [] => []
  | l :: later => l.found c ++ foundBy (l.left c) later

/-- How many failures they count. -/
def countedBy (c : Cycle) : List (Look σ ι ε) → Nat
  | [] => 0
  | l :: later =>
    (l.after c).counters.pullFailures - l.service.gossiper.counters.pullFailures
      + countedBy (l.left c) later

/-- **Each request of a cycle ends once** or still waits, whatever happens between the
looks at it, -/
theorem perm_foundBy (c : Cycle) (looks : List (Look σ ι ε)) :
    ((c.foundBy looks).map Prod.fst ++ (c.leftBy looks).waiting).Perm c.waiting := by
  induction looks generalizing c with
  | nil => exact .refl c.waiting
  | cons l later ih =>
    rw [foundBy, List.map_append, List.append_assoc]
    -- The later looks share out what this one has left, and this one splits what waited.
    refine ((ih (l.left c)).append_left _).trans ?_
    rw [Look.map_fst_found, (l.takesEach c).waiting_eq]
    exact List.filter_append_perm _ c.waiting

/-- and each one that fails is counted once. -/
theorem countedBy_eq (c : Cycle) (looks : List (Look σ ι ε)) :
    c.countedBy looks = (c.foundBy looks).countP fun e => hasFailed e.2 := by
  induction looks generalizing c with
  | nil => rfl
  | cons l later ih =>
    rw [countedBy, foundBy, ih, List.countP_append, (l.takesEach c).after_eq]
    exact congrArg (· + _) (Nat.add_sub_cancel_left ..)

end Cycle

/-! ## All of it -/

/-- **Whom a cycle asks, and what becomes of it**, for every history of the connections,
every answer of the provider and every draw.

The protocol is in a state that operations lead to, as each of its states is. -/
theorem Service.pulls_from_vouched {s : Service σ ι} {w : Surroundings} {n : Network}
    {settings : GossipSettings} {set : σ} {operations : List (Gossiper.Operation σ ε)} {own : NodeId}
    {history : List Network.Occurrence} {provider : ValidatorProvider} {subnet : SubnetId}
    (hs : s.gossiper = (Gossiper.new settings set).run operations)
    (hn : n = (Network.new own).afterAll history) (hlookup : w.lookup = provider.lookup subnet)
    (hdraw : ∀ nodes, (w.draw nodes).Perm nodes) (env : ε) :
    (∀ (α : Type) (src : Source σ ι ε α) (moves : List (Move α ε)),
      ∃ operations : List (Gossiper.Operation σ ε),
        ((new settings set).run src moves).gossiper = (Gossiper.new settings set).run operations) ∧
    s.AsksVouched env w n settings operations own history provider subnet ∧
    (∀ (l : Look σ ι ε) (c : Cycle), l.TakesEach c) ∧
    ∀ looks : List (Look σ ι ε),
      let c := (s.beginCycle env w n).2.2.1
      ((c.foundBy looks).map Prod.fst ++ (c.leftBy looks).waiting).Perm c.waiting ∧
        c.countedBy looks = (c.foundBy looks).countP fun e => Gossiper.hasFailed e.2 :=
  ⟨fun _ src moves => comesTo_run src (new settings set) moves, asksVouched hs hn hlookup hdraw env,
    Look.takesEach, fun looks => ⟨Cycle.perm_foundBy _ looks, Cycle.countedBy_eq _ looks⟩⟩

namespace Gossiper

/-- The node that asks. -/
def curious : NodeId := Vector.replicate 32 1

/-- Two validators. -/
def colleagues : NodeId × NodeId := (Vector.replicate 32 2, Vector.replicate 32 3)

/-- The second one carries more weight. -/
def register : ValidatorRegister :=
  ((ValidatorRegister.new default).setWeight colleagues.1 5).setWeight colleagues.2 7

/-- Both of them are connected, one of them again, and so is a node without a weight. -/
def introductions : List Network.Occurrence :=
  [.connected colleagues.1, .connected default, .connected colleagues.2,
    .disconnected colleagues.1, .connected colleagues.1]

/-- The node asks two at a time, whether it is a validator or not. -/
def asAnybody : GossipSettings :=
  { GossipSettings.standard with onlyAsValidator := false, pollSize := 2 }

/-- What it finds around it: the transport does not reach one of them. -/
def halfReachable : Surroundings where
  now := 0
  clock := 0
  lookup := register.provider.lookup default
  draw := List.reverse
  reach node := if node = colleagues.2 then .error (.transport "unreachable") else .ok ()
  link := .ok ()

/-- Its pool, with a filter of one position. -/
def narrow : Mempool where
  settings := .small
  store := TransferStore.new
    { settings := .small, salts := fun _ => default, filter := blank, maxCount := 1, resets := 0 } 8
  bus := Bus.new 1

theorem mayAsk_introductions (node : NodeId) :
    MayAsk curious introductions register.provider default node ↔
      node ∈ [colleagues.1, colleagues.2] := by
  have heligible : (register.provider.lookup default).eligible curious
      ((Network.new curious).afterAll introductions).peers.toList
        = [colleagues.1, colleagues.2] := by
    decide +kernel
  rw [← heligible]
  exact (ValidatorLookup.mem_eligible_iff curious introductions register.provider default).symm

/-- A new protocol asks both validators and nobody else, and one request fails. -/
theorem pulls_from_colleagues :
    let s : Service Mempool Transfer := .new asAnybody narrow
    let begun := s.beginCycle Mempool.lenient halfReachable
      ((Network.new curious).afterAll introductions)
    (Outgoing.recipients begun.2.2.2).Perm [colleagues.1, colleagues.2] ∧
      (∀ o ∈ begun.2.2.2, ∃ node id, o = .request node id 5000
        (Wire.Protocol.transfers.tag (Wire.Layout.write opening))) ∧
        begun.1.gossiper.counters.pullFailures = 1 := by
  intro s begun
  have hstart : s.gossiper = (Gossiper.new asAnybody narrow).run [] := rfl
  have hlookup : halfReachable.lookup = register.provider.lookup default := rfl
  have hdraw : ∀ nodes, (halfReachable.draw nodes).Perm nodes := List.reverse_perm
  have hfits : Wire.encode opening = .ok (Wire.Layout.write opening) :=
    Wire.encode_eq_ok_iff.mpr ⟨by decide +kernel, rfl⟩
  obtain ⟨_, hcycle, _⟩ := Service.pulls_from_vouched hstart
    (rfl : (Network.new curious).afterAll introductions = _) hlookup hdraw Mempool.lenient
  obtain ⟨hnodup, hall, ⟨k, ⟨nodes, hdistinct, hnodes, hk⟩, hlength⟩, hmessages⟩ :=
    hcycle.asks nofun (fun ⟨_, hlast, _⟩ => by cases hlast) nofun blank.toBytes default
      (Wire.Layout.write opening) rfl hfits
  have hpair : [colleagues.1, colleagues.2].Nodup := by decide
  have hperm : nodes.Perm [colleagues.1, colleagues.2] :=
    (List.perm_ext_iff_of_nodup hdistinct hpair).mpr fun node =>
      (hnodes node).trans (mayAsk_introductions node)
  have htwo : (Outgoing.recipients begun.2.2.2).length = 2 := by
    rw [hlength, ← hk, hperm.length_eq]
    rfl
  have hasked : (Outgoing.recipients begun.2.2.2).Perm [colleagues.1, colleagues.2] :=
    (List.subperm_of_subset hnodup fun node hnode =>
      (mayAsk_introductions node).mp (hall node hnode)).perm_of_length_le (Nat.le_of_eq htwo.symm)
  refine ⟨hasked, hmessages, hcycle.failures.trans ?_⟩
  rw [hasked.countP_eq]
  decide

end Gossiper

end TxRelay
