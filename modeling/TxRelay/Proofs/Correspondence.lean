/-
The requests that a node makes, and the calls that make them.

A call that makes a request takes a number and waits under it. The transport
takes the request at its leisure; meanwhile the node that it is for may answer,
refuse or be disconnected, and the caller is told so once the transport is done.
The caller may also be cancelled, run out of time or go away. All of these come
in any order, and answers come from anybody, under any number.

What holds through all of it is that exactly those requests wait whose callers
have neither been told anything nor come to an end (`Orderly`). The numbers are
told apart as long as there are fewer requests than numbers.
-/
import Mathlib.Data.List.Induction
import TxRelay.Proofs.Requests

set_option autoImplicit false

namespace TxRelay

/-! ## Callers -/

namespace Correspondence

/-- How far a call is (`Network::request`). -/
inductive Stage where
  /-- It runs: whether the transport is still taking the request, and what the caller
  has been told. -/
  | running (sending : Bool) (told : Option (Except GossipError Bytes))
  | ended (result : Except GossipError Bytes)
  /-- The caller has gone away. -/
  | dropped

/-- What may happen to a call by itself. -/
inductive Happening where
  /-- The transport has taken the request. -/
  | sent
  /-- The transport could not take it. -/
  | unsent (e : GossipError)
  /-- The caller looks at what it was told. -/
  | look
  | cancel
  | timeout
  | drop

namespace Stage

def isRunning : Stage → Bool
  | running _ _ => true
  | _ => false

/-- Whether it runs, and the caller was told nothing. -/
def isOpen : Stage → Bool
  | running _ none => true
  | _ => false

/-- The caller is told something. -/
def tell (r : Except GossipError Bytes) : Stage → Stage
  | running sending _ => running sending (some r)
  | s => s

/-- **What happens to a call** for a node. As long as the transport is taking the
request the caller looks at nothing, and its time does not run. -/
def after (node : NodeId) : Happening → Stage → Stage
  | .sent, running true told => running false told
  | .unsent e, running true _ => ended (.error e)
  | .look, running false (some r) => ended r
  | .cancel, running false _ => ended (.error .cancelled)
  | .timeout, running false none => ended (.error (.timeout node))
  | .drop, running _ _ => dropped
  | _, s => s

/-- What the call ended with. -/
def result? : Stage → Option (Except GossipError Bytes)
  | ended r => some r
  | _ => none

end Stage

/-- A call that makes a request (`Network::request`). -/
structure Call where
  node : NodeId
  /-- Its number; a call that is given up before it starts takes none. -/
  id : Option UInt32
  stage : Stage

/-- The callers of requests that have ended are told. -/
def Call.hear (endings : List Ending) (c : Call) : Call :=
  match c.id, c.stage with
  | some id, .running sending none => { c with stage := .running sending (endings.lookup id) }
  | _, _ => c

end Correspondence

/-- A node's end of the network, and the calls so far, the first one first (`Network`). -/
structure Correspondence where
  network : Network
  calls : List Correspondence.Call

namespace Correspondence

/-- What may happen next (`Network`). -/
inductive Move where
  /-- A call begins. -/
  | begin (node : NodeId) (deadline : Nat) (cancelled : Bool)
  | call (k : Nat) (h : Happening)
  | answer (node : NodeId) (id : UInt32) (payload : Bytes)
  | refuse (node : NodeId) (id : UInt32) (reason : String)
  | disconnect (node : NodeId)

/-- Nobody has called. -/
def new (self : NodeId) : Correspondence := ⟨Network.new self, []⟩

/-- Requests end, and their callers are told. -/
def hear (c : Correspondence) (news : Network × List Ending) : Correspondence :=
  ⟨news.1, c.calls.map (Call.hear news.2)⟩

/-- Something happens to a call. If it does not run any more then it does not wait. -/
def happen (c : Correspondence) (k : Nat) (call : Call) (h : Happening) : Correspondence :=
  let stage := call.stage.after call.node h
  { network :=
      match call.id with
      | some id => if call.stage.isRunning && !stage.isRunning then c.network.giveUp id else c.network
      | none => c.network
    calls := c.calls.set k { call with stage } }

/-- The next moment. -/
def step (c : Correspondence) : Move → Correspondence
  | .begin node deadline cancelled =>
    if cancelled then { c with calls := c.calls ++ [⟨node, none, .ended (.error .cancelled)⟩] }
    else
      let (network, id) := c.network.request node deadline
      ⟨network, c.calls ++ [⟨node, some id, .running true none⟩]⟩
  | .call k h =>
    match c.calls[k]? with
    | some call => c.happen k call h
    | none => c
  | .answer node id payload => c.hear (c.network.answer node id payload)
  | .refuse node id reason => c.hear (c.network.refuse node id reason)
  | .disconnect node => c.hear (c.network.disconnect node)

/-- Which call ends, and what with. -/
def ending? (c : Correspondence) : Move → Option (Nat × Except GossipError Bytes)
  | .begin _ _ cancelled => if cancelled then some (c.calls.length, .error .cancelled) else none
  | .call k h =>
    match c.calls[k]? with
    | some call =>
      if call.stage.isRunning then (call.stage.after call.node h).result?.map fun r => (k, r) else none
    | none => none
  | _ => none

/-- After some moves. -/
def run (c : Correspondence) (moves : List Move) : Correspondence := moves.foldl step c

/-- **How calls end**, in the order in which they do. -/
def endings (c : Correspondence) : List Move → List (Nat × Except GossipError Bytes)
  | [] => []
  | m :: rest => (c.ending? m).toList ++ (c.step m).endings rest

/-- How many requests take a number. -/
def issued (moves : List Move) : Nat :=
  moves.countP fun
    | .begin _ _ cancelled => !cancelled
    | _ => false

/-- **A request is outstanding**: its call runs, and was told nothing. -/
def Outstanding (c : Correspondence) (id : UInt32) (node : NodeId) : Prop :=
  ∃ (k : Nat) (call : Call), c.calls[k]? = some call ∧
    call.id = some id ∧ call.node = node ∧ call.stage.isOpen = true

/-- Whether a message is about the request of a call to a node. -/
def Move.concerns (node : NodeId) (id : Option UInt32) : Move → Bool
  | .answer node' id' _ => node == node' && id == some id'
  | .refuse node' id' _ => node == node' && id == some id'
  | .disconnect node' => node == node'
  | _ => false

/-- What a message tells. -/
def Move.tells : Move → Option (Except GossipError Bytes)
  | .answer _ _ payload => some (.ok payload)
  | .refuse node _ reason => some (.error (.requestFailed node reason))
  | .disconnect node => some (.error (.requestFailed node "peer disconnected"))
  | _ => none

/-- A call heeds a message if its request is outstanding and the message is about it. -/
def Call.heed (m : Move) (r : Except GossipError Bytes) (call : Call) : Call :=
  if call.stage.isOpen && m.concerns call.node call.id then { call with stage := call.stage.tell r }
  else call

/-! ## Order -/

/-- **The requests in order**: each call that runs has a number, which is its own and
below the next one, and exactly the outstanding requests wait. -/
structure Orderly (c : Correspondence) : Prop where
  numbered : ∀ call ∈ c.calls, call.stage.isRunning = true → ∃ id, call.id = some id
  unique : ∀ (k k' : Nat) (call call' : Call) (id : UInt32), c.calls[k]? = some call →
    c.calls[k']? = some call' → call.id = some id → call'.id = some id → k = k'
  lt_nextId : ∀ (k : Nat) (call : Call) (id : UInt32), c.calls[k]? = some call →
    call.id = some id → id < c.network.nextId
  waits_iff : ∀ id node, c.network.Waits id node ↔ c.Outstanding id node

section
variable {c : Correspondence} {call : Call} {k : Nat} {m : Move}

theorem orderly_new (self : NodeId) : Orderly (new self) := by
  refine ⟨?_, ?_, ?_, ?_⟩
  · intro call hcall
    simp [new] at hcall
  · intro k k' call call' id hk
    simp [new] at hk
  · intro k call id hk
    simp [new] at hk
  · intro id node
    simp [new, Network.new, Network.Waits, Outstanding]

theorem Stage.isRunning_of_isOpen {s : Stage} (h : s.isOpen = true) : s.isRunning = true := by
  cases s with
  | running sending told => rfl
  | ended r => cases h
  | dropped => cases h

/-- A call is told what its request has ended with, unless it was told before. -/
theorem Call.hear_eq {endings : List Ending} {r : Except GossipError Bytes} {concerned : Bool}
    (h : call.stage.isOpen = true →
      ∃ id, call.id = some id ∧ endings.lookup id = if concerned then some r else none) :
    call.hear endings
      = if call.stage.isOpen && concerned then { call with stage := call.stage.tell r } else call := by
  obtain ⟨node, id, stage⟩ := call
  by_cases hopen : stage.isOpen = true
  · obtain ⟨id, rfl, hlookup⟩ := h hopen
    cases stage with
    | running sending told =>
      cases told with
      | none =>
        rw [Call.hear]
        dsimp only
        rw [hlookup]
        cases concerned with
        | false => rfl
        | true => rfl
      | some r' => cases hopen
    | ended r' => cases hopen
    | dropped => cases hopen
  · rw [Bool.eq_false_iff.mpr hopen, Bool.false_and, if_neg Bool.false_ne_true]
    unfold hear
    split
    · next hstage => exact absurd (congrArg Stage.isOpen hstage) hopen
    · rfl

namespace Orderly

/-- The request of a call that was told nothing waits. -/
theorem waits_of_isOpen (hc : Orderly c) (hcall : call ∈ c.calls) (hopen : call.stage.isOpen = true) :
    ∃ id, call.id = some id ∧ c.network.Waits id call.node := by
  obtain ⟨id, hid⟩ := hc.numbered call hcall (Stage.isRunning_of_isOpen hopen)
  obtain ⟨k, hk⟩ := List.mem_iff_getElem?.mp hcall
  exact ⟨id, hid, (hc.waits_iff id call.node).mpr ⟨k, call, hk, hid, rfl, hopen⟩⟩

/-- **Messages are heard** by the outstanding requests that they are about, and by
nobody else. -/
theorem calls_of_tells (hc : Orderly c) {r : Except GossipError Bytes} (htells : m.tells = some r) :
    (c.step m).calls = c.calls.map (Call.heed m r) := by
  have hhear : ∀ {news : Network × List Ending},
      (∀ call ∈ c.calls, ∀ id, call.id = some id → c.network.Waits id call.node →
        news.2.lookup id = if m.concerns call.node call.id then some r else none) →
      (c.hear news).calls = c.calls.map (Call.heed m r) := by
    intro news hnews
    refine List.map_congr_left fun call hcall => Call.hear_eq fun hopen => ?_
    obtain ⟨id, hid, hwaits⟩ := hc.waits_of_isOpen hcall hopen
    exact ⟨id, hid, hnews call hcall id hid hwaits⟩
  cases m with
  | begin node deadline cancelled => cases htells
  | call k h => cases htells
  | answer node id payload =>
    cases htells
    refine hhear fun call hcall id' hid hwaits => ?_
    rw [Network.answer, Network.lookup_conclude hwaits, Move.concerns, hid]
    simp
  | refuse node id reason =>
    cases htells
    refine hhear fun call hcall id' hid hwaits => ?_
    rw [Network.refuse, Network.lookup_conclude hwaits, Move.concerns, hid]
    simp
  | disconnect node =>
    cases htells
    refine hhear fun call hcall id' hid hwaits => ?_
    rw [Network.lookup_disconnect hwaits, Move.concerns]
    simp

end Orderly

/-- What a message leaves waiting. -/
theorem waits_of_tells (c : Correspondence) {r : Except GossipError Bytes} (htells : m.tells = some r)
    (id : UInt32) (node : NodeId) :
    (c.step m).network.Waits id node ↔ m.concerns node (some id) = false ∧ c.network.Waits id node := by
  cases m with
  | begin node deadline cancelled => cases htells
  | call k h => cases htells
  | answer node' id' payload =>
    show (c.network.conclude _ _ _).1.Waits id node ↔ _
    rw [Network.waits_conclude, Move.concerns]
    simp
  | refuse node' id' reason =>
    show (c.network.conclude _ _ _).1.Waits id node ↔ _
    rw [Network.waits_conclude, Move.concerns]
    simp
  | disconnect node' =>
    show (c.network.disconnect node').1.Waits id node ↔ _
    rw [Network.waits_disconnect, Move.concerns]
    simp

theorem nextId_of_tells (c : Correspondence) {r : Except GossipError Bytes} (htells : m.tells = some r) :
    (c.step m).network.nextId = c.network.nextId := by
  have hconclude : ∀ node id result,
      (c.network.conclude node id result).1.nextId = c.network.nextId := by
    intro node id result
    unfold Network.conclude
    split
    · split
      · rfl
      · rfl
    · rfl
  cases m with
  | begin node deadline cancelled => cases htells
  | call k h => cases htells
  | answer node id payload => exact hconclude node id _
  | refuse node id reason => exact hconclude node id _
  | disconnect node => rfl

/-- Calls keep their nodes and numbers, and do not start running again. -/
structure Call.Follows (call call' : Call) : Prop where
  node_eq : call'.node = call.node
  id_eq : call'.id = call.id
  isRunning_of : call'.stage.isRunning = true → call.stage.isRunning = true

theorem Orderly.of_follows {c' : Correspondence} (hc : Orderly c)
    (hfollows : ∀ (k : Nat) (call' : Call), c'.calls[k]? = some call' →
      ∃ call, c.calls[k]? = some call ∧ call.Follows call')
    (hnextId : c'.network.nextId = c.network.nextId)
    (hwaits : ∀ id node, c'.network.Waits id node ↔ c'.Outstanding id node) : Orderly c' where
  numbered := by
    intro call' hcall' hrunning
    obtain ⟨k, hk'⟩ := List.mem_iff_getElem?.mp hcall'
    obtain ⟨call, hk, hfollow⟩ := hfollows k call' hk'
    rw [hfollow.id_eq]
    exact hc.numbered call (List.mem_of_getElem? hk) (hfollow.isRunning_of hrunning)
  unique := by
    intro k₁ k₂ call₁' call₂' id hk₁' hk₂' hid₁ hid₂
    obtain ⟨call₁, hk₁, hfollow₁⟩ := hfollows k₁ call₁' hk₁'
    obtain ⟨call₂, hk₂, hfollow₂⟩ := hfollows k₂ call₂' hk₂'
    rw [hfollow₁.id_eq] at hid₁
    rw [hfollow₂.id_eq] at hid₂
    exact hc.unique k₁ k₂ call₁ call₂ id hk₁ hk₂ hid₁ hid₂
  lt_nextId := by
    intro k call' id hk' hid
    obtain ⟨call, hk, hfollow⟩ := hfollows k call' hk'
    rw [hfollow.id_eq] at hid
    rw [hnextId]
    exact hc.lt_nextId k call id hk hid
  waits_iff := hwaits

theorem Stage.tell_isOpen (s : Stage) (r : Except GossipError Bytes) : (s.tell r).isOpen = false := by
  cases s with
  | running sending told => rfl
  | ended r => rfl
  | dropped => rfl

theorem Stage.tell_isRunning (s : Stage) (r : Except GossipError Bytes) :
    (s.tell r).isRunning = s.isRunning := by
  cases s with
  | running sending told => rfl
  | ended r => rfl
  | dropped => rfl

theorem Call.heed_cases (m : Move) (r : Except GossipError Bytes) (call : Call) :
    (call.stage.isOpen = true ∧ m.concerns call.node call.id = true ∧
      call.heed m r = { call with stage := call.stage.tell r }) ∨
    ((call.stage.isOpen = true → m.concerns call.node call.id = false) ∧ call.heed m r = call) := by
  unfold heed
  by_cases hopen : call.stage.isOpen = true
  · by_cases hconcerns : m.concerns call.node call.id = true
    · rw [hopen, hconcerns]
      exact Or.inl ⟨rfl, rfl, rfl⟩
    · rw [Bool.eq_false_iff.mpr hconcerns, Bool.and_false]
      exact Or.inr ⟨fun _ => rfl, rfl⟩
  · rw [Bool.eq_false_iff.mpr hopen, Bool.false_and]
    exact Or.inr ⟨fun h => absurd h Bool.false_ne_true, rfl⟩

theorem Orderly.step_of_tells (hc : Orderly c) {r : Except GossipError Bytes}
    (htells : m.tells = some r) : Orderly (c.step m) := by
  have hcalls := hc.calls_of_tells htells
  refine hc.of_follows ?_ (nextId_of_tells c htells) ?_
  · intro k call' hk'
    rw [hcalls, List.getElem?_map] at hk'
    obtain ⟨call, hk, rfl⟩ := Option.map_eq_some_iff.mp hk'
    refine ⟨call, hk, ?_⟩
    rcases Call.heed_cases m r call with ⟨-, -, heed⟩ | ⟨-, heed⟩
    · rw [heed]
      refine ⟨rfl, rfl, ?_⟩
      intro hrunning
      rwa [Stage.tell_isRunning] at hrunning
    · rw [heed]
      exact ⟨rfl, rfl, fun hrunning => hrunning⟩
  · intro id node
    rw [waits_of_tells c htells, hc.waits_iff]
    constructor
    · rintro ⟨hnot, k, call, hk, hid, rfl, hopen⟩
      have heed : call.heed m r = call := by
        rw [Call.heed, hid, hnot, Bool.and_false, if_neg Bool.false_ne_true]
      refine ⟨k, call, ?_, hid, rfl, hopen⟩
      rw [hcalls, List.getElem?_map, hk, Option.map_some, heed]
    · rintro ⟨k, call', hk', hid, rfl, hopen⟩
      rw [hcalls, List.getElem?_map] at hk'
      obtain ⟨call, hk, rfl⟩ := Option.map_eq_some_iff.mp hk'
      rcases Call.heed_cases m r call with ⟨-, -, heed⟩ | ⟨hnot, heed⟩
      · rw [heed, Stage.tell_isOpen] at hopen
        cases hopen
      · rw [heed] at hid hopen ⊢
        have hconcerns := hnot hopen
        rw [hid] at hconcerns
        exact ⟨hconcerns, k, call, hk, hid, rfl, hopen⟩

/-! ## What happens to a call by itself -/

theorem Stage.after_of_not_running {s : Stage} (h : s.isRunning = false) (node : NodeId)
    (happening : Happening) : s.after node happening = s := by
  cases s with
  | running sending told => cases h
  | ended r => cases happening <;> rfl
  | dropped => cases happening <;> rfl

/-- As long as a call runs nothing that happens to it tells it anything. -/
theorem Stage.isOpen_after {s : Stage} {node : NodeId} {happening : Happening}
    (h : (s.after node happening).isRunning = true) : (s.after node happening).isOpen = s.isOpen := by
  unfold after at h ⊢
  split at h
  · next told => cases told <;> rfl
  · cases h
  · cases h
  · cases h
  · cases h
  · cases h
  · rfl

theorem happen_of_not_running (hk : c.calls[k]? = some call) (h : call.stage.isRunning = false)
    (happening : Happening) : c.happen k call happening = c := by
  have hset : c.calls.set k { call with stage := call.stage.after call.node happening } = c.calls := by
    rw [Stage.after_of_not_running h]
    obtain ⟨hlt, rfl⟩ := List.getElem?_eq_some_iff.mp hk
    exact List.set_getElem_self hlt
  have hnetwork : (c.happen k call happening).network = c.network := by
    unfold happen
    rw [h]
    dsimp only
    split
    · rfl
    · rfl
  show Correspondence.mk (c.happen k call happening).network _ = c
  rw [hnetwork, hset]

/-- What waits after something has happened to a call. -/
theorem waits_happen {id : UInt32} (hid : call.id = some id) (happening : Happening) (id' : UInt32)
    (node : NodeId) (hrunning : call.stage.isRunning = true) :
    (c.happen k call happening).network.Waits id' node ↔
      ((call.stage.after call.node happening).isRunning = true ∨ id' ≠ id) ∧
        c.network.Waits id' node := by
  unfold happen
  rw [hid, hrunning]
  dsimp only
  by_cases hafter : (call.stage.after call.node happening).isRunning = true
  · rw [hafter]
    simp
  · rw [Bool.eq_false_iff.mpr hafter]
    simp [Network.waits_giveUp]

theorem Orderly.happen (hc : Orderly c) (hk : c.calls[k]? = some call) (happening : Happening) :
    Orderly (c.happen k call happening) := by
  by_cases hrunning : call.stage.isRunning = true
  · obtain ⟨id, hid⟩ := hc.numbered call (List.mem_of_getElem? hk) hrunning
    have hlt : k < c.calls.length := (List.getElem?_eq_some_iff.mp hk).1
    have hcalls : ∀ k', (c.happen k call happening).calls[k']? = if k = k' then
        some { call with stage := call.stage.after call.node happening } else c.calls[k']? := by
      intro k'
      show (c.calls.set k _)[k']? = _
      rw [List.getElem?_set, if_pos hlt]
    refine hc.of_follows ?_ ?_ ?_
    · intro k' call' hk'
      rw [hcalls] at hk'
      by_cases hsame : k = k'
      · subst hsame
        rw [if_pos rfl] at hk'
        cases hk'
        exact ⟨call, hk, rfl, rfl, fun _ => hrunning⟩
      · rw [if_neg hsame] at hk'
        exact ⟨call', hk', rfl, rfl, fun h => h⟩
    · unfold Correspondence.happen
      rw [hid]
      dsimp only
      split
      · rfl
      · rfl
    · intro id' node
      rw [waits_happen hid happening id' node hrunning, hc.waits_iff]
      constructor
      · rintro ⟨hstill, k', call', hk', hid', rfl, hopen⟩
        by_cases hsame : k = k'
        · subst hsame
          rw [hk] at hk'
          cases hk'
          rw [hid] at hid'
          have hafter := hstill.resolve_right (fun hne => hne (Option.some.inj hid').symm)
          refine ⟨k, { call with stage := call.stage.after call.node happening }, ?_,
            hid.trans hid', rfl, ?_⟩
          · rw [hcalls, if_pos rfl]
          · rw [Stage.isOpen_after hafter, hopen]
        · exact ⟨k', call', by rw [hcalls, if_neg hsame, hk'], hid', rfl, hopen⟩
      · rintro ⟨k', call', hk', hid', rfl, hopen⟩
        rw [hcalls] at hk'
        by_cases hsame : k = k'
        · subst hsame
          rw [if_pos rfl] at hk'
          cases hk'
          have hafter := Stage.isRunning_of_isOpen hopen
          rw [Stage.isOpen_after hafter] at hopen
          exact ⟨Or.inl hafter, k, call, hk, hid', rfl, hopen⟩
        · rw [if_neg hsame] at hk'
          refine ⟨Or.inr fun heq => ?_, k', call', hk', hid', rfl, hopen⟩
          exact hsame (hc.unique k k' call call' id hk hk' hid (heq ▸ hid'))
  · rw [happen_of_not_running hk (Bool.eq_false_iff.mpr hrunning)]
    exact hc

/-! ## Calls that begin -/

theorem getElem?_append_singleton {α : Type} {l : List α} {x y : α} {k : Nat} :
    (l ++ [x])[k]? = some y ↔ l[k]? = some y ∨ k = l.length ∧ y = x := by
  rw [List.getElem?_append]
  by_cases hk : k < l.length
  · rw [if_pos hk]
    refine ⟨Or.inl, fun h => h.resolve_right ?_⟩
    omega
  · rw [if_neg hk, List.getElem?_eq_none (Nat.le_of_not_lt hk), List.getElem?_singleton]
    by_cases hlast : k = l.length
    · simp [hlast, eq_comm]
    · rw [if_neg (by omega)]
      simp [hlast]

/-- One more call. If it takes a number then that is a new one, and it waits if it is
outstanding. -/
theorem Orderly.append (hc : Orderly c) {new : Call} {n : Network}
    (hnumbered : new.stage.isRunning = true → ∃ id, new.id = some id)
    (hnextId : c.network.nextId ≤ n.nextId)
    (hnew : ∀ id, new.id = some id → c.network.nextId ≤ id ∧ id < n.nextId)
    (hwaits : ∀ id node, n.Waits id node ↔
      c.network.Waits id node ∨ new.id = some id ∧ new.node = node ∧ new.stage.isOpen = true) :
    Orderly ⟨n, c.calls ++ [new]⟩ where
  numbered := by
    intro call hcall hrunning
    rcases List.mem_append.mp hcall with hcall | hcall
    · exact hc.numbered call hcall hrunning
    · rw [List.mem_singleton] at hcall
      subst hcall
      exact hnumbered hrunning
  unique := by
    have hother : ∀ {k : Nat} {call : Call} {id : UInt32}, c.calls[k]? = some call →
        call.id = some id → new.id ≠ some id := by
      intro k call id hk hid hid'
      exact UInt32.not_le.mpr (hc.lt_nextId k call id hk hid) (hnew id hid').1
    intro k k' call call' id hk hk' hid hid'
    rw [getElem?_append_singleton] at hk hk'
    rcases hk with hk | ⟨hk, rfl⟩
    · rcases hk' with hk' | ⟨hk', rfl⟩
      · exact hc.unique k k' call call' id hk hk' hid hid'
      · exact absurd hid' (hother hk hid)
    · rcases hk' with hk' | ⟨hk', rfl⟩
      · exact absurd hid (hother hk' hid')
      · rw [hk, hk']
  lt_nextId := by
    intro k call id hk hid
    rcases getElem?_append_singleton.mp hk with hk | ⟨hk, rfl⟩
    · exact UInt32.lt_of_lt_of_le (hc.lt_nextId k call id hk hid) hnextId
    · exact (hnew id hid).2
  waits_iff := by
    intro id node
    rw [hwaits, hc.waits_iff]
    constructor
    · rintro (⟨k, call, hk, hcall⟩ | hnew)
      · exact ⟨k, call, getElem?_append_singleton.mpr (Or.inl hk), hcall⟩
      · exact ⟨c.calls.length, new, getElem?_append_singleton.mpr (Or.inr ⟨rfl, rfl⟩), hnew⟩
    · rintro ⟨k, call, hk, hcall⟩
      rcases getElem?_append_singleton.mp hk with hk | ⟨hk, rfl⟩
      · exact Or.inl ⟨k, call, hk, hcall⟩
      · exact Or.inr hcall

/-- Numbers are taken one after the other. -/
theorem nextId_step (c : Correspondence) (m : Move)
    (hleft : c.network.nextId.toNat + issued [m] < UInt32.size) :
    (c.step m).network.nextId.toNat = c.network.nextId.toNat + issued [m] := by
  cases m with
  | begin node deadline cancelled =>
    cases cancelled with
    | true => rfl
    | false =>
      show (c.network.nextId + 1).toNat = _
      rw [UInt32.toNat_add]
      exact Nat.mod_eq_of_lt hleft
  | call k h =>
    have hhappen : ∀ call, (c.happen k call h).network.nextId = c.network.nextId := by
      intro call
      unfold happen
      dsimp only
      split
      · split
        · rfl
        · rfl
      · rfl
    unfold step
    dsimp only
    split
    · rw [hhappen]
      rfl
    · rfl
  | answer node id payload =>
    rw [nextId_of_tells c rfl]
    rfl
  | refuse node id reason =>
    rw [nextId_of_tells c rfl]
    rfl
  | disconnect node => rfl

/-- No request waits under a number that was not taken. -/
theorem Orderly.not_waits_nextId (hc : Orderly c) (node : NodeId) :
    ¬ c.network.Waits c.network.nextId node := by
  intro hwaits
  obtain ⟨k, call, hk, hid, -, -⟩ := (hc.waits_iff _ _).mp hwaits
  exact UInt32.lt_irrefl _ (hc.lt_nextId k call _ hk hid)

/-- **A call that begins** takes a number, as long as there are any left. -/
theorem Orderly.begin (hc : Orderly c) (node : NodeId) (deadline : Nat) (cancelled : Bool)
    (hleft : c.network.nextId.toNat + issued [.begin node deadline cancelled] < UInt32.size) :
    Orderly (c.step (.begin node deadline cancelled)) := by
  cases cancelled with
  | true =>
    refine hc.append ?_ (UInt32.le_refl _) ?_ ?_
    · intro hrunning
      cases hrunning
    · intro id hid
      cases hid
    · intro id node'
      simp
  | false =>
    have hnextId : (c.network.nextId + 1).toNat = c.network.nextId.toNat + 1 := nextId_step c _ hleft
    have hlt : c.network.nextId < c.network.nextId + 1 := by
      rw [UInt32.lt_iff_toNat_lt, hnextId]
      exact Nat.lt_succ_self _
    refine hc.append ?_ (UInt32.le_of_lt hlt) ?_ ?_
    · intro _
      exact ⟨c.network.nextId, rfl⟩
    · intro id hid
      cases hid
      exact ⟨UInt32.le_refl _, hlt⟩
    · intro id node'
      show (c.network.request node deadline).1.Waits id node' ↔ _
      rw [Network.waits_request]
      by_cases hid : c.network.nextId = id
      · subst hid
        rw [if_pos rfl]
        simp [hc.not_waits_nextId, Stage.isOpen]
      · rw [if_neg hid]
        simp [hid]

/-- Whatever comes next, the requests stay in order. -/
theorem Orderly.step (hc : Orderly c) (m : Move)
    (hleft : c.network.nextId.toNat + issued [m] < UInt32.size) : Orderly (c.step m) := by
  cases m with
  | begin node deadline cancelled => exact hc.begin node deadline cancelled hleft
  | call k h =>
    unfold Correspondence.step
    dsimp only
    split
    · next call hk => exact hc.happen hk h
    · exact hc
  | answer node id payload => exact hc.step_of_tells rfl
  | refuse node id reason => exact hc.step_of_tells rfl
  | disconnect node => exact hc.step_of_tells rfl

end

/-! ## Runs -/

section
variable {c : Correspondence} {call : Call} {k : Nat} {moves : List Move}

theorem run_append (c : Correspondence) (moves moves' : List Move) :
    c.run (moves ++ moves') = (c.run moves).run moves' := List.foldl_append

theorem run_append_singleton (c : Correspondence) (moves : List Move) (m : Move) :
    c.run (moves ++ [m]) = (c.run moves).step m := by
  rw [run_append]
  rfl

theorem endings_append_singleton (c : Correspondence) (moves : List Move) (m : Move) :
    c.endings (moves ++ [m]) = c.endings moves ++ ((c.run moves).ending? m).toList := by
  induction moves generalizing c with
  | nil =>
    rw [List.nil_append, endings, endings, endings, List.append_nil, List.nil_append]
    rfl
  | cons m' rest ih =>
    rw [List.cons_append, endings, endings, ih, List.append_assoc]
    rfl

theorem issued_append (moves moves' : List Move) :
    issued (moves ++ moves') = issued moves + issued moves' := List.countP_append

/-- **The requests stay in order** as long as there are fewer than numbers. -/
theorem Orderly.run (hc : Orderly c) (moves : List Move)
    (hleft : c.network.nextId.toNat + issued moves < UInt32.size) :
    Orderly (c.run moves) ∧
      (c.run moves).network.nextId.toNat = c.network.nextId.toNat + issued moves := by
  induction moves using List.reverseRecOn with
  | nil => exact ⟨hc, rfl⟩
  | append_singleton moves m ih =>
    rw [issued_append] at hleft
    obtain ⟨horderly, hnextId⟩ := ih (by omega)
    rw [run_append_singleton, issued_append]
    refine ⟨horderly.step m ?_, ?_⟩
    · omega
    · rw [nextId_step _ m (by omega), hnextId, Nat.add_assoc]

theorem orderly_run (self : NodeId) (h : issued moves < UInt32.size) :
    Orderly ((new self).run moves) ∧ ((new self).run moves).network.nextId.toNat = issued moves := by
  have hrun := (orderly_new self).run moves
  rw [show (new self).network.nextId.toNat = 0 from rfl, Nat.zero_add] at hrun
  exact hrun h

end

end Correspondence

end TxRelay
