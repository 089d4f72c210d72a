/-
Requests that wait.

A request waits under its number for the node that it was sent to. What a node
says of a request ends it only if it waits for just that node; a disconnection
ends all that wait for the node, and no others.
-/
import TxRelay.Network
import TxRelay.Proofs.Entries

set_option autoImplicit false

namespace TxRelay

namespace Network

variable {n : Network} {ids : List UInt32} {id : UInt32} {node : NodeId}

/-- Whether a request to a node waits under a number. -/
def Waits (n : Network) (id : UInt32) (node : NodeId) : Prop := n.waiting[id]?.map Waiting.node = some node

theorem waits_without : (n.without ids).Waits id node ↔ id ∉ ids ∧ n.Waits id node := by
  rw [Waits, without, Entries.getElem?_eraseMany]
  by_cases hid : id ∈ ids
  · simp [hid]
  · simp [hid, Waits]

theorem waits_giveUp {id' : UInt32} : (n.giveUp id').Waits id node ↔ id ≠ id' ∧ n.Waits id node := by
  rw [giveUp, waits_without, List.mem_singleton]

theorem waits_request {node' : NodeId} {deadline : Nat} :
    (n.request node' deadline).1.Waits id node ↔
      if n.nextId = id then node' = node else n.Waits id node := by
  show (n.waiting.insert n.nextId ⟨node', deadline⟩)[id]?.map Waiting.node = some node ↔ _
  rw [Entries.getElem?_insert]
  by_cases hid : n.nextId = id
  · simp [hid]
  · simp [hid, Waits]

theorem mem_waitingFor : id ∈ n.waitingFor node ↔ n.Waits id node := by
  rw [waitingFor, Waits]
  simp [Std.ExtTreeMap.mem_toList_iff_getElem?_eq_some]

/-- **An answer or a refusal** of what does not wait for it changes nothing. -/
theorem conclude_of_not_waits (h : ¬ n.Waits id node) (result : Except GossipError Bytes) :
    n.conclude node id result = (n, []) := by
  unfold conclude
  split
  · next w hw =>
    have hnode : w.node ≠ node := by
      intro hnode
      rw [Waits, hw, Option.map_some, hnode] at h
      exact h rfl
    rw [if_neg hnode]
  · rfl

theorem Waits.unique {node' : NodeId} (h : n.Waits id node) (h' : n.Waits id node') : node = node' :=
  Option.some.inj (h.symm.trans h')

theorem conclude_of_waits (h : n.Waits id node) (result : Except GossipError Bytes) :
    n.conclude node id result = (n.giveUp id, [(id, result)]) := by
  obtain ⟨w, hw, hnode⟩ := Option.map_eq_some_iff.mp h
  rw [conclude, hw]
  dsimp only
  rw [if_pos hnode]

/-- What an answer or a refusal ends. -/
theorem lookup_conclude (h : n.Waits id node) (node' : NodeId) (id' : UInt32)
    (result : Except GossipError Bytes) :
    (n.conclude node' id' result).2.lookup id = if node = node' ∧ id = id' then some result else none := by
  by_cases hwaits : n.Waits id' node'
  · rw [conclude_of_waits hwaits]
    by_cases hid : id = id'
    · subst hid
      rw [if_pos ⟨h.unique hwaits, rfl⟩]
      simp
    · rw [if_neg fun hsame => hid hsame.2]
      simp [hid]
  · rw [conclude_of_not_waits hwaits, if_neg]
    · rfl
    · rintro ⟨rfl, rfl⟩
      exact hwaits h

theorem lookup_map_mk {r : Except GossipError Bytes} :
    (ids.map fun id => (id, r)).lookup id = if id ∈ ids then some r else none := by
  induction ids with
  | nil => simp
  | cons id' rest ih =>
    rw [List.map_cons, List.lookup_cons, ih]
    by_cases hid : id = id'
    · simp [hid]
    · rw [beq_eq_false_iff_ne.mpr hid]
      simp [hid]

/-- What a disconnection ends. -/
theorem lookup_disconnect (h : n.Waits id node) (node' : NodeId) :
    (n.disconnect node').2.lookup id
      = if node = node' then some (.error (.requestFailed node' "peer disconnected")) else none := by
  show ((n.waitingFor node').map _).lookup id = _
  rw [lookup_map_mk]
  by_cases hnode : node = node'
  · subst hnode
    rw [if_pos rfl, if_pos (mem_waitingFor.mpr h)]
  · rw [if_neg hnode, if_neg]
    intro hmem
    exact hnode (h.unique (mem_waitingFor.mp hmem))

/-- What an answer or a refusal leaves waiting. -/
theorem waits_conclude {node' : NodeId} {id' : UInt32} {result : Except GossipError Bytes} :
    (n.conclude node' id' result).1.Waits id node ↔ ¬ (node = node' ∧ id = id') ∧ n.Waits id node := by
  by_cases hwaits : n.Waits id' node'
  · rw [conclude_of_waits hwaits, waits_giveUp]
    refine and_congr_left fun h => not_congr ⟨?_, And.right⟩
    rintro rfl
    exact ⟨h.unique hwaits, rfl⟩
  · rw [conclude_of_not_waits hwaits]
    refine ⟨fun h => ⟨?_, h⟩, And.right⟩
    rintro ⟨rfl, rfl⟩
    exact hwaits h

/-- What a disconnection leaves waiting. -/
theorem waits_disconnect {node' : NodeId} :
    (n.disconnect node').1.Waits id node ↔ node ≠ node' ∧ n.Waits id node := by
  show (n.without (n.waitingFor node')).Waits id node ↔ _
  rw [waits_without, mem_waitingFor]
  refine and_congr_left fun h => not_congr ⟨h.unique, ?_⟩
  rintro rfl
  exact h

end Network

end TxRelay
