/-
A round of asking between two transfer pools.

The asker sends the filter over its pool under the salt of the day; the
responder reads from the bytes a filter that reports the same ids under the
same salt. What the asker holds is reported, so none of it comes back. What is
not reported comes, unless the response has reached its target before.
-/
import TxRelay.Network
import TxRelay.Proofs.Answer
import TxRelay.Proofs.Arrivals
import TxRelay.Proofs.MempoolFilter

set_option autoImplicit false

namespace TxRelay

/-! ## What is pooled and what is listed -/

namespace Mempool

variable {p : Mempool}

theorem get?_eq_some_iff {id : Digest} {x : Transfer} :
    p.get? id = some x ↔ ∃ e, p.store.get? id = some e ∧ e.tx = x := by
  rw [get?, Option.map_eq_some_iff]

/-- What is listed is what is pooled. -/
theorem mem_newestFirst_iff (hc : p.store.Coherent) {x : Transfer} :
    x ∈ p.newestFirst ↔ p.get? x.id = some x := by
  rw [newestFirst, List.mem_map, get?_eq_some_iff]
  constructor
  · rintro ⟨e, he, rfl⟩
    obtain ⟨id, hid⟩ := hc.mem_newestFirst.mp he
    rw [(hc.id_eq hid).2]
    exact ⟨e, hid, rfl⟩
  · rintro ⟨e, he, hx⟩
    exact ⟨e, hc.mem_newestFirst.mpr ⟨x.id, he⟩, hx⟩

/-- A transfer is pooled under its own id. -/
theorem id_eq_of_get? (hc : p.store.Coherent) {id : Digest} {x : Transfer} (hx : p.get? id = some x) :
    x.id = id := by
  obtain ⟨e, he, rfl⟩ := get?_eq_some_iff.mp hx
  exact (hc.id_eq he).2

/-- The request of somebody who holds what is pooled. -/
def requestFor (p : Mempool) : Wire.PullRequest := ⟨p.filter.1, p.filter.2.toList⟩

end Mempool

/-- A message reaches the protocol that it was sent for, as it was sent. -/
theorem Network.dispatch_tag {n : Network} {protocol : Wire.Protocol}
    (h : n.protocols.contains protocol.byte = true) (payload : Bytes) :
    n.dispatch (protocol.tag payload) = .ok (protocol.byte, payload) :=
  if_pos h

/-! ## A round -/

namespace Gossiper

open Bloom (BloomFilter)

/-- The items are some that the responder holds and the asker does not, and if they do not
reach the target they are all that the asker's filter misses (`GossipHandler::respond`). -/
structure Supplies (asker responder : Mempool) (target : Nat) (items : List Transfer) : Prop where
  held : ∀ x ∈ items, responder.get? x.id = some x
  unheld : ∀ x ∈ items, asker.has x.id = false
  complete : ∀ id x, responder.get? id = some x → asker.filterHas id = false →
    x ∈ items ∨ target ≤ (items.flatMap Wire.Layout.write).length

variable {asker responder : Gossiper Mempool Transfer}

/-- A cycle asks with the filter over the pool, unless the request is too long. -/
theorem inquire_transfers (env : TransferBackend) (peers : List NodeId) :
    (asker.inquire env peers).2 =
      if (Wire.Layout.write asker.set.requestFor).length ≤ Wire.maxMessageBytes then
        .ok ⟨peers, Wire.Layout.write asker.set.requestFor⟩
      else .error (.ofFault .sizeLimit) := by
  have hfilter : GossipSet.filter asker.set env = (asker.set, .ok asker.set.filter) := rfl
  rw [inquire, hfilter]
  dsimp only
  have hencode : Wire.encode (⟨asker.set.filter.1, asker.set.filter.2.toList⟩ : Wire.PullRequest)
      = if (Wire.Layout.write asker.set.requestFor).length ≤ Wire.maxMessageBytes then
          .ok (Wire.Layout.write asker.set.requestFor) else .error .sizeLimit := rfl
  rw [hencode]
  by_cases hfits : (Wire.Layout.write asker.set.requestFor).length ≤ Wire.maxMessageBytes
  · rw [if_pos hfits, if_pos hfits]
  · rw [if_neg hfits, if_neg hfits]

/-- **The responder reads what the asker sent**: the same salt, and a filter that
reports the same ids. -/
theorem exists_readable_requestFor {p : Mempool} (hsound : p.store.filter.Sound)
    (hfits : (Wire.Layout.write p.requestFor).length ≤ Wire.maxMessageBytes)
    (hmax : p.filter.1.length ≤ responder.settings.maxFilterBytes) :
    ∃ f, responder.Readable (Wire.Layout.write p.requestFor) p.requestFor f ∧
      ∀ id : Digest, f.contains id.toList p.requestFor.salt = p.filterHas id :=
  ⟨{ p.store.filter.filter with n := p.store.filter.filter.n % UInt64.size },
    ⟨Wire.decode_write hfits, Vector.length_toList, BloomFilter.parse_toBytes hsound hmax⟩,
    fun _ => rfl⟩

/-- A selection by the asker's filter supplies the asker. -/
theorem supplies_selection {p : Mempool} (hc : p.store.Coherent)
    (hcresponder : responder.set.store.Coherent) {f : BloomFilter} {salt : Bytes}
    (hf : ∀ id : Digest, f.contains id.toList salt = p.filterHas id) (env : TransferBackend) :
    Supplies p responder.set responder.settings.targetBytes (responder.selection env f salt) := by
  have hwanted : ∀ x, x ∈ wanted f salt (GossipSet.items responder.set env) ↔
      responder.set.get? x.id = some x ∧ p.filterHas x.id = false := by
    intro x
    have hmissed : f.contains (GossipItem.gossipId x).toList salt = p.filterHas x.id := hf x.id
    rw [wanted, List.mem_filter, hmissed, Bool.not_eq_true']
    exact and_congr_left' (Mempool.mem_newestFirst_iff hcresponder)
  refine ⟨fun x hx => ((hwanted x).mp (mem_of_mem_upTo hx)).1, fun x hx => ?_, fun id x hx hmissed => ?_⟩
  · -- What is held is reported.
    have hmissed := ((hwanted x).mp (mem_of_mem_upTo hx)).2
    rw [Bool.eq_false_iff]
    intro hheld
    obtain ⟨e, he⟩ := Mempool.exists_get?_of_has hheld
    rw [Mempool.filterHas, hc.reported he] at hmissed
    cases hmissed
  · have hid := Mempool.id_eq_of_get? hcresponder hx
    rw [← hid] at hx hmissed
    have hor := mem_upTo_or responder.settings.targetBytes 0
      ((hwanted x).mpr ⟨hx, hmissed⟩)
    rwa [Nat.zero_add] at hor

/-- **A round of asking.** Whatever was asked of two pools, whoever listens to
them and whichever salts they drew, a request of the one that fits into a
message reaches the other as it was sent, if its filter is not too large there.
What comes back is nothing that the asker holds; and it is all that the
responder holds and the asker's filter misses, unless the response has reached
its target, or nothing comes back at all. -/
theorem pull_round {settings settings' : MempoolSettings} {salts salts' : Nat → Salt}
    {p p' : Mempool} (hnew : Mempool.new settings salts = .ok p)
    (hnew' : Mempool.new settings' salts' = .ok p') {actions actions' : List Mempool.Action}
    {bus bus' : Bus} (hasker : asker.set = { p.run actions with bus })
    (hresponder : responder.set = { p'.run actions' with bus := bus' })
    {network : Network} (hnetwork : network.protocols.contains Wire.Protocol.transfers.byte = true)
    (hmax : asker.set.filter.1.length ≤ responder.settings.maxFilterBytes)
    (env env' : TransferBackend) (peers : List NodeId) (lookup : ValidatorLookup)
    (now deadline : Nat) (node : NodeId) :
    match (asker.inquire env peers).2 with
    | .error _ => Wire.maxMessageBytes < (Wire.Layout.write asker.set.requestFor).length
    | .ok inquiry => ∃ (payload : Bytes) (items : List Transfer),
      network.dispatch (Wire.Protocol.transfers.tag inquiry.payload)
        = .ok (Wire.Protocol.transfers.byte, payload) ∧
      Supplies asker.set responder.set responder.settings.targetBytes items ∧
      match (responder.handleRequest env' lookup now deadline node payload).2 with
      | some answer => Wire.decode answer = .ok (responseOf items) ∧
          ∀ x ∈ items, Wire.decode (Wire.Layout.write x) = .ok x
      | none => ¬responder.Admits lookup now deadline node ∨
          Wire.maxMessageBytes < (Wire.Layout.write (responseOf items)).length := by
  -- Who listens to a pool has no part in what its store and its filter say.
  have hc : asker.set.store.Coherent := by
    rw [hasker]
    exact Mempool.coherent_run (Mempool.coherent_new hnew) actions
  have hsound : asker.set.store.filter.Sound := by
    rw [hasker]
    exact Mempool.sound_run (Mempool.sound_new hnew) actions
  have hcresponder : responder.set.store.Coherent := by
    rw [hresponder]
    exact Mempool.coherent_run (Mempool.coherent_new hnew') actions'
  rw [inquire_transfers]
  by_cases hfits : (Wire.Layout.write asker.set.requestFor).length ≤ Wire.maxMessageBytes
  · rw [if_pos hfits]
    obtain ⟨f, hreadable, hf⟩ := exists_readable_requestFor hsound hfits hmax
    refine ⟨_, _, Network.dispatch_tag hnetwork _, supplies_selection hc hcresponder hf env', ?_⟩
    split
    · next answer hanswer =>
      obtain ⟨_, hencode⟩ := (handleRequest_eq_some_iff hreadable).mp hanswer
      obtain ⟨hresponse, hwrite⟩ := Wire.encode_eq_ok_iff.mp hencode
      rw [← hwrite]
      exact ⟨Wire.decode_write hresponse,
        fun x hx => Wire.decode_write (fits_of_encode_responseOf hencode hx)⟩
    · next hnone =>
      -- An admitted request is dropped only for the size of the response.
      by_cases hadmits : responder.Admits lookup now deadline node
      · refine Or.inr (Nat.lt_of_not_le fun hresponse => ?_)
        have hsome := (handleRequest_eq_some_iff hreadable).mpr
          ⟨hadmits, Wire.encode_eq_ok_iff.mpr ⟨hresponse, rfl⟩⟩
        rw [hnone] at hsome
        cases hsome
      · exact Or.inl hadmits
  · rw [if_neg hfits]
    exact Nat.lt_of_not_le hfits

open Mempool (lenient strangers twoOffers)

/-- A pool with one transfer, about to ask while somebody listens to it. -/
def asking (p : Mempool) : Gossiper Mempool Transfer :=
  .new .standard (p.run [.add lenient strangers.1 true]).subscribe.1

/-- A pool with this transfer and another one, which accepts the asker's filter. -/
def supplying (p : Mempool) : Gossiper Mempool Transfer :=
  .new { GossipSettings.standard with maxFilterBytes := (asking p).set.filter.1.length }
    (p.run twoOffers)

/-- What both hold is not sent again: if anything comes back, it is the other one. -/
theorem pull_round_of_shared :
    ∃ (p : Mempool) (network : Network), Mempool.new .small (fun _ => default) = .ok p ∧
      (Network.new default).register .transfers = .ok network ∧
      (asking p).set.get? strangers.1.id = some strangers.1 ∧
      (supplying p).set.newestFirst = [strangers.2, strangers.1] ∧
      match ((asking p).inquire lenient [default]).2 with
      | .error _ => Wire.maxMessageBytes < (Wire.Layout.write (asking p).set.requestFor).length
      | .ok inquiry => ∃ (payload : Bytes) (items : List Transfer),
        network.dispatch (Wire.Protocol.transfers.tag inquiry.payload)
          = .ok (Wire.Protocol.transfers.byte, payload) ∧
        (∀ x ∈ items, x = strangers.2) ∧
        Supplies (asking p).set (supplying p).set (supplying p).settings.targetBytes items ∧
        match ((supplying p).handleRequest lenient sole 0 1 default payload).2 with
        | some answer => Wire.decode answer = .ok (responseOf items) ∧
            ∀ x ∈ items, Wire.decode (Wire.Layout.write x) = .ok x
        | none => ¬(supplying p).Admits sole 0 1 default ∨
            Wire.maxMessageBytes < (Wire.Layout.write (responseOf items)).length := by
  obtain ⟨p, hnew⟩ := Mempool.exists_new_small
  let q := p.run [.add lenient strangers.1 true]
  have hheld : q.store.get? strangers.1.id = some ⟨strangers.1, strangers.1.id, true, 0, false⟩ := by
    show (p.add lenient strangers.1 true).1.store.get? _ = _
    rw [Mempool.get?_add_of_new hnew rfl (by decide) true, if_pos rfl]
  have hlist : (supplying p).set.newestFirst = [strangers.2, strangers.1] :=
    Mempool.newestFirst_twoOffers hnew
  let network : Network :=
    { Network.new default with
      protocols := (Network.new default).protocols.insert Wire.Protocol.transfers.byte }
  have hnetwork : network.protocols.contains Wire.Protocol.transfers.byte = true := rfl
  have hasker : (asking p).set = { q with bus := (q.bus.subscribe [.transfers]).1 } := rfl
  have hresponder : (supplying p).set = { p.run twoOffers with bus := (p.run twoOffers).bus } := rfl
  have hround := pull_round hnew hnew hasker hresponder hnetwork (Nat.le_refl _) lenient lenient
    [default] sole 0 1 default
  refine ⟨p, network, hnew, rfl, Mempool.get?_eq_some_iff.mpr ⟨_, hheld, rfl⟩, hlist, ?_⟩
  revert hround
  cases ((asking p).inquire lenient [default]).2 with
  | error e => exact id
  | ok inquiry =>
    rintro ⟨payload, items, hdispatch, hsupplies, hanswer⟩
    refine ⟨payload, items, hdispatch, fun x hx => ?_, hsupplies, hanswer⟩
    have hc := Mempool.coherent_run (Mempool.coherent_new hnew) twoOffers
    have hmem := (Mempool.mem_newestFirst_iff hc).mpr (hsupplies.held x hx)
    rw [show (p.run twoOffers).newestFirst = _ from hlist, List.mem_pair] at hmem
    -- The asker holds the first one, so it is not among the items.
    have hhas : (asking p).set.has strangers.1.id = true := by
      show q.store.contains _ = true
      rw [TransferStore.contains_eq_isSome, hheld]
      rfl
    have hother : x ≠ strangers.1 := by
      rintro rfl
      rw [hsupplies.unheld _ hx] at hhas
      cases hhas
    exact hmem.resolve_right hother

end Gossiper

end TxRelay
