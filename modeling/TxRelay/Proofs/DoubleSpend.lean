/-
No input of shared memory is spent twice.

Three guards hand an input over to each other. While a transfer is pooled, the
index of spenders keeps every other pooled transfer off its inputs. When a block
takes transfers out of the pool, what stays there spends nothing that the block
consumes, since the index was exact. And from then on the ledger remembers the
inputs, and the pool asks it before it lets a transfer in.

What is true in between is `Intact`: every pooled transfer spends something, and
everything it spends is still there. That is so whatever whoever assembles
blocks does with the pool, because handing over, giving back and taking out put
no transfer in.
-/
import TxRelay.Proofs.Blocks

set_option autoImplicit false

namespace TxRelay

/-! ## What an id stands for

The list of inputs is written without its length, so it is told from what
surrounds it by the sizes of the other fields. -/

/-- Blocks of one size are known from what they make together. -/
theorem Bytes.flatMap_toList_injective {size : Nat} (hsize : 0 < size)
    {xs ys : List (Vector UInt8 size)} (h : xs.flatMap Vector.toList = ys.flatMap Vector.toList) :
    xs = ys := by
  -- Something is longer than nothing.
  have hlonger : ∀ (x : Vector UInt8 size) (rest : List UInt8), x.toList ++ rest ≠ [] := by
    intro x rest hempty
    have hlength := congrArg List.length hempty
    rw [List.length_append, Vector.length_toList, List.length_nil] at hlength
    omega
  induction xs generalizing ys with
  | nil =>
    cases ys with
    | nil => rfl
    | cons y ys =>
      rw [List.flatMap_nil, List.flatMap_cons] at h
      exact absurd h.symm (hlonger y _)
  | cons x xs ih =>
    cases ys with
    | nil =>
      rw [List.flatMap_nil, List.flatMap_cons] at h
      exact absurd h (hlonger x _)
    | cons y ys =>
      rw [List.flatMap_cons, List.flatMap_cons] at h
      have hlength : x.toList.length = y.toList.length := by
        rw [Vector.length_toList, Vector.length_toList]
      obtain ⟨hfirst, hrest⟩ := List.append_inj h hlength
      rw [Vector.toList_inj.mp hfirst, ih hrest]

namespace Transfer

/-- The bytes that an id covers tell the inputs. -/
theorem inputs_eq_of_preimage_eq {t t' : Transfer} (h : t.preimage = t'.preimage) :
    t.inputs = t'.inputs := by
  rw [preimage, preimage] at h
  obtain ⟨_, hfields⟩ := List.cons.inj h
  -- The signature has a fixed size, and so has everything before the inputs.
  obtain ⟨hfront, _⟩ := List.append_inj' hfields (by simp)
  obtain ⟨_, hinputs⟩ := List.append_inj hfront (by simp)
  exact Bytes.flatMap_toList_injective (by decide) hinputs

/-- Two transfers with one id although the id covers different bytes. -/
def Collide (t t' : Transfer) : Prop :=
  t.preimage ≠ t'.preimage ∧ Digest.of t.preimage = Digest.of t'.preimage

/-- Two transfers that can both be carried out: they spend different inputs, and
if they are not known by different ids, then the digest has collided. -/
structure Apart (t t' : Transfer) : Prop where
  disjoint : ∀ input ∈ t.inputs, input ∉ t'.inputs
  distinct : t.id ≠ t'.id ∨ t.Collide t'

/-- Transfers that spend something, but nothing together, are apart. -/
theorem Apart.of_disjoint {t t' : Transfer} (hinputs : t.inputs ≠ [])
    (h : ∀ input ∈ t.inputs, input ∉ t'.inputs) : t.Apart t' := by
  refine ⟨h, ?_⟩
  by_cases hid : t.id = t'.id
  · refine Or.inr ⟨fun hpreimage => ?_, hid⟩
    obtain ⟨input, hinput⟩ := List.exists_mem_of_ne_nil _ hinputs
    exact h input hinput (inputs_eq_of_preimage_eq hpreimage ▸ hinput)
  · exact Or.inl hid

end Transfer

namespace Ledger

/-- A transfer spends something, and all of it is there. -/
structure Unspent (l : Ledger) (t : Transfer) : Prop where
  inputs : t.inputs ≠ []
  unconsumed : ∀ input ∈ t.inputs, l.isConsumed input = false

theorem unspent_of_validate {l : Ledger} {t : Transfer}
    (hvalid : l.transferBackend.validate t = .ok ()) : l.Unspent t := by
  obtain ⟨hfields, _⟩ := transferFault?_eq_none_iff.mp (validateTransfer_eq_ok_iff.mp hvalid)
  exact ⟨hfields.inputs, hfields.unconsumed⟩

end Ledger

namespace Node

/-! ## Runs -/

/-- Something that happens to a node, or to its transfer pool in the course of assembling
blocks (`Node`, `Mempool`). -/
inductive Event where
  | happens (action : Action)
  | propose (max : Nat)
  | confirm (ids : List Digest)
  | rollback (ids : List Digest)
  | discard (id : Digest) (reason : String)

/-- The node after an event. -/
def react (n : Node) : Event → Node
  | .happens action => n.act action
  | .propose max => n.withMempool (n.mempool.propose max).1
  | .confirm ids => n.withMempool (n.mempool.confirm ids).1
  | .rollback ids => n.withMempool (n.mempool.rollback ids).1
  | .discard id reason => n.withMempool (n.mempool.discard id reason).1

/-- The transfers that an event carries out. -/
def spends (n : Node) : Event → List Transfer
  | .happens (.advance _ _) => n.picked
  | _ => []

/-- The transfers that are carried out in the course of several events. -/
def history (n : Node) : List Event → List Transfer
  | [] => []
  | event :: rest => n.spends event ++ (n.react event).history rest

/-- The pool is in step with its indices and with the ledger. -/
structure Intact (n : Node) : Prop where
  coherent : n.mempool.store.Coherent
  unspent : n.mempool.store.All n.ledger.Unspent

variable {n : Node}

/-! ## What an event keeps -/

theorem kept_unspent (l : Ledger) :
    Kept l (fun _ => True) (fun s => s.Coherent ∧ s.All l.Unspent) where
  add _ _ _ _ := trivial
  bus _ _ _ := trivial
  offer _ tx isLocal hm :=
    ⟨Mempool.coherent_add hm.1 _ tx isLocal,
      Mempool.all_add hm.2 (fun hvalid _ => Ledger.unspent_of_validate hvalid) isLocal⟩

theorem Intact.take (h : n.Intact) (t : Traffic) : (n.take t).Intact := by
  have hstands : n.Stands (fun _ => True) (fun s => s.Coherent ∧ s.All n.ledger.Unspent) n.ledger
      n.head := ⟨trivial, ⟨h.coherent, h.unspent⟩, rfl, rfl⟩
  have htaken := hstands.take (kept_unspent n.ledger) t
  obtain ⟨hcoherent, hunspent⟩ := htaken.mempool
  refine ⟨hcoherent, ?_⟩
  rw [htaken.ledger_eq]
  exact hunspent

/-- What a block consumes. -/
theorem isConsumed_advance (timestamp salt : UInt64) (input : Digest) :
    (n.advance timestamp salt).ledger.isConsumed input = true ↔
      (∃ t ∈ n.picked, input ∈ t.inputs) ∨ n.ledger.isConsumed input = true :=
  n.ledger.isConsumed_carryOut n.charged n.picked input

/-- **What a block leaves in the pool** spends nothing that the block has
consumed. -/
theorem Intact.advance (h : n.Intact) (timestamp salt : UInt64) :
    (n.advance timestamp salt).Intact := by
  refine ⟨Mempool.coherent_confirm (Mempool.coherent_propose h.coherent _) _, ?_⟩
  intro id e he
  obtain ⟨⟨e₀, he₀, htx⟩, hnot⟩ := Mempool.get?_confirm_proposed h.coherent he
  obtain ⟨hinputs, hunconsumed⟩ := h.unspent id e₀ he₀
  rw [← htx]
  refine ⟨hinputs, fun input hinput => Bool.eq_false_iff.mpr fun hgone => ?_⟩
  rcases (isConsumed_advance timestamp salt input).mp hgone with ⟨t, ht, hspent⟩ | hbefore
  · -- Whoever spent it was pooled under the same id, and is gone.
    obtain ⟨e', he', _, rfl⟩ := Mempool.of_mem_proposed h.coherent ht
    have hid : id = e'.tx.id := h.coherent.eq_of_input he₀ he' hinput hspent
    exact hnot (List.mem_map.mpr ⟨e'.tx, ht, hid.symm⟩)
  · rw [hunconsumed input hinput] at hbefore
    cases hbefore

/-- **Whatever happens** leaves the pool in step. -/
theorem Intact.react (h : n.Intact) (event : Event) : (n.react event).Intact := by
  cases event with
  | happens action =>
    cases action with
    | traffic t => exact h.take t
    | fund a amount =>
      exact ⟨h.coherent, fun id e he => ⟨(h.unspent id e he).inputs, (h.unspent id e he).unconsumed⟩⟩
    | advance timestamp salt => exact h.advance timestamp salt
  | propose max =>
    exact ⟨Mempool.coherent_propose h.coherent max, Mempool.all_propose h.unspent max⟩
  | confirm ids =>
    exact ⟨Mempool.coherent_confirm h.coherent ids, (Mempool.within_confirm _ ids).all h.unspent⟩
  | rollback ids =>
    exact ⟨Mempool.coherent_rollback h.coherent ids, Mempool.all_rollback h.unspent ids⟩
  | discard id reason =>
    exact ⟨Mempool.coherent_discard h.coherent id reason,
      (Mempool.within_discard _ id reason).all h.unspent⟩

/-! ## What an event carries out -/

/-- **The ledger gets to know** what an event carries out, and forgets nothing. -/
theorem isConsumed_react (n : Node) (event : Event) (input : Digest) :
    (n.react event).ledger.isConsumed input = true ↔
      (∃ t ∈ n.spends event, input ∈ t.inputs) ∨ n.ledger.isConsumed input = true := by
  -- Only a block says something about inputs.
  have hidle : n.spends event = [] → (n.react event).ledger.consumed = n.ledger.consumed →
      ((n.react event).ledger.isConsumed input = true ↔
        (∃ t ∈ n.spends event, input ∈ t.inputs) ∨ n.ledger.isConsumed input = true) := by
    intro hspends hsame
    rw [hspends, Ledger.isConsumed, hsame]
    simp [Ledger.isConsumed]
  cases event with
  | happens action =>
    cases action with
    | traffic t => exact hidle rfl (congrArg Ledger.consumed (n.chain_take t).1)
    | fund a amount => exact hidle rfl rfl
    | advance timestamp salt => exact isConsumed_advance timestamp salt input
  | propose max => exact hidle rfl rfl
  | confirm ids => exact hidle rfl rfl
  | rollback ids => exact hidle rfl rfl
  | discard id reason => exact hidle rfl rfl

/-- A block carries out nothing that is spent already. -/
theorem unspent_of_mem_spends (h : n.Intact) {event : Event} {t : Transfer}
    (ht : t ∈ n.spends event) : n.ledger.Unspent t := by
  have hpicked : t ∈ n.picked := by
    cases event with
    | happens action =>
      cases action with
      | advance timestamp salt => exact ht
      | _ => cases ht
    | _ => cases ht
  obtain ⟨e, he, _, rfl⟩ := Mempool.of_mem_proposed h.coherent hpicked
  exact h.unspent _ e he

/-- What a block carries out can be carried out together. -/
theorem pairwise_spends (h : n.Intact) (event : Event) :
    (n.spends event).Pairwise Transfer.Apart := by
  have hpicked : n.picked.Pairwise Transfer.Apart :=
    (Mempool.pairwise_proposed h.coherent _).imp fun hpair => ⟨hpair.2, Or.inl hpair.1⟩
  cases event with
  | happens action =>
    cases action with
    | advance timestamp salt => exact hpicked
    | _ => exact List.Pairwise.nil
  | _ => exact List.Pairwise.nil

/-! ## What a run carries out -/

/-- The invariant of a run: what is carried out from now on is there now, and
stays apart. -/
theorem Intact.history (h : n.Intact) (events : List Event) :
    (n.history events).Pairwise Transfer.Apart ∧
      ∀ t ∈ n.history events, n.ledger.Unspent t := by
  induction events generalizing n with
  | nil => exact ⟨List.Pairwise.nil, nofun⟩
  | cons event rest ih =>
    obtain ⟨hpairwise, hunspent⟩ := ih (h.react event)
    refine ⟨List.pairwise_append.mpr ⟨pairwise_spends h event, hpairwise, ?_⟩, ?_⟩
    · intro t ht t' ht'
      refine Transfer.Apart.of_disjoint (unspent_of_mem_spends h ht).inputs ?_
      intro input hinput hinput'
      -- The event has consumed it, so it is not there for the rest of the run.
      have hgone := (isConsumed_react n event input).mpr (Or.inl ⟨t, ht, hinput⟩)
      rw [(hunspent t' ht').unconsumed input hinput'] at hgone
      cases hgone
    · intro t ht
      rcases List.mem_append.mp ht with hnow | hlater
      · exact unspent_of_mem_spends h hnow
      · obtain ⟨hinputs, hunconsumed⟩ := hunspent t hlater
        refine ⟨hinputs, fun input hinput => Bool.eq_false_iff.mpr fun hbefore => ?_⟩
        have hgone := (isConsumed_react n event input).mpr (Or.inr hbefore)
        rw [hunconsumed input hinput] at hgone
        cases hgone

/-- **What a run carries out** is what the ledger has consumed in the end. -/
theorem isConsumed_of_history (n : Node) (events : List Event) (input : Digest) :
    (events.foldl react n).ledger.isConsumed input = true ↔
      (∃ t ∈ n.history events, input ∈ t.inputs) ∨ n.ledger.isConsumed input = true := by
  induction events generalizing n with
  | nil => simp [history]
  | cons event rest ih =>
    rw [List.foldl_cons, ih, isConsumed_react, history]
    simp only [List.mem_append, or_and_right, exists_or]
    rw [← or_assoc, or_comm (a := ∃ t, t ∈ (n.react event).history rest ∧ input ∈ t.inputs)]

theorem intact_new {id : NodeId} {s : NodeSettings} {salts transferSalts : Nat → Salt}
    (hnew : Node.new id s salts transferSalts = .ok n) : n.Intact := by
  obtain ⟨_, _, hmempool, _⟩ := parts_of_new hnew
  exact ⟨Mempool.coherent_new hmempool, fun id e he => absurd he (Mempool.get?_new hmempool id e)⟩

/-- **No double spend.** Whatever happens to a node, and whatever is done to its
transfer pool in between, of any two transfers that its blocks carry out neither
spends an input of the other, and they have different ids unless the digest has
collided. -/
theorem pairwise_apart_of_history {id : NodeId} {s : NodeSettings} {salts transferSalts : Nat → Salt}
    {n₀ : Node} (hnew : Node.new id s salts transferSalts = .ok n₀) (events : List Event) :
    (n₀.history events).Pairwise Transfer.Apart :=
  ((intact_new hnew).history events).1

/-- Another outbound transfer of the account, which spends something else. -/
def leavingToo : Transfer := { leaving with inputs := [Vector.replicate 32 1] }

/-- The account owns 200 and offers both, and then there is a block. -/
def bothLeave : List Event :=
  [.happens (.fund default (Amount.ofNat 200)), .happens (.traffic (.submitTransfer leaving)),
    .happens (.traffic (.submitTransfer leavingToo)), .happens (.advance 0 0)]

/-- Both transfers are carried out. -/
theorem pairwise_apart_of_two :
    ∃ n₀, least = .ok n₀ ∧ leaving ∈ n₀.history bothLeave ∧ leavingToo ∈ n₀.history bothLeave ∧
      (n₀.history bothLeave).Pairwise Transfer.Apart := by
  have hfunded : ∃ n₀, least = .ok n₀ ∧
      (n₀.fund default (Amount.ofNat 200)).ledger.transferFault? leaving = none ∧
      (n₀.fund default (Amount.ofNat 200)).ledger.transferFault? leavingToo = none ∧
      ((n₀.fund default (Amount.ofNat 200)).ledger.account default).nonce = 0 := by
    decide +kernel
  obtain ⟨n₀, hn₀, hleaving, htoo, hnonce⟩ := hfunded
  have hids : leaving.id ≠ leavingToo.id := by decide +kernel
  let n := n₀.fund default (Amount.ofNat 200)
  let first := (n.mempool.add n.ledger.transferBackend leaving true).1
  let both := (first.add n.ledger.transferBackend leavingToo true).1
  have hahead : ∀ t : Transfer, t.account = default →
      ¬t.nonce < n.ledger.transferBackend.nonce t.account := by
    intro t haccount
    have hzero : n.ledger.transferBackend.nonce t.account = 0 := by
      rw [haccount]
      exact hnonce
    rw [hzero]
    exact UInt64.not_lt_zero
  obtain ⟨_, _, hnew, _⟩ := parts_of_new hn₀
  have hc : both.store.Coherent :=
    Mempool.coherent_add (Mempool.coherent_add (Mempool.coherent_new hnew) _ leaving true) _ leavingToo true
  obtain ⟨hfirst, hsecond⟩ := Mempool.get?_add_add_of_new hnew (by decide)
    (Ledger.validateTransfer_eq_ok_iff.mpr hleaving) (Ledger.validateTransfer_eq_ok_iff.mpr htoo)
    (hahead leaving rfl) (hahead leavingToo rfl) hids (by decide) true
  have hsubmitted :
      ((n.submitTransfer leaving).1.submitTransfer leavingToo).1 = n.withMempool both := by
    rw [fst_submitTransfer, fst_submitTransfer]
    rfl
  have hhistory : n₀.history bothLeave = (n.withMempool both).picked := by
    rw [← hsubmitted]
    simp only [bothLeave, history, spends, List.nil_append, List.append_nil]
    rfl
  refine ⟨n₀, hn₀, ?_, ?_, pairwise_apart_of_history hn₀ bothLeave⟩
  · rw [hhistory]
    exact Mempool.mem_proposed hc hfirst rfl
  · rw [hhistory]
    exact Mempool.mem_proposed hc hsecond rfl

end Node

end TxRelay
