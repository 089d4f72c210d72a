/-
Whatever is asked of the transfer pool, its store stays in order.

A newcomer is put in after two questions. The filter and the store together
say that its id is new; and once its rivals are out, nobody spends its inputs.
So putting in never overwrites, and the exact index of spenders survives
replacement, eviction and block assembly, under any execution layer and with
any arguments.
-/
import TxRelay.Mempool
import TxRelay.Proofs.TransferStore

set_option autoImplicit false

namespace TxRelay

namespace Mempool

open TransferStore (Coherent Within)

/-! ## Letting in -/

section
variable {s : TransferStore}

theorem coherent_evictUpTo (hc : s.Coherent) (n : Nat) : (evictUpTo n s).1.Coherent := by
  induction n generalizing s with
  | zero => exact hc
  | succ n ih =>
    have he := hc.evict
    rw [evictUpTo]
    generalize s.evict = evicted at he ⊢
    obtain ⟨s', e⟩ := evicted
    cases e with
    | none => exact he
    | some e => exact ih he

theorem within_evictUpTo (s : TransferStore) (n : Nat) : (evictUpTo n s).1.Within s := by
  induction n generalizing s with
  | zero => exact Within.refl s
  | succ n ih =>
    have he := Within.evict s
    rw [evictUpTo]
    generalize s.evict = evicted at he ⊢
    obtain ⟨s', e⟩ := evicted
    cases e with
    | none => exact he
    | some e => exact (ih s').trans he

/-- **Placing** a transfer that is new keeps the store in order. -/
theorem coherent_place (hc : s.Coherent) (maxSize : Nat) {tx : Transfer} (isLocal : Bool)
    (hnew : s.get? tx.id = none) : (place maxSize s tx isLocal).1.Coherent := by
  -- Taking out the rivals frees the inputs, and brings no id back.
  have hnew' : (s.removeAll (s.rivals tx)).1.get? tx.id = none := by
    rw [hc.get?_removeAll, hnew]
    split <;> rfl
  have hplaced := (hc.removeAll (s.rivals tx)).insert isLocal hnew' (hc.spenders_removeAll_rivals tx)
  exact (coherent_evictUpTo hplaced _).refresh

/-- What is there after a transfer was placed was there before, or is the
transfer. -/
theorem get?_place {maxSize : Nat} {tx : Transfer} {isLocal : Bool} {id : Digest}
    {e : PooledTransfer} (he : (place maxSize s tx isLocal).1.get? id = some e) :
    s.get? id = some e ∨ (e.tx = tx ∧ e.issued = false) := by
  have hplaced := within_evictUpTo ((s.removeAll (s.rivals tx)).1.insert tx isLocal) _ id e he
  rw [TransferStore.get?_insert] at hplaced
  split at hplaced
  · rw [← Option.some.inj hplaced]
    exact Or.inr ⟨rfl, rfl⟩
  · exact Or.inl (Within.removeAll s (s.rivals tx) id e hplaced)

/-- What the filter or the store does not know is not there. -/
theorem get?_of_not_isKnown (hc : s.Coherent) {id : Digest} (hknown : ¬isKnown s id = true) :
    s.get? id = none := by
  cases he : s.get? id with
  | none => rfl
  | some e =>
    refine absurd ?_ hknown
    rw [isKnown, hc.reported he, TransferStore.contains_eq_isSome, he]
    rfl

/-- A transfer that passes the check is acceptable and not behind its account. -/
theorem of_check {b : TransferBackend} {tx : Transfer} (hcheck : check b s tx = .ok ()) :
    b.validate tx = .ok () ∧ ¬tx.nonce < b.nonce tx.account := by
  rw [check] at hcheck
  split at hcheck
  · cases hcheck
  · next hvalid =>
    split at hcheck
    · cases hcheck
    · next hahead => exact ⟨hvalid, hahead⟩

end

variable {p : Mempool}

theorem exists_get?_of_has {id : Digest} (hid : p.has id = true) : ∃ e, p.store.get? id = some e := by
  rw [has, TransferStore.contains_eq_isSome] at hid
  exact Option.isSome_iff_exists.mp hid

theorem coherent_add (hc : p.store.Coherent) (b : TransferBackend) (tx : Transfer)
    (isLocal : Bool) : (p.add b tx isLocal).1.store.Coherent := by
  rw [add]
  dsimp only
  split
  · exact hc
  next hknown =>
  -- From here on the id is new, and looking at the verdicts does not change that.
  have hnew := get?_of_not_isKnown hc hknown
  have hc' := hc.verdict tx.id
  have hnew' : (p.store.verdict tx.id).1.get? tx.id = none := hnew
  split
  · next s reason heq =>
    rw [heq] at hc'
    exact hc'
  next s heq =>
  rw [heq] at hc' hnew'
  split
  · next e _ =>
    show (if e.isMemorable then s.remember tx.id e.message else s).Coherent
    split
    · exact hc'.remember tx.id e.message
    · exact hc'
  · have hplaced := coherent_place hc' p.settings.maxSize isLocal hnew'
    split
    · exact hplaced
    · exact hplaced

/-- **What an offer adds**: at most the transfer, if it is acceptable and not
behind its account. -/
theorem get?_add {b : TransferBackend} {tx : Transfer} {isLocal : Bool} {id : Digest}
    {e : PooledTransfer} (he : (p.add b tx isLocal).1.store.get? id = some e) :
    p.store.get? id = some e ∨ (e.tx = tx ∧ e.issued = false ∧ b.validate tx = .ok () ∧
      ¬tx.nonce < b.nonce tx.account) := by
  rw [add] at he
  dsimp only at he
  split at he
  · exact Or.inl he
  -- Until the transfer is placed, the verdicts are all that changes.
  have hsame : ∀ id', (p.store.verdict tx.id).1.get? id' = p.store.get? id' := fun _ => rfl
  split at he
  · next s reason heq =>
    rw [heq] at hsame
    exact Or.inl ((hsame id).symm.trans he)
  next s heq =>
  rw [heq] at hsame
  split at he
  · next err _ =>
    have hget : s.get? id = some e := by
      have he : (if err.isMemorable then s.remember tx.id err.message else s).get? id = some e := he
      split at he
      · exact he
      · exact he
    exact Or.inl ((hsame id).symm.trans hget)
  · next hcheck =>
    have hget : (place p.settings.maxSize s tx isLocal).1.get? id = some e := by
      split at he
      · exact he
      · exact he
    rcases get?_place hget with hold | ⟨htx, hissued⟩
    · exact Or.inl ((hsame id).symm.trans hold)
    · exact Or.inr ⟨htx, hissued, of_check hcheck⟩

theorem all_add {Q : Transfer → Prop} (ha : p.store.All Q) {b : TransferBackend} {tx : Transfer}
    (hQ : b.validate tx = .ok () → ¬tx.nonce < b.nonce tx.account → Q tx) (isLocal : Bool) :
    (p.add b tx isLocal).1.store.All Q := by
  intro id e he
  rcases get?_add he with hold | ⟨rfl, _, hvalid, hahead⟩
  · exact ha id e hold
  · exact hQ hvalid hahead

/-! ## Block assembly -/

theorem coherent_propose (hc : p.store.Coherent) (max : Nat) :
    (p.propose max).1.store.Coherent := hc.issueAll _

theorem all_propose {Q : Transfer → Prop} (ha : p.store.All Q) (max : Nat) :
    (p.propose max).1.store.All Q := ha.issueAll _

/-- What is handed to block assembly is pooled and was not handed over before. -/
theorem of_mem_proposed (hc : p.store.Coherent) {max : Nat} {t : Transfer}
    (ht : t ∈ (p.propose max).2) :
    ∃ e, p.store.get? t.id = some e ∧ e.issued = false ∧ e.tx = t := by
  obtain ⟨e, he, rfl⟩ := List.mem_map.mp ht
  obtain ⟨hget, hissued⟩ := hc.mem_byFee.mp (List.mem_of_mem_take he)
  refine ⟨e, ?_, hissued, rfl⟩
  rw [(hc.id_eq hget).2, hget]

/-- Everything that was not handed over before is, if there is no limit. -/
theorem mem_proposed (hc : p.store.Coherent) {id : Digest} {e : PooledTransfer}
    (he : p.store.get? id = some e) (hissued : e.issued = false) :
    e.tx ∈ (p.propose p.size).2 := by
  have hall : p.store.byFee.take p.size = p.store.byFee :=
    List.take_of_length_le p.store.length_byFee_le
  refine List.mem_map.mpr ⟨e, ?_, rfl⟩
  rw [hall]
  exact hc.mem_byFee.mpr ⟨by rw [(hc.id_eq he).1, he], hissued⟩

/-- **What is handed over together** can be carried out together: no two of the
transfers have the same id or spend the same input. -/
theorem pairwise_proposed (hc : p.store.Coherent) (max : Nat) :
    (p.propose max).2.Pairwise fun t t' =>
      t.id ≠ t'.id ∧ ∀ input ∈ t.inputs, input ∉ t'.inputs := by
  refine List.pairwise_map.mpr ?_
  -- An input of two of them would lead to both, so they would be one.
  refine ((hc.pairwise_byFee).sublist (List.take_sublist _ _)).imp_of_mem ?_
  intro e e' hmem hmem' hne
  obtain ⟨he, _⟩ := hc.mem_byFee.mp (List.mem_of_mem_take hmem)
  obtain ⟨he', _⟩ := hc.mem_byFee.mp (List.mem_of_mem_take hmem')
  refine ⟨?_, fun input hin hin' => hne (hc.eq_of_input he he' hin hin')⟩
  rw [(hc.id_eq he).2, (hc.id_eq he').2]
  exact hne

theorem coherent_confirm (hc : p.store.Coherent) (ids : List Digest) :
    (p.confirm ids).1.store.Coherent := (hc.removeAll ids).refresh

theorem within_confirm (p : Mempool) (ids : List Digest) :
    (p.confirm ids).1.store.Within p.store := Within.removeAll p.store ids

/-- **What stays in the pool** when everything that was handed over is in a
block was there before, and was not handed over with the rest. -/
theorem get?_confirm_proposed (hc : p.store.Coherent) {max : Nat} {id : Digest} {e : PooledTransfer}
    (he : ((p.propose max).1.confirm ((p.propose max).2.map Transfer.id)).1.store.get? id = some e) :
    (∃ e₀, p.store.get? id = some e₀ ∧ e₀.tx = e.tx) ∧ id ∉ (p.propose max).2.map Transfer.id := by
  have hc' := coherent_propose hc max
  have hget : ((p.propose max).1.store.removeAll ((p.propose max).2.map Transfer.id)).1.get? id
      = some e := he
  rw [hc'.get?_removeAll] at hget
  split at hget
  · cases hget
  next hnot =>
  -- Handing over changes no transfer, so what is left was pooled as it is.
  have hbefore : p.store.All fun t => ∃ e₀, p.store.get? t.id = some e₀ ∧ e₀.tx = t := by
    intro id₀ e₀ he₀
    exact ⟨e₀, by rw [(hc.id_eq he₀).2, he₀], rfl⟩
  obtain ⟨e₀, he₀, htx⟩ := all_propose hbefore max id e hget
  refine ⟨⟨e₀, ?_, htx⟩, hnot⟩
  rw [← (hc'.id_eq hget).2, he₀]

theorem coherent_rollback (hc : p.store.Coherent) (ids : List Digest) :
    (p.rollback ids).1.store.Coherent := hc.reopenAll ids

theorem all_rollback {Q : Transfer → Prop} (ha : p.store.All Q) (ids : List Digest) :
    (p.rollback ids).1.store.All Q := ha.reopenAll ids

theorem coherent_discard (hc : p.store.Coherent) (id : Digest) (reason : String) :
    (p.discard id reason).1.store.Coherent := (hc.remove id).remember id reason

theorem within_discard (p : Mempool) (id : Digest) (reason : String) :
    (p.discard id reason).1.store.Within p.store := Within.remove p.store id

/-! ## An empty pool -/

/-- A new pool holds nothing. -/
theorem get?_new {settings : MempoolSettings} {salts : Nat → Salt} (hnew : new settings salts = .ok p)
    (id : Digest) (e : PooledTransfer) : p.store.get? id ≠ some e := by
  rw [new] at hnew
  split at hnew
  · cases hnew
  · rw [← Except.ok.inj hnew]
    exact nofun

theorem rivals_of_spenders_empty {s : TransferStore} (hspenders : s.spenders = ∅) (tx : Transfer) :
    s.rivals tx = [] := by
  refine List.eq_nil_iff_forall_not_mem.mpr fun id hid => ?_
  obtain ⟨input, _, hspends⟩ := TransferStore.mem_rivals.mp hid
  rw [hspenders] at hspends
  cases hspends

/-- Where nobody spends its inputs a transfer finds nobody to displace. -/
theorem rivals_eq_nil {s : TransferStore} (hc : s.Coherent) {tx : Transfer}
    (hfree : ∀ id e, s.get? id = some e → ∀ input ∈ tx.inputs, input ∉ e.tx.inputs) :
    s.rivals tx = [] := by
  refine List.eq_nil_iff_forall_not_mem.mpr fun id hid => ?_
  obtain ⟨input, hinput, hspends⟩ := TransferStore.mem_rivals.mp hid
  obtain ⟨e, he, hown⟩ := hc.spender.mp hspends
  exact hfree id e he input hinput hown

/-- A transfer without rivals that finds room is put in, and that is all. -/
theorem place_of_room {s : TransferStore} {maxSize : Nat} {tx : Transfer}
    (hnew : s.get? tx.id = none) (hrivals : s.rivals tx = []) (hroom : s.size < maxSize)
    (isLocal : Bool) : place maxSize s tx isLocal = ((s.insert tx isLocal).refresh, []) := by
  have hgrown : (s.insert tx isLocal).size = s.size + 1 :=
    Entries.size_insert hnew (s.arriving tx isLocal)
  have hnone : (s.insert tx isLocal).size - maxSize = 0 := by omega
  rw [place, hrivals]
  show (let r := evictUpTo ((s.insert tx isLocal).size - maxSize) (s.insert tx isLocal)
    (r.1.refresh, r.2)) = _
  rw [hnone]
  rfl

/-- What is let in is placed. -/
theorem store_add_of_check {b : TransferBackend} {tx : Transfer} {s : TransferStore}
    (hknown : isKnown p.store tx.id = false) (hverdict : p.store.verdict tx.id = (s, none))
    (hcheck : check b s tx = .ok ()) (isLocal : Bool) :
    (p.add b tx isLocal).1.store = (place p.settings.maxSize s tx isLocal).1 := by
  rw [add]
  dsimp only
  rw [if_neg (Bool.eq_false_iff.mp hknown), hverdict]
  dsimp only
  rw [hcheck]
  dsimp only
  split
  · rfl
  · rfl

/-- **A pool with room** lets in a transfer that is new to it, on which it remembers no
verdict, that the chain has no objection to and that has no rivals. -/
theorem store_add_of_room {b : TransferBackend} {tx : Transfer} (hnew : p.store.get? tx.id = none)
    (hverdict : p.store.verdict tx.id = (p.store, none)) (hvalid : b.validate tx = .ok ())
    (hahead : ¬tx.nonce < b.nonce tx.account) (hrivals : p.store.rivals tx = [])
    (hroom : p.store.size < p.settings.maxSize) (isLocal : Bool) :
    (p.add b tx isLocal).1.store = (p.store.insert tx isLocal).refresh := by
  have hknown : isKnown p.store tx.id = false := by
    rw [isKnown, TransferStore.contains_eq_isSome, hnew]
    exact Bool.and_false _
  have hcheck : check b p.store tx = .ok () := by
    rw [check, hvalid, hrivals]
    exact if_neg hahead
  rw [store_add_of_check hknown hverdict hcheck, place_of_room hnew hrivals hroom]

/-- A new pool lets in a transfer that is acceptable and not behind its account. -/
theorem store_add_of_new {settings : MempoolSettings} {salts : Nat → Salt}
    (hnew : new settings salts = .ok p) {b : TransferBackend} {tx : Transfer}
    (hvalid : b.validate tx = .ok ()) (hahead : ¬tx.nonce < b.nonce tx.account) (isLocal : Bool) :
    (p.add b tx isLocal).1.store = (p.store.insert tx isLocal).refresh := by
  rw [new] at hnew
  split at hnew
  · cases hnew
  next hsettings =>
  have hmax : settings.maxSize ≠ 0 := by
    intro hzero
    rw [MempoolSettings.validate, if_pos hzero] at hsettings
    cases hsettings
  rw [← Except.ok.inj hnew]
  refine store_add_of_room rfl rfl hvalid hahead (rivals_of_spenders_empty rfl tx) ?_ isLocal
  exact Nat.pos_of_ne_zero hmax

theorem entries_add_of_new {settings : MempoolSettings} {salts : Nat → Salt}
    (hnew : new settings salts = .ok p) {b : TransferBackend} {tx : Transfer}
    (hvalid : b.validate tx = .ok ()) (hahead : ¬tx.nonce < b.nonce tx.account) (isLocal : Bool) :
    (p.add b tx isLocal).1.store.entries
      = (∅ : Std.ExtTreeMap Digest PooledTransfer).insert tx.id ⟨tx, tx.id, isLocal, 0, false⟩ := by
  rw [store_add_of_new hnew hvalid hahead]
  rw [new] at hnew
  split at hnew
  · cases hnew
  · rw [← Except.ok.inj hnew]
    rfl

/-- What is there afterwards, -/
theorem get?_add_of_new {settings : MempoolSettings} {salts : Nat → Salt}
    (hnew : new settings salts = .ok p) {b : TransferBackend} {tx : Transfer}
    (hvalid : b.validate tx = .ok ()) (hahead : ¬tx.nonce < b.nonce tx.account) (isLocal : Bool)
    (id : Digest) :
    (p.add b tx isLocal).1.store.get? id
      = if tx.id = id then some ⟨tx, tx.id, isLocal, 0, false⟩ else none := by
  unfold TransferStore.get?
  rw [entries_add_of_new hnew hvalid hahead, Entries.getElem?_insert]
  rfl

/-- and that there are no verdicts. -/
theorem verdicts_add_of_new {settings : MempoolSettings} {salts : Nat → Salt}
    (hnew : new settings salts = .ok p) {b : TransferBackend} {tx : Transfer}
    (hvalid : b.validate tx = .ok ()) (hahead : ¬tx.nonce < b.nonce tx.account) (isLocal : Bool) :
    (p.add b tx isLocal).1.store.verdicts = Lru.new settings.verdicts := by
  rw [store_add_of_new hnew hvalid hahead]
  rw [new] at hnew
  split at hnew
  · cases hnew
  · rw [← Except.ok.inj hnew]
    rfl

theorem verdict_add_of_new {settings : MempoolSettings} {salts : Nat → Salt}
    (hnew : new settings salts = .ok p) {b : TransferBackend} {tx : Transfer}
    (hvalid : b.validate tx = .ok ()) (hahead : ¬tx.nonce < b.nonce tx.account) (isLocal : Bool)
    (id : Digest) :
    (p.add b tx isLocal).1.store.verdict id = ((p.add b tx isLocal).1.store, none) := by
  have hverdicts := verdicts_add_of_new hnew hvalid hahead isLocal
  generalize (p.add b tx isLocal).1.store = s at hverdicts ⊢
  cases s
  subst hverdicts
  rfl

/-- A transfer that is alone in the pool is handed to block assembly alone. -/
theorem propose_of_entries_eq {e : PooledTransfer} (hissued : e.issued = false)
    (hentries : p.store.entries = (∅ : Std.ExtTreeMap Digest PooledTransfer).insert e.id e) (max : Nat) :
    (p.propose (max + 1)).2 = [e.tx] := by
  have hbyFee : p.store.byFee = [e] := by
    have hvalues : ((∅ : Std.ExtTreeMap Digest PooledTransfer).insert e.id e).values = [e] := rfl
    have hpending : [e].filter (fun e => !e.issued) = [e] := by simp [hissued]
    rw [TransferStore.byFee, hentries, hvalues, hpending]
    exact List.mergeSort_singleton _
  show (p.store.byFee.take (max + 1)).map PooledTransfer.tx = [e.tx]
  rw [hbyFee, List.take_succ_cons, List.take_nil]
  rfl

/-- **A transfer finds its way** into a new pool and out of it to block assembly,
if it is acceptable and not behind its account. -/
theorem propose_add_of_new {settings : MempoolSettings} {salts : Nat → Salt}
    (hnew : new settings salts = .ok p) {b : TransferBackend} {tx : Transfer}
    (hvalid : b.validate tx = .ok ()) (hahead : ¬tx.nonce < b.nonce tx.account) (isLocal : Bool) :
    ((p.add b tx isLocal).1.propose (p.add b tx isLocal).1.size).2 = [tx] := by
  have hentries := entries_add_of_new hnew hvalid hahead isLocal
  have hsize : (p.add b tx isLocal).1.size = 1 := by
    rw [size, TransferStore.size, hentries]
    rfl
  rw [hsize]
  exact propose_of_entries_eq (e := ⟨tx, tx.id, isLocal, 0, false⟩) rfl hentries 0

/-! ## Runs -/

/-- What can be asked of the pool (`Mempool`). An offer comes with what the execution layer
answers. -/
inductive Action where
  | add (b : TransferBackend) (tx : Transfer) (isLocal : Bool)
  | propose (max : Nat)
  | confirm (ids : List Digest)
  | rollback (ids : List Digest)
  | discard (id : Digest) (reason : String)

/-- The pool after an action. -/
def act (p : Mempool) : Action → Mempool
  | .add b tx isLocal => (p.add b tx isLocal).1
  | .propose max => (p.propose max).1
  | .confirm ids => (p.confirm ids).1
  | .rollback ids => (p.rollback ids).1
  | .discard id reason => (p.discard id reason).1

/-- The pool after several actions. -/
def run (p : Mempool) (actions : List Action) : Mempool := actions.foldl act p

theorem settings_add (p : Mempool) (b : TransferBackend) (tx : Transfer) (isLocal : Bool) :
    (p.add b tx isLocal).1.settings = p.settings := by
  unfold add
  dsimp only
  split
  · rfl
  · split
    · rfl
    · split
      · rfl
      · split <;> rfl

theorem settings_act (p : Mempool) (action : Action) : (p.act action).settings = p.settings := by
  cases action with
  | add b tx isLocal => exact settings_add p b tx isLocal
  | propose | confirm | rollback | discard => rfl

/-- A pool keeps its settings. -/
theorem settings_run (p : Mempool) (actions : List Action) : (p.run actions).settings = p.settings := by
  induction actions generalizing p with
  | nil => rfl
  | cons action rest ih => exact (ih (p.act action)).trans (settings_act p action)

theorem settings_new {settings : MempoolSettings} {salts : Nat → Salt}
    (hnew : new settings salts = .ok p) : p.settings = settings := by
  unfold new at hnew
  split at hnew
  · cases hnew
  · rw [← Except.ok.inj hnew]

/-- Two transfers that spend the same input are offered, with given fees. -/
def rivalOffers (fee fee' : UInt64) : List Action :=
  [.add ⟨fun _ => .ok (), fun _ => 0⟩ { (default : Transfer) with fee, inputs := [default] } true,
    .add ⟨fun _ => .ok (), fun _ => 0⟩ { (default : Transfer) with fee := fee', inputs := [default] }
      true]

theorem coherent_act (hc : p.store.Coherent) (action : Action) : (p.act action).store.Coherent := by
  cases action with
  | add b tx isLocal => exact coherent_add hc b tx isLocal
  | propose max => exact coherent_propose hc max
  | confirm ids => exact coherent_confirm hc ids
  | rollback ids => exact coherent_rollback hc ids
  | discard id reason => exact coherent_discard hc id reason

theorem coherent_run (hc : p.store.Coherent) (actions : List Action) :
    (p.run actions).store.Coherent := by
  induction actions generalizing p with
  | nil => exact hc
  | cons action rest ih => exact ih (coherent_act hc action)

theorem coherent_new {settings : MempoolSettings} {salts : Nat → Salt}
    (hnew : new settings salts = .ok p) : p.store.Coherent := by
  rw [new] at hnew
  split at hnew
  · cases hnew
  · rw [← Except.ok.inj hnew]
    exact Coherent.new (Bloom.RollingFilter.fits_start _ _) _

/-- A new pool that was offered an acceptable transfer holds it and no other. -/
theorem newestFirst_add_of_new {settings : MempoolSettings} {salts : Nat → Salt}
    (hnew : new settings salts = .ok p) {b : TransferBackend} {tx : Transfer}
    (hvalid : b.validate tx = .ok ()) (hahead : ¬tx.nonce < b.nonce tx.account) (isLocal : Bool) :
    (p.add b tx isLocal).1.newestFirst = [tx] := by
  have hone := (coherent_add (coherent_new hnew) b tx isLocal).newestFirst_of_entries_eq
    (e := ⟨tx, tx.id, isLocal, 0, false⟩) (entries_add_of_new hnew hvalid hahead isLocal)
  rw [newestFirst, hone]
  rfl

/-- There is a small pool. -/
theorem exists_new_small : ∃ p, new .small (fun _ => default) = .ok p := by
  have hvalid : MempoolSettings.small.validate = .ok () := rfl
  rw [new, hvalid]
  exact ⟨_, rfl⟩

/-- A new pool with room for two lets in two transfers that spend different inputs. -/
theorem get?_add_add_of_new {settings : MempoolSettings} {salts : Nat → Salt}
    (hnew : new settings salts = .ok p) (hroom : 1 < settings.maxSize) {b : TransferBackend}
    {tx tx' : Transfer} (hvalid : b.validate tx = .ok ()) (hvalid' : b.validate tx' = .ok ())
    (hahead : ¬tx.nonce < b.nonce tx.account) (hahead' : ¬tx'.nonce < b.nonce tx'.account)
    (hne : tx.id ≠ tx'.id) (hdisjoint : ∀ input ∈ tx'.inputs, input ∉ tx.inputs) (isLocal : Bool) :
    ((p.add b tx isLocal).1.add b tx' isLocal).1.store.get? tx.id = some ⟨tx, tx.id, isLocal, 0, false⟩ ∧
      ((p.add b tx isLocal).1.add b tx' isLocal).1.store.get? tx'.id
        = some ((p.add b tx isLocal).1.store.arriving tx' isLocal) := by
  have hc := coherent_add (coherent_new hnew) b tx isLocal
  have hheld := get?_add_of_new hnew hvalid hahead isLocal
  have hverdict := verdict_add_of_new hnew hvalid hahead isLocal tx'.id
  -- The first one is alone in the pool, so the second one finds room and no rivals.
  have hfresh : (p.add b tx isLocal).1.store.get? tx'.id = none := by rw [hheld, if_neg hne]
  have hrivals : (p.add b tx isLocal).1.store.rivals tx' = [] := by
    apply rivals_eq_nil hc
    intro id e he
    rw [hheld] at he
    split at he
    · rw [← Option.some.inj he]
      exact hdisjoint
    · cases he
  have hsize : (p.add b tx isLocal).1.store.size < (p.add b tx isLocal).1.settings.maxSize := by
    have hone : (p.add b tx isLocal).1.store.size = 1 := by
      rw [TransferStore.size, entries_add_of_new hnew hvalid hahead]
      rfl
    rw [hone, settings_add, settings_new hnew]
    exact hroom
  rw [store_add_of_room hfresh hverdict hvalid' hahead' hrivals hsize]
  constructor
  · exact Coherent.get?_insert_of_some hfresh (by rw [hheld, if_pos rfl])
  · show ((p.add b tx isLocal).1.store.insert tx' isLocal).get? tx'.id = _
    rw [TransferStore.get?_insert, if_pos rfl]

/-- **No two pooled transfers spend the same input**, and an input leads to
exactly the transfer that lists it, whatever was asked of the pool. -/
theorem inputs_disjoint_of_run {settings : MempoolSettings} {salts : Nat → Salt}
    (hnew : new settings salts = .ok p) (actions : List Action) :
    (∀ (id id' : Digest) (e e' : PooledTransfer), (p.run actions).store.get? id = some e →
      (p.run actions).store.get? id' = some e' → id ≠ id' →
        ∀ input ∈ e.tx.inputs, input ∉ e'.tx.inputs) ∧
    ∀ input id : Digest, (p.run actions).store.spenders[input]? = some id ↔
      ∃ e, (p.run actions).store.get? id = some e ∧ e.tx.id = id ∧ input ∈ e.tx.inputs := by
  have hc := coherent_run (coherent_new hnew) actions
  refine ⟨fun id id' e e' he he' hne input hmem hmem' => ?_, fun input id => ?_⟩
  · exact hne (hc.eq_of_input he he' hmem hmem')
  · constructor
    · intro hspends
      obtain ⟨e, he, hmem⟩ := hc.spender.mp hspends
      exact ⟨e, he, (hc.id_eq he).2, hmem⟩
    · rintro ⟨e, he, _, hmem⟩
      exact hc.spender.mpr ⟨e, he, hmem⟩

/-- A chain that has no objection to any transfer. -/
def lenient : TransferBackend := ⟨fun _ => .ok (), fun _ => 0⟩

/-- Two transfers that spend different inputs. -/
def disjointPair : Transfer × Transfer :=
  ({ (default : Transfer) with fee := 1, inputs := [default] },
    { (default : Transfer) with fee := 2, inputs := [Vector.replicate 32 1] })

/-- A small pool lets in both of them, and knows who spends which input. -/
theorem inputs_disjoint_of_pair :
    ∃ p q : Mempool, new .small (fun _ => default) = .ok p ∧
      q = p.run [.add lenient disjointPair.1 true, .add lenient disjointPair.2 true] ∧
      ∃ e e', q.store.get? disjointPair.1.id = some e ∧ q.store.get? disjointPair.2.id = some e' ∧
        (∀ input ∈ e.tx.inputs, input ∉ e'.tx.inputs) ∧
        q.store.spenders[(default : Digest)]? = some disjointPair.1.id ∧
        q.store.spenders[(Vector.replicate 32 1 : Digest)]? = some disjointPair.2.id := by
  obtain ⟨p, hnew⟩ := exists_new_small
  have hids : disjointPair.1.id ≠ disjointPair.2.id := by decide +kernel
  obtain ⟨hfirst, hsecond⟩ := get?_add_add_of_new (b := lenient) hnew (by decide) rfl rfl (by decide)
    (by decide) hids (by decide) true
  obtain ⟨hdisjoint, hspender⟩ := inputs_disjoint_of_run hnew
    [.add lenient disjointPair.1 true, .add lenient disjointPair.2 true]
  refine ⟨p, _, hnew, rfl, _, _, hfirst, hsecond, hdisjoint _ _ _ _ hfirst hsecond hids, ?_, ?_⟩
  · exact (hspender _ _).mpr ⟨_, hfirst, rfl, List.mem_singleton_self _⟩
  · exact (hspender _ _).mpr ⟨_, hsecond, rfl, List.mem_singleton_self _⟩

end Mempool

end TxRelay
