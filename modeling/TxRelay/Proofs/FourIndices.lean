/-
Four indices, one set of transactions.

Putting a transaction in checks nothing, so whether the indices of a sub-pool agree is up
to those that put in: a newcomer is looked up by its digest first, a nonce that is taken is
freed before it is taken again, and only what is held is taken out. Here this is followed
through everything that is done to a sub-pool: batches with all that can come of each
transaction, resets, seats taken and left. It does not matter for it what the execution
layer answers, who has which account, or which seat is in view when a call begins.

The end is stated of the indices as they are kept, and of nothing else.
-/
import TxRelay.Proofs.NoncePool

set_option autoImplicit false

namespace TxRelay

namespace Holdings

/-! ## One set -/

/-- **The four indices describe one set of transactions** (`AccountPool`). -/
structure OneSet (h : Holdings) : Prop where
  /-- A transaction is filed under its own digest. -/
  hash_eq : ∀ (hash : Digest) (p : Pooled), h.byHash[hash]? = some p → p.hash = hash ∧ p.tx.hash = hash
  /-- A nonce of a sender leads to the transaction of that sender with that nonce, -/
  bySender_iff : ∀ (a : Address) (n : UInt64) (hash : Digest),
    (h.bySender[a]?.bind fun nonces => nonces[n]?) = some hash ↔
      ∃ p, h.byHash[hash]? = some p ∧ p.tx.sender = a ∧ p.tx.nonce = n
  /-- a time of arrival to the one that arrived then, -/
  byArrival_iff : ∀ (seq : Nat) (hash : Digest), h.byArrival[seq]? = some hash ↔
    ∃ p, h.byHash[hash]? = some p ∧ p.seq = seq
  /-- and what may be evicted are those from outside, with what they pay and when they came. -/
  evictable_iff : ∀ key, key ∈ h.evictable ↔
    ∃ (hash : Digest) (p : Pooled), h.byHash[hash]? = some p ∧ p.isLocal = false ∧
      key = ⟨p.tx.gasPrice, p.seq, hash⟩
  /-- No nonce of a sender is taken twice, -/
  nonce_unique : ∀ (hash hash' : Digest) (p p' : Pooled), h.byHash[hash]? = some p →
    h.byHash[hash']? = some p' → p.tx.sender = p'.tx.sender → p.tx.nonce = p'.tx.nonce → hash = hash'
  /-- no two arrived at the same time, -/
  seq_unique : ∀ (hash hash' : Digest) (p p' : Pooled), h.byHash[hash]? = some p →
    h.byHash[hash']? = some p' → p.seq = p'.seq → hash = hash'
  /-- and all of them before what arrives next. -/
  seq_lt : ∀ (hash : Digest) (p : Pooled), h.byHash[hash]? = some p → p.seq < h.nextSeq
  /-- Nobody is listed without a nonce. -/
  busy : ∀ (a : Address) nonces, h.bySender[a]? = some nonces → nonces ≠ ∅

/-- The nonces of a sender that is not listed are none. -/
theorem getElem?_nonces (h : Holdings) (a : Address) (n : UInt64) :
    (h.nonces a)[n]? = h.bySender[a]?.bind fun nonces => nonces[n]? := by
  rw [nonces, Std.ExtTreeMap.getD_eq_getD_getElem?]
  cases h.bySender[a]? with
  | none => simp
  | some nonces => rfl

namespace Coherent

variable {h : Holdings}

theorem oneSet (hc : h.Coherent) : h.OneSet where
  hash_eq _ _ hp := hc.hash_eq hp
  bySender_iff a n hash := by
    rw [← getElem?_nonces]
    constructor
    · exact fun hn => hc.ofNonce hn
    · rintro ⟨p, hp, rfl, rfl⟩
      exact hc.nonce_eq hp
  byArrival_iff _ _ := hc.arrival
  evictable_iff key := by
    rw [hc.evictable]
    constructor
    · rintro ⟨p, hp, hlocal, rfl⟩
      exact ⟨p.hash, p, hp, hlocal, rfl⟩
    · rintro ⟨hash, p, hp, hlocal, rfl⟩
      obtain ⟨rfl, _⟩ := hc.hash_eq hp
      exact ⟨p, hp, hlocal, rfl⟩
  nonce_unique hash hash' p p' hp hp' hsender hnonce := by
    have h₁ := hc.nonce_eq hp
    rw [hsender, hnonce, hc.nonce_eq hp'] at h₁
    exact (Option.some.inj h₁).symm
  seq_unique hash hash' p p' hp hp' hseq := by
    have h₁ := hc.arrival.mpr ⟨p, hp, hseq⟩
    rw [hc.arrival.mpr ⟨p', hp', rfl⟩] at h₁
    exact (Option.some.inj h₁).symm
  seq_lt _ _ hp := hc.seq_lt hp
  busy a nonces ha := by
    have hmem : a ∈ h.bySender := Std.ExtTreeMap.mem_iff_isSome_getElem?.mpr (by rw [ha]; rfl)
    have hnonces : h.nonces a = nonces := by
      rw [Holdings.nonces, Std.ExtTreeMap.getD_eq_getD_getElem?, ha]
      rfl
    rw [← hnonces]
    exact hc.busy hmem

end Coherent

end Holdings

namespace NoncePool

/-! ## What is done to a sub-pool -/

/-- Something done to a sub-pool (`NoncePool`). The execution layer and the table of claimed
accounts may be others each time. -/
inductive Call where
  | attach (seat : Nat) (head : Header)
  | add (b : Backend) (c : Commons) (txs : List Transaction) (isLocal : Bool)
  | reset (b : Backend) (c : Commons) (new : Header)
  | detach (c : Commons)
  /-- A call that is still under way has taken the seat or left it, or goes on with the one
  that it saw when it began. -/
  | seatSeen (seat : Option Nat)

/-- The sub-pool after a call. -/
def call (p : NoncePool) : Call → NoncePool
  | .attach seat head => (p.attach seat head).1
  | .add b c txs isLocal => (p.add b c txs isLocal).1
  | .reset b c new => (p.reset b c new).1
  | .detach c => (p.detach c).1
  | .seatSeen seat => { p with seat }

/-- The sub-pool after several calls. -/
def run (p : NoncePool) (calls : List Call) : NoncePool := calls.foldl call p

section
variable {limits : NonceLimits} {seat : Nat} {b : Backend} {s : Space}

/-- **Letting in one transaction** keeps the indices in step, whatever comes of it. -/
theorem coherent_letIn (hc : s.holdings.Coherent) (tx : Transaction) (isLocal : Bool) :
    (letIn limits seat b s tx isLocal).1.holdings.Coherent := by
  have hl := letIn_letting limits seat b s tx isLocal
  generalize letIn limits seat b s tx isLocal = result at hl ⊢
  cases hl with
  | refused e => exact hc
  | replaced old h hold hprice => exact hc.replace isLocal h.fresh hold
  | crowded claimed e h hnone hcount hclaim hroom =>
    show (claimed.settle seat none tx.sender).holdings.Coherent
    rw [Space.settle_holdings, claimSender_holdings hclaim]
    exact hc
  | entered claimed roomy h hnone hcount hclaim hroom =>
    -- Claiming the account touches no index, and what makes room is taken out of all of them.
    have hsame := claimSender_holdings hclaim
    have hfree := hc.nonce_free hnone
    have hroomy : roomy.holdings.Coherent ∧ roomy.holdings.Within s.holdings := by
      rcases makeRoom_within hroom with rfl | ⟨hash, rfl⟩
      · rw [hsame]
        exact ⟨hc, Holdings.Within.refl s.holdings⟩
      · rw [Space.drop_holdings, hsame]
        exact ⟨hc.remove hash, Holdings.Within.remove s.holdings hash⟩
    obtain ⟨hcr, hw⟩ := hroomy
    exact hcr.insert isLocal (hw.get?_eq_none h.fresh) (hw.nonce_free hcr hc hfree)

theorem coherent_letInAll (hc : s.holdings.Coherent) (isLocal : Bool) (txs : List Transaction) :
    (letInAll limits seat b isLocal s txs).1.holdings.Coherent := by
  induction txs generalizing s with
  | nil => exact hc
  | cons tx rest ih => exact ih (coherent_letIn hc tx isLocal)

end

/-- **Every call** keeps the indices in step. -/
theorem coherent_call {p : NoncePool} (hc : p.holdings.Coherent) (c : Call) :
    (p.call c).holdings.Coherent := by
  cases c with
  | attach seat head =>
    show (p.attach seat head).1.holdings.Coherent
    unfold NoncePool.attach
    split <;> exact hc
  | add b c txs isLocal =>
    show (p.add b c txs isLocal).1.holdings.Coherent
    cases hseat : p.seat with
    | none =>
      rw [add_of_unseated hseat]
      exact hc
    | some seat =>
      rw [add_of_seat hseat]
      exact coherent_letInAll (s := p.space c.reservations) hc isLocal txs
  | reset b c new =>
    show (p.reset b c new).1.holdings.Coherent
    unfold NoncePool.reset
    split
    · exact hc
    · next seat _ =>
      show ((stale b p.holdings).foldl (fun s hash => s.drop seat none hash)
        (p.space c.reservations)).holdings.Coherent
      rw [foldl_drop_holdings]
      exact Holdings.Coherent.foldl_remove (h := p.holdings) hc (stale b p.holdings)
  | detach c =>
    show (p.detach c).1.holdings.Coherent
    unfold NoncePool.detach
    split
    · exact hc
    · exact Holdings.Coherent.clear p.holdings
  | seatSeen seat => exact hc

theorem coherent_run {p : NoncePool} (hc : p.holdings.Coherent) (calls : List Call) :
    (p.run calls).holdings.Coherent := by
  induction calls generalizing p with
  | nil => exact hc
  | cons c rest ih => exact ih (coherent_call hc c)

/-- **The indices of a sub-pool describe one set of transactions**, whatever was done to it
since it was made. -/
theorem oneSet_of_run (name : String) (limits : NonceLimits) (claims : Transaction → Bool)
    (calls : List Call) : ((new name limits claims).run calls).holdings.OneSet :=
  (coherent_run (p := new name limits claims) Holdings.Coherent.empty calls).oneSet

end NoncePool

end TxRelay
