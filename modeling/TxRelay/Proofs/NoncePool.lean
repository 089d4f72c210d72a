/-
What a sub-pool does to its transactions and to the table of claimed accounts.

While a newcomer is let in there is a moment when its account is claimed and
its transaction is not there yet, and in that moment another transaction may
have to go. So the invariant has a parameter: the account that is claimed
without a transaction to show for it. Claiming sets it, giving up and putting
in clear it, and dropping keeps it.
-/
import TxRelay.Pool.NoncePool
import TxRelay.Proofs.Holdings
import TxRelay.Proofs.Reservations

set_option autoImplicit false

namespace TxRelay

namespace NoncePool

/-! ## What letting in can come to -/

/-- A transaction is new, acceptable and not behind its sender (`NoncePool::add_one`). -/
structure Admissible (b : Backend) (s : Space) (tx : Transaction) : Prop where
  fresh : s.holdings.get? tx.hash = none
  valid : b.validate tx = .ok ()
  ahead : ¬tx.nonce < b.nonce tx.sender

/-- **What letting in one transaction can come to** (`NoncePool::add_one`). -/
inductive Letting (limits : NonceLimits) (seat : Nat) (b : Backend) (s : Space) (tx : Transaction)
    (isLocal : Bool) : Space × Outcome → Prop where
  /-- It is refused, and nothing was touched. -/
  | refused (e : PoolError) : Letting limits seat b s tx isLocal (s, .error e)
  /-- It takes the place of a transaction that it outbids. -/
  | replaced (old : Pooled) (h : Admissible b s tx)
      (hold : s.holdings.atNonce? tx.sender tx.nonce = some old)
      (hprice : ¬tx.gasPrice < replacementPrice old.tx.gasPrice limits.priceBump) :
      Letting limits seat b s tx isLocal
        ({ s with holdings := (s.holdings.remove old.hash).1.insert tx isLocal }, .ok ())
  /-- Its account was claimed for it, and there is no room. -/
  | crowded (claimed : Space) (e : PoolError) (h : Admissible b s tx)
      (hnone : s.holdings.atNonce? tx.sender tx.nonce = none)
      (hcount : s.holdings.senderCount tx.sender < limits.maxPerAccount)
      (hclaim : claimSender seat s tx.sender = .ok claimed)
      (hroom : makeRoom limits seat claimed tx isLocal = .error e) :
      Letting limits seat b s tx isLocal (claimed.settle seat none tx.sender, .error e)
  /-- Its account is claimed and there is room for it. -/
  | entered (claimed roomy : Space) (h : Admissible b s tx)
      (hnone : s.holdings.atNonce? tx.sender tx.nonce = none)
      (hcount : s.holdings.senderCount tx.sender < limits.maxPerAccount)
      (hclaim : claimSender seat s tx.sender = .ok claimed)
      (hroom : makeRoom limits seat claimed tx isLocal = .ok roomy) :
      Letting limits seat b s tx isLocal
        ({ roomy with holdings := roomy.holdings.insert tx isLocal }, .ok ())

theorem letIn_letting (limits : NonceLimits) (seat : Nat) (b : Backend) (s : Space)
    (tx : Transaction) (isLocal : Bool) :
    Letting limits seat b s tx isLocal (letIn limits seat b s tx isLocal) := by
  -- The causes of a refusal, in the order in which they are looked for.
  rw [letIn]
  split
  · exact .refused _
  next hcontains =>
  have hfresh : s.holdings.get? tx.hash = none := by
    rw [Holdings.contains_eq_isSome] at hcontains
    exact Option.not_isSome_iff_eq_none.mp hcontains
  split
  · exact .refused _
  next hvalid =>
  split
  · exact .refused _
  next hahead =>
  have h : Admissible b s tx := ⟨hfresh, hvalid, hahead⟩
  split
  · next old hold =>
    split
    · exact .refused _
    · next hprice => exact .replaced old h hold hprice
  next hnone =>
  split
  · exact .refused _
  next hcount =>
  have hcount := Nat.lt_of_not_le hcount
  split
  · exact .refused _
  next claimed hclaim =>
  split
  · next e hroom => exact .crowded claimed e h hnone hcount hclaim hroom
  · next roomy hroom => exact .entered claimed roomy h hnone hcount hclaim hroom

/-! ## Accounts are claimed for as long as something of them is held -/

open Reservations (AgreeOn)

/-- **The accounts of a seat are those of whom something is held**, and one
more if it is claimed for a newcomer. Nothing failed to be given up. -/
structure Space.Tidy (seat : Nat) (claimed : Option Address) (s : Space) : Prop where
  coherent : s.holdings.Coherent
  /-- An account is the seat's own exactly if it has something to show for it. -/
  owner_iff : ∀ a, s.reservations.owner? a = some seat ↔ s.holdings.HoldsFrom a ∨ claimed = some a
  unreleased : s.unreleased = []

@[simp] theorem Space.settle_holdings (s : Space) (seat : Nat) (keep : Option Address)
    (sender : Address) : (s.settle seat keep sender).holdings = s.holdings := by
  rw [Space.settle]
  split <;> rfl

theorem claimSender_holdings {seat : Nat} {s claimed : Space} {sender : Address}
    (hclaim : claimSender seat s sender = .ok claimed) : claimed.holdings = s.holdings := by
  rw [claimSender] at hclaim
  split at hclaim
  · split at hclaim
    · rw [← Except.ok.inj hclaim]
    · cases hclaim
  · rw [← Except.ok.inj hclaim]

namespace Space.Tidy

variable {s : Space} {seat : Nat}

/-- An account of which nothing may be held is settled: afterwards the accounts
of the seat are again those of whom something is held. -/
theorem of_settle {keep : Option Address} {sender : Address} (hc : s.holdings.Coherent)
    (howner : ∀ a, s.reservations.owner? a = some seat ↔
      s.holdings.HoldsFrom a ∨ keep = some a ∨ sender = a)
    (hun : s.unreleased = []) :
    (s.settle seat keep sender).Tidy seat keep ∧
      AgreeOn (· ≠ seat) s.reservations (s.settle seat keep sender).reservations := by
  rw [Space.settle]
  -- The account is given up if nothing is held of it, unless it is the one to keep.
  by_cases hgive : s.holdings.senderCount sender = 0 ∧ keep ≠ some sender
  · have hcond : (s.holdings.senderCount sender = 0 && keep != some sender) = true := by
      simpa using hgive
    rw [if_pos hcond]
    have hnone := (hc.senderCount_eq_zero_iff sender).mp hgive.1
    have hown : ∀ a ∈ [sender], s.reservations.owner? a = some seat := by
      intro a ha
      exact (howner a).mpr (Or.inr (Or.inr (List.mem_singleton.mp ha).symm))
    obtain ⟨herrors, howners, hagree⟩ :=
      Reservations.releaseAll_of_owner (by simp) hown
    refine ⟨⟨hc, fun a => ?_, ?_⟩, hagree⟩
    · show (s.reservations.releaseAll seat [sender]).1.owner? a = some seat ↔ _
      rw [howners a]
      by_cases hsender : sender = a
      · subst hsender
        simp [hnone, hgive.2]
      · rw [if_neg (by simpa using Ne.symm hsender), howner a]
        simp [hsender]
    · show s.unreleased ++ (s.reservations.releaseAll seat [sender]).2 = []
      rw [hun, herrors, List.append_nil]
  · have hcond : ¬(s.holdings.senderCount sender = 0 && keep != some sender) = true := by
      simpa using hgive
    rw [if_neg hcond]
    refine ⟨⟨hc, fun a => ?_, hun⟩, AgreeOn.refl _ _⟩
    rw [howner a]
    -- The account stays for a reason: it is the one to keep, or something of it is held.
    have hkept : sender = a → s.holdings.HoldsFrom a ∨ keep = some a := by
      rintro rfl
      by_cases hzero : s.holdings.senderCount sender = 0
      · exact Or.inr (Classical.not_not.mp fun hne => hgive ⟨hzero, hne⟩)
      · exact Or.inl (Classical.not_not.mp fun hn =>
          hzero ((hc.senderCount_eq_zero_iff sender).mpr hn))
    constructor
    · rintro (hheld | hkeep | hsender)
      · exact Or.inl hheld
      · exact Or.inr hkeep
      · exact hkept hsender
    · rintro (hheld | hkeep)
      · exact Or.inl hheld
      · exact Or.inr (Or.inl hkeep)

/-- An account that was claimed for a newcomer is given up again if the
newcomer does not stay. -/
theorem settle {sender : Address} (ht : s.Tidy seat (some sender)) :
    (s.settle seat none sender).Tidy seat none ∧
      AgreeOn (· ≠ seat) s.reservations (s.settle seat none sender).reservations := by
  refine of_settle ht.coherent (fun a => ?_) ht.unreleased
  rw [ht.owner_iff a]
  simp

/-- **Dropping** a transaction keeps what is claimed for a newcomer. -/
theorem drop {keep : Option Address} (ht : s.Tidy seat keep) (hash : Digest) :
    (s.drop seat keep hash).Tidy seat keep ∧
      AgreeOn (· ≠ seat) s.reservations (s.drop seat keep hash).reservations := by
  rw [Space.drop]
  cases hp : s.holdings.get? hash with
  | none =>
    rw [Holdings.remove, hp]
    exact ⟨ht, AgreeOn.refl _ _⟩
  | some p =>
    rw [Holdings.remove_of_some hp]
    have hph : s.holdings.get? p.hash = some p := by rw [(ht.coherent.hash_eq hp).1, hp]
    -- The sender of what goes may have something left, which is what settling finds out.
    refine of_settle (ht.coherent.without hph) (fun a => ?_) ht.unreleased
    rw [ht.owner_iff a]
    constructor
    · rintro (hheld | hkeep)
      · by_cases hsender : p.tx.sender = a
        · exact Or.inr (Or.inr hsender)
        · exact Or.inl (hheld.without hph hsender)
      · exact Or.inr (Or.inl hkeep)
    · rintro (hheld | hkeep | hsender)
      · exact Or.inl hheld.of_without
      · exact Or.inr hkeep
      · exact Or.inl ⟨hash, p, hp, hsender⟩

/-- **Claiming** the sender of a newcomer. -/
theorem claim {sender : Address} {claimed : Space} (ht : s.Tidy seat none)
    (hclaim : claimSender seat s sender = .ok claimed) :
    claimed.Tidy seat (some sender) ∧
      AgreeOn (· ≠ seat) s.reservations claimed.reservations := by
  rw [claimSender] at hclaim
  -- A sender of whom something is held is claimed already.
  by_cases hzero : s.holdings.senderCount sender = 0
  · rw [if_pos hzero] at hclaim
    have hnone := (ht.coherent.senderCount_eq_zero_iff sender).mp hzero
    have hne : s.reservations.owner? sender ≠ some seat := by
      intro howner
      rcases (ht.owner_iff sender).mp howner with hheld | hfalse
      · exact hnone hheld
      · cases hfalse
    rcases Reservations.acquire_of_ne hne with ⟨hfree, hok⟩ | ⟨owner, _, herr⟩
    · rw [hok] at hclaim
      rw [← Except.ok.inj hclaim]
      refine ⟨⟨ht.coherent, fun a => ?_, ht.unreleased⟩, Reservations.agreeOn_insert hfree⟩
      rw [Reservations.owner?_insert]
      by_cases hsender : sender = a
      · simp [hsender]
      · rw [if_neg hsender, ht.owner_iff a]
        simp [hsender]
    · rw [herr] at hclaim
      cases hclaim
  · rw [if_neg hzero] at hclaim
    rw [← Except.ok.inj hclaim]
    have hheld : s.holdings.HoldsFrom sender :=
      Classical.not_not.mp fun hn => hzero ((ht.coherent.senderCount_eq_zero_iff sender).mpr hn)
    refine ⟨⟨ht.coherent, fun a => ?_, ht.unreleased⟩, AgreeOn.refl _ _⟩
    rw [ht.owner_iff a]
    constructor
    · rintro (h | h)
      · exact Or.inl h
      · cases h
    · rintro (h | h)
      · exact Or.inl h
      · rw [← Option.some.inj h]
        exact Or.inl hheld

/-- **Putting in** a newcomer whose account is claimed. -/
theorem insert {tx : Transaction} (ht : s.Tidy seat (some tx.sender)) (isLocal : Bool)
    (hnew : s.holdings.get? tx.hash = none) (hfree : (s.holdings.nonces tx.sender)[tx.nonce]? = none) :
    ({ s with holdings := s.holdings.insert tx isLocal } : Space).Tidy seat none := by
  refine ⟨ht.coherent.insert isLocal hnew hfree, fun a => ?_, ht.unreleased⟩
  rw [Holdings.holdsFrom_insert hnew]
  simpa using ht.owner_iff a

end Space.Tidy

@[simp] theorem Space.drop_holdings (s : Space) (seat : Nat) (keep : Option Address)
    (hash : Digest) : (s.drop seat keep hash).holdings = (s.holdings.remove hash).1 := by
  rw [Space.drop]
  cases hp : s.holdings.get? hash with
  | none => rw [Holdings.remove, hp]
  | some p => rw [Holdings.remove_of_some hp, Space.settle_holdings]

theorem Space.drop_within (s : Space) (seat : Nat) (keep : Option Address) (hash : Digest) :
    (s.drop seat keep hash).holdings.Within s.holdings := by
  rw [Space.drop_holdings]
  exact Holdings.Within.remove s.holdings hash

/-- Making room takes at most something out. -/
theorem makeRoom_within {limits : NonceLimits} {seat : Nat} {s roomy : Space} {tx : Transaction}
    {isLocal : Bool} (hroom : makeRoom limits seat s tx isLocal = .ok roomy) :
    roomy = s ∨ ∃ hash, roomy = s.drop seat (some tx.sender) hash := by
  rw [makeRoom] at hroom
  split at hroom
  · exact Or.inl (Except.ok.inj hroom).symm
  · split at hroom
    · next hash _ => exact Or.inr ⟨hash, (Except.ok.inj hroom).symm⟩
    · cases hroom

/-! ## Letting in -/

section
variable {seat : Nat} {s : Space}

/-- Taking the place of a transaction changes neither its sender nor anything
about accounts. -/
theorem Space.Tidy.replace (ht : s.Tidy seat none) {tx : Transaction} {old : Pooled}
    (isLocal : Bool) (hnew : s.holdings.get? tx.hash = none)
    (hold : s.holdings.atNonce? tx.sender tx.nonce = some old) :
    ({ s with holdings := (s.holdings.remove old.hash).1.insert tx isLocal } : Space).Tidy seat none := by
  obtain ⟨hget, hsender, _⟩ := ht.coherent.of_atNonce? hold
  have hnew' := (Holdings.Within.remove s.holdings old.hash).get?_eq_none hnew
  refine ⟨ht.coherent.replace isLocal hnew hold, fun a => ?_, ht.unreleased⟩
  rw [Holdings.holdsFrom_insert hnew', Holdings.remove_of_some hget, ht.owner_iff a]
  constructor
  · rintro (hheld | hfalse)
    · by_cases ha : old.tx.sender = a
      · exact Or.inl (Or.inr (hsender.symm.trans ha))
      · exact Or.inl (Or.inl (hheld.without hget ha))
    · cases hfalse
  · rintro ((hheld | ha) | hfalse)
    · exact Or.inl hheld.of_without
    · exact Or.inl ⟨old.hash, old, hget, hsender.trans ha⟩
    · cases hfalse

/-- **Letting in one transaction** keeps the accounts of the seat in step with
what is held, and leaves the other seats alone. -/
theorem Space.Tidy.letIn (ht : s.Tidy seat none) (limits : NonceLimits) (b : Backend)
    (tx : Transaction) (isLocal : Bool) :
    (letIn limits seat b s tx isLocal).1.Tidy seat none ∧
      AgreeOn (· ≠ seat) s.reservations (letIn limits seat b s tx isLocal).1.reservations := by
  have hl := letIn_letting limits seat b s tx isLocal
  generalize NoncePool.letIn limits seat b s tx isLocal = result at hl ⊢
  cases hl with
  | refused e => exact ⟨ht, AgreeOn.refl _ _⟩
  | replaced old h hold hprice => exact ⟨ht.replace isLocal h.fresh hold, AgreeOn.refl _ _⟩
  | crowded claimed e h hnone hcount hclaim hroom =>
    obtain ⟨htc, hagree⟩ := ht.claim hclaim
    exact ⟨htc.settle.1, hagree.trans htc.settle.2⟩
  | entered claimed roomy h hnone hcount hclaim hroom =>
    have hsame := claimSender_holdings hclaim
    obtain ⟨htc, hagree⟩ := ht.claim hclaim
    have hnew : claimed.holdings.get? tx.hash = none := by rw [hsame, h.fresh]
    have hfree : (claimed.holdings.nonces tx.sender)[tx.nonce]? = none := by
      rw [hsame]
      exact ht.coherent.nonce_free hnone
    -- What makes room may be the last transaction of the newcomer's own sender; the claim stays.
    rcases makeRoom_within hroom with rfl | ⟨hash, rfl⟩
    · exact ⟨htc.insert isLocal hnew hfree, hagree⟩
    · have hw := claimed.drop_within seat (some tx.sender) hash
      obtain ⟨htd, hagree'⟩ := htc.drop hash
      exact ⟨htd.insert isLocal (hw.get?_eq_none hnew) (hw.nonce_free htd.coherent htc.coherent hfree),
        hagree.trans hagree'⟩

/-- A batch is let in one transaction after the other. -/
theorem Space.Tidy.letInAll (ht : s.Tidy seat none) (limits : NonceLimits) (b : Backend)
    (isLocal : Bool) (txs : List Transaction) :
    (letInAll limits seat b isLocal s txs).1.Tidy seat none ∧
      AgreeOn (· ≠ seat) s.reservations (letInAll limits seat b isLocal s txs).1.reservations := by
  induction txs generalizing s with
  | nil => exact ⟨ht, AgreeOn.refl _ _⟩
  | cons tx rest ih =>
    obtain ⟨ht₁, hagree₁⟩ := ht.letIn limits b tx isLocal
    obtain ⟨ht₂, hagree₂⟩ := ih ht₁
    exact ⟨ht₂, hagree₁.trans hagree₂⟩

/-- Dropping transactions one after the other. -/
theorem Space.Tidy.dropAll (ht : s.Tidy seat none) (hashes : List Digest) :
    (hashes.foldl (fun s hash => s.drop seat none hash) s).Tidy seat none ∧
      AgreeOn (· ≠ seat) s.reservations
        (hashes.foldl (fun s hash => s.drop seat none hash) s).reservations := by
  induction hashes generalizing s with
  | nil => exact ⟨ht, AgreeOn.refl _ _⟩
  | cons hash rest ih =>
    obtain ⟨ht₁, hagree₁⟩ := ht.drop hash
    obtain ⟨ht₂, hagree₂⟩ := ih ht₁
    exact ⟨ht₂, hagree₁.trans hagree₂⟩

end

/-! ## A batch -/

section
variable {p : NoncePool} {seat : Nat}

/-- What a sub-pool comes to and returns once a batch was let in. -/
def concluded (p : NoncePool) (c : Commons) (isLocal : Bool)
    (result : Space × List (Transaction × Outcome)) : NoncePool × Commons × List Outcome :=
  (p.settled result.1,
    ⟨result.1.reservations,
      if (accepted result.2).isEmpty then c.bus
      else (c.bus.publish (.transactions (accepted result.2) isLocal)).1⟩,
    result.2.map Prod.snd)

theorem add_of_seat (hseat : p.seat = some seat) (b : Backend) (c : Commons) (txs : List Transaction)
    (isLocal : Bool) :
    p.add b c txs isLocal
      = p.concluded c isLocal (letInAll p.limits seat b isLocal (p.space c.reservations) txs) := by
  rw [NoncePool.add, hseat]
  rfl

theorem add_of_unseated (hseat : p.seat = none) (b : Backend) (c : Commons) (txs : List Transaction)
    (isLocal : Bool) : p.add b c txs isLocal = (p, c, txs.map fun _ => .error .closed) := by
  rw [NoncePool.add, hseat]

/-- **A transaction that is held already** changes nothing. -/
theorem add_of_known (hseat : p.seat = some seat) {tx : Transaction} {q : Pooled}
    (hheld : p.holdings.get? tx.hash = some q) (b : Backend) (c : Commons) (isLocal : Bool) :
    p.add b c [tx] isLocal = (p, c, [.error .alreadyKnown]) := by
  have hcontains : (p.space c.reservations).holdings.contains tx.hash = true := by
    rw [Holdings.contains_eq_isSome]
    exact Option.isSome_iff_exists.mpr ⟨q, hheld⟩
  rw [add_of_seat hseat]
  simp only [letInAll, letIn, if_pos hcontains]
  rfl

end

/-! ## What is held -/

section
variable {Q : Transaction → Prop} {limits : NonceLimits} {seat : Nat} {b : Backend}

/-- **What is let in is acceptable** and not behind its sender: whatever is true
of such a transaction and of all that is held stays true of all that is held. -/
theorem all_letIn {s : Space} (ha : s.holdings.All Q) {tx : Transaction}
    (hQ : b.validate tx = .ok () → ¬tx.nonce < b.nonce tx.sender → Q tx) (isLocal : Bool) :
    (letIn limits seat b s tx isLocal).1.holdings.All Q := by
  have hl := letIn_letting limits seat b s tx isLocal
  generalize letIn limits seat b s tx isLocal = result at hl ⊢
  cases hl with
  | refused e => exact ha
  | replaced old h hold hprice =>
    exact ((Holdings.Within.remove s.holdings old.hash).all ha).insert (hQ h.valid h.ahead) isLocal
  | crowded claimed e h hnone hcount hclaim hroom =>
    show (claimed.settle seat none tx.sender).holdings.All Q
    rw [Space.settle_holdings, claimSender_holdings hclaim]
    exact ha
  | entered claimed roomy h hnone hcount hclaim hroom =>
    have hac : claimed.holdings.All Q := by
      rw [claimSender_holdings hclaim]
      exact ha
    have hroomy : roomy.holdings.All Q := by
      rcases makeRoom_within hroom with rfl | ⟨hash, rfl⟩
      · exact hac
      · exact (claimed.drop_within seat (some tx.sender) hash).all hac
    exact hroomy.insert (hQ h.valid h.ahead) isLocal

theorem all_letInAll {s : Space} (ha : s.holdings.All Q) {txs : List Transaction}
    (hQ : ∀ tx ∈ txs, b.validate tx = .ok () → ¬tx.nonce < b.nonce tx.sender → Q tx)
    (isLocal : Bool) : (letInAll limits seat b isLocal s txs).1.holdings.All Q := by
  induction txs generalizing s with
  | nil => exact ha
  | cons tx rest ih =>
    exact ih (all_letIn ha (hQ tx List.mem_cons_self) isLocal)
      fun tx' htx' => hQ tx' (List.mem_cons_of_mem tx htx')

theorem all_add {p : NoncePool} (ha : p.holdings.All Q) {txs : List Transaction}
    (hQ : ∀ tx ∈ txs, b.validate tx = .ok () → ¬tx.nonce < b.nonce tx.sender → Q tx) (c : Commons)
    (isLocal : Bool) : (p.add b c txs isLocal).1.holdings.All Q := by
  rw [NoncePool.add]
  split
  · exact ha
  · exact all_letInAll (s := p.space c.reservations) ha hQ isLocal

/-- Dropping transactions one after the other takes them out. -/
theorem foldl_drop_holdings (s : Space) (hashes : List Digest) :
    (hashes.foldl (fun s hash => s.drop seat none hash) s).holdings
      = hashes.foldl (fun h hash => (h.remove hash).1) s.holdings := by
  induction hashes generalizing s with
  | nil => rfl
  | cons hash rest ih =>
    rw [List.foldl_cons, List.foldl_cons, ih, Space.drop_holdings]

theorem mem_stale {h : Holdings} (hc : h.Coherent) {hash : Digest} :
    hash ∈ stale b h ↔
      ∃ p, h.get? hash = some p ∧ isStale b (b.nonce p.tx.sender) p.tx = true := by
  rw [stale, List.mem_flatMap]
  constructor
  · rintro ⟨sender, _, hmem⟩
    obtain ⟨p, hp, rfl⟩ := List.mem_map.mp hmem
    obtain ⟨hof, hstale⟩ := List.mem_filter.mp hp
    obtain ⟨hget, rfl⟩ := (Holdings.mem_ofSender hc).mp hof
    exact ⟨p, hget, hstale⟩
  · rintro ⟨p, hget, hstale⟩
    have hhash := (hc.hash_eq hget).1
    refine ⟨p.tx.sender, (hc.mem_senders_iff _).mpr ⟨hash, p, hget, rfl⟩, List.mem_map.mpr ?_⟩
    refine ⟨p, List.mem_filter.mpr ⟨(Holdings.mem_ofSender hc).mpr ⟨?_, rfl⟩, hstale⟩, hhash⟩
    rw [hhash, hget]

theorem isStale_eq_false_iff {next : UInt64} {tx : Transaction} :
    isStale b next tx = false ↔ b.validate tx = .ok () ∧ ¬tx.nonce < next := by
  rw [isStale, Bool.or_eq_false_iff, decide_eq_false_iff_not, Bool.not_eq_false', and_comm]
  refine and_congr_left fun _ => ?_
  cases b.validate tx with
  | ok _ => exact ⟨fun _ => rfl, fun _ => rfl⟩
  | error reason => exact ⟨nofun, nofun⟩

/-- **After a reset** a transaction is held if it was held before, is acceptable
and not behind its sender. -/
theorem get?_reset_iff {p : NoncePool} (hc : p.holdings.Coherent) (hseat : p.seat = some seat)
    {c : Commons} {new : Header} {hash : Digest} {q : Pooled} :
    (p.reset b c new).1.holdings.get? hash = some q ↔
      p.holdings.get? hash = some q ∧ b.validate q.tx = .ok () ∧
        ¬q.tx.nonce < b.nonce q.tx.sender := by
  have hafter : (p.reset b c new).1.holdings.get? hash
      = if hash ∈ stale b p.holdings then none else p.holdings.get? hash := by
    rw [NoncePool.reset, hseat]
    show ((stale b p.holdings).foldl (fun s hash => s.drop seat none hash)
      (p.space c.reservations)).holdings.get? hash = _
    rw [foldl_drop_holdings]
    exact hc.get?_foldl_remove _ _
  rw [hafter, ← isStale_eq_false_iff]
  constructor
  · intro hq
    split at hq
    · cases hq
    · next hnot =>
      exact ⟨hq, Bool.eq_false_iff.mpr fun hstale => hnot ((mem_stale hc).mpr ⟨q, hq, hstale⟩)⟩
  · rintro ⟨hq, hfresh⟩
    rw [if_neg, hq]
    intro hmem
    obtain ⟨q', hq', hstale⟩ := (mem_stale hc).mp hmem
    rw [hq] at hq'
    rw [← Option.some.inj hq', hfresh] at hstale
    cases hstale

end

end NoncePool

end TxRelay
