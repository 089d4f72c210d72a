/-
A refused transaction leaves nothing behind.

All refusals but one are decided before anything is touched. Whether there is
room is looked at last, when the account of the newcomer may have been claimed
for it already, and then the claim has to go again, and only if it was made for
the newcomer. That it was is read off from the sender's transactions: whoever
has some had the account before. So the exactness of the return rests on the
claims being in step with what is held.

What is left of a batch is then the batch of what was let in.
-/
import TxRelay.Proofs.Admission
import TxRelay.Proofs.Batch

set_option autoImplicit false

namespace TxRelay

/-- An account that was free is claimed and given up. -/
theorem Reservations.erase_insert {r : Reservations} {a : Address} (hfree : r.owner? a = none)
    (pool : Nat) : { r with owners := (r.owners.insert a pool).erase a } = r := by
  have howners : (r.owners.insert a pool).erase a = r.owners := by
    apply Std.ExtTreeMap.ext_getElem?
    intro b
    rw [Entries.getElem?_erase, Entries.getElem?_insert]
    split
    · next heq => exact (heq ▸ hfree).symm
    · rfl
  rw [howners]

namespace NoncePool

/-! ## One transaction -/

section
variable {limits : NonceLimits} {seat : Nat} {b : Backend} {s : Space} {isLocal : Bool}

/-- **A claim that came to nothing** is undone: what was free is free again, and
what the sub-pool had before it keeps. -/
theorem Space.Tidy.settle_claim (ht : s.Tidy seat none) {sender : Address} {claimed : Space}
    (hclaim : claimSender seat s sender = .ok claimed) : claimed.settle seat none sender = s := by
  have hsame := claimSender_holdings hclaim
  rw [claimSender] at hclaim
  by_cases hzero : s.holdings.senderCount sender = 0
  · -- Nothing is held of the sender, so the account was not the seat's, and the claim was a new one.
    have hne : s.reservations.owner? sender ≠ some seat := by
      intro howner
      rcases (ht.owner_iff sender).mp howner with hheld | hfalse
      · exact (ht.coherent.senderCount_eq_zero_iff sender).mp hzero hheld
      · cases hfalse
    rw [if_pos hzero] at hclaim
    rcases Reservations.acquire_of_ne hne with ⟨hfree, hok⟩ | ⟨owner, _, herr⟩
    · rw [hok] at hclaim
      obtain rfl := Except.ok.inj hclaim
      have howned : ({ s.reservations with
          owners := s.reservations.owners.insert sender seat } : Reservations).owner? sender
            = some seat := by
        rw [Reservations.owner?_insert, if_pos rfl]
      rw [Space.settle, if_pos (by simpa using hzero), Reservations.releaseAll,
        Reservations.release_of_owner howned]
      show Space.mk s.holdings { s.reservations with
        owners := (s.reservations.owners.insert sender seat).erase sender } (s.unreleased ++ []) = s
      rw [Reservations.erase_insert hfree, List.append_nil]
    · rw [herr] at hclaim
      cases hclaim
  · rw [if_neg hzero] at hclaim
    obtain rfl := Except.ok.inj hclaim
    rw [Space.settle, if_neg (by simpa using hzero)]

/-- **A refused transaction leaves the space as it was.** -/
theorem Space.Tidy.letIn_error (ht : s.Tidy seat none) {tx : Transaction} {e : PoolError}
    (he : (NoncePool.letIn limits seat b s tx isLocal).2 = .error e) :
    (NoncePool.letIn limits seat b s tx isLocal).1 = s := by
  have hl := letIn_letting limits seat b s tx isLocal
  generalize NoncePool.letIn limits seat b s tx isLocal = result at hl he ⊢
  cases hl with
  | refused e => rfl
  | replaced old h hold hprice => cases he
  | crowded claimed e h hnone hcount hclaim hroom => exact ht.settle_claim hclaim
  | entered claimed roomy h hnone hcount hclaim hroom => cases he

/-! ## A batch -/

theorem accepted_cons_error (tx : Transaction) (e : PoolError) (rest : List (Transaction × Outcome)) :
    accepted ((tx, .error e) :: rest) = accepted rest := rfl

/-- **What was let in of a batch is let in again without the rest**, and comes
to the same. -/
theorem Space.Tidy.letInAll_accepted (ht : s.Tidy seat none) (limits : NonceLimits) (b : Backend)
    (isLocal : Bool) (txs : List Transaction) :
    NoncePool.letInAll limits seat b isLocal s
        (accepted (NoncePool.letInAll limits seat b isLocal s txs).2)
      = ((NoncePool.letInAll limits seat b isLocal s txs).1,
          (accepted (NoncePool.letInAll limits seat b isLocal s txs).2).map fun tx => (tx, .ok ())) := by
  induction txs generalizing s with
  | nil => rfl
  | cons tx rest ih =>
    have hrest := ih (ht.letIn limits b tx isLocal).1
    rw [NoncePool.letInAll]
    dsimp only
    cases houtcome : (NoncePool.letIn limits seat b s tx isLocal).2 with
    | error e =>
      -- The rest meets the space that it would have met anyway.
      rw [accepted_cons_error]
      rw [ht.letIn_error houtcome] at hrest ⊢
      exact hrest
    | ok _ =>
      rw [accepted_cons_ok, NoncePool.letInAll]
      dsimp only
      rw [hrest, houtcome]
      rfl

theorem accepted_map_ok (txs : List Transaction) :
    accepted (txs.map fun tx => (tx, .ok ())) = txs := by
  rw [accepted, List.filterMap_map]
  exact List.filterMap_some

end

/-! ## A sub-pool at the table -/

section
variable {p : NoncePool} {seat : Nat} {c : Commons}

/-- A transaction that is refused leaves the sub-pool, the table and the bus as
they were. -/
theorem InOrder.add_error (h : p.InOrder seat c.reservations) {b : Backend} {tx : Transaction}
    {isLocal : Bool} {e : PoolError} (he : (p.add b c [tx] isLocal).2.2 = [.error e]) :
    p.add b c [tx] isLocal = (p, c, [.error e]) := by
  rcases h.seated with hseat | ⟨hseat, _⟩
  · rw [add_of_seat hseat] at he ⊢
    have houtcome : (letIn p.limits seat b (p.space c.reservations) tx isLocal).2 = .error e :=
      List.head_eq_of_cons_eq he
    have hresult : letInAll p.limits seat b isLocal (p.space c.reservations) [tx]
        = (p.space c.reservations, [(tx, .error e)]) := by
      simp only [letInAll]
      rw [houtcome, h.tidy.letIn_error houtcome]
    rw [hresult]
    rfl
  · rw [add_of_unseated hseat] at he ⊢
    dsimp only at he
    rw [he]

/-- **What was let in of a batch could have come alone**: the sub-pool, the
table and the bus come out the same, and nothing is refused. -/
theorem InOrder.add_accepted (h : p.InOrder seat c.reservations) (b : Backend)
    (txs : List Transaction) (isLocal : Bool) :
    p.add b c (accepted (txs.zip (p.add b c txs isLocal).2.2)) isLocal
      = ((p.add b c txs isLocal).1, (p.add b c txs isLocal).2.1,
          (accepted (txs.zip (p.add b c txs isLocal).2.2)).map fun _ => .ok ()) := by
  rcases h.seated with hseat | ⟨hseat, _⟩
  · rw [add_of_seat hseat, add_of_seat hseat]
    have hall := h.tidy.letInAll_accepted p.limits b isLocal txs
    have hfst := map_fst_letInAll p.limits seat b isLocal (p.space c.reservations) txs
    generalize letInAll p.limits seat b isLocal (p.space c.reservations) txs = result at hall hfst ⊢
    have hzip : txs.zip (p.concluded c isLocal result).2.2 = result.2 := zip_map_snd hfst
    rw [hzip, hall, concluded, accepted_map_ok, List.map_map]
    rfl
  · rw [add_of_unseated hseat, add_of_unseated hseat]
    dsimp only
    rw [accepted_refused]
    rfl

end

end NoncePool

namespace Coordinator

open NoncePool (accepted)

/-- **A refused transaction leaves no trace.** Whatever happened to a
coordinator of new sub-pools, a transaction that one of them refuses leaves the
sub-pool, with all its indices and the next time of arrival, the table of
claimed accounts, with the count of anomalies, and the bus as they were. So a
batch comes to the same, for all of them, as what was let in of it. -/
theorem add_refused_of_run (head : Header)
    (specs : List (String × NonceLimits × (Transaction → Bool))) :
    ∃ c₀ : Coordinator NoncePool, start head (freshPools specs) = .running c₀ ∧
      ∀ (actions : List Action) (i : Nat) (p : NoncePool), (c₀.run actions).pools[i]? = some p →
        ∀ (b : Backend) (isLocal : Bool),
          (∀ (tx : Transaction) (e : PoolError),
            (p.add b (c₀.run actions).commons [tx] isLocal).2.2 = [.error e] →
              p.add b (c₀.run actions).commons [tx] isLocal
                = (p, (c₀.run actions).commons, [.error e])) ∧
          ∀ txs kept : List Transaction,
            kept = accepted (txs.zip (p.add b (c₀.run actions).commons txs isLocal).2.2) →
              p.add b (c₀.run actions).commons kept isLocal
                = ((p.add b (c₀.run actions).commons txs isLocal).1,
                    (p.add b (c₀.run actions).commons txs isLocal).2.1, kept.map fun _ => .ok ()) := by
  obtain ⟨c₀, hstart, horderly, _⟩ := start_freshPools head specs
  refine ⟨c₀, hstart, fun actions i p hp b isLocal => ?_⟩
  have hin := (horderly.run actions).in_order i p hp
  refine ⟨fun tx e he => hin.add_error he, fun txs kept hkept => ?_⟩
  rw [hkept]
  exact hin.add_accepted b txs isLocal

/-- A sub-pool without room for anything claims the account of the first
transaction that it is offered, and gives it up again. -/
theorem add_refused_of_no_room :
    ∃ (c₀ : Coordinator NoncePool) (p : NoncePool),
      start default (freshPools [("", ⟨0, 4, 10⟩, fun _ => true)]) = .running c₀ ∧
        c₀.pools[0]? = some p ∧
        p.add ⟨fun _ => .ok (), fun _ => 0⟩ c₀.commons [default] false
          = (p, c₀.commons, [.error .full]) := by
  obtain ⟨c₀, hstart, h⟩ := add_refused_of_run default [("", ⟨0, 4, 10⟩, fun _ => true)]
  cases hstart
  refine ⟨_, _, rfl, rfl, (h [] 0 _ rfl ⟨fun _ => .ok (), fun _ => 0⟩ false).1 default .full ?_⟩
  rw [NoncePool.add_of_seat rfl]
  simp [run, NoncePool.concluded, NoncePool.letInAll, NoncePool.letIn, NoncePool.claimSender,
    NoncePool.makeRoom, NoncePool.victim?, NoncePool.space, NoncePool.new, Holdings.contains_eq_isSome,
    Holdings.atNonce?, Holdings.get?, Holdings.senderCount, Holdings.nonces, Holdings.size,
    Holdings.cheapest?, Holdings.empty, Reservations.acquire, Reservations.owner?, Reservations.new]

end Coordinator

end TxRelay
