/-
Who changes what in the table of claimed accounts.

Claiming and giving up touch one account and one seat. What a sub-pool does on
its seat therefore leaves the accounts of all other seats alone, and as long as
it never claims what it has, it leaves the count of anomalies alone as well.
-/
import TxRelay.Pool.Reservations
import TxRelay.Proofs.Entries

set_option autoImplicit false

namespace TxRelay

namespace Reservations

/-- **Two tables agree on some seats**: the same accounts on each of them, and
nobody claimed what it had in between. -/
structure AgreeOn (seats : Nat → Prop) (r r' : Reservations) : Prop where
  owner_iff : ∀ a i, seats i → (r'.owner? a = some i ↔ r.owner? a = some i)
  anomalies_eq : r'.anomalies = r.anomalies

namespace AgreeOn

variable {seats others : Nat → Prop} {r₁ r₂ r₃ : Reservations}

theorem refl (seats : Nat → Prop) (r : Reservations) : AgreeOn seats r r := ⟨fun _ _ _ => Iff.rfl, rfl⟩

theorem trans (h₁ : AgreeOn seats r₁ r₂) (h₂ : AgreeOn seats r₂ r₃) : AgreeOn seats r₁ r₃ :=
  ⟨fun a i hi => (h₂.owner_iff a i hi).trans (h₁.owner_iff a i hi),
    h₂.anomalies_eq.trans h₁.anomalies_eq⟩

theorem mono (h : AgreeOn seats r₁ r₂) (hsub : ∀ i, others i → seats i) : AgreeOn others r₁ r₂ :=
  ⟨fun a i hi => h.owner_iff a i (hsub i hi), h.anomalies_eq⟩

end AgreeOn

/-! ## Claiming -/

/-- A sub-pool that claims an account that it does not have gets it if nobody
has it, and else nothing changes. -/
theorem acquire_of_ne {r : Reservations} {pool : Nat} {a : Address} (hne : r.owner? a ≠ some pool) :
    (r.owner? a = none ∧ r.acquire pool a = .ok { r with owners := r.owners.insert a pool }) ∨
      ∃ owner, r.owner? a = some owner ∧ r.acquire pool a = .error (.alreadyReserved a owner) := by
  rw [acquire]
  cases howner : r.owner? a with
  | none => exact Or.inl ⟨rfl, rfl⟩
  | some owner =>
    have hother : owner ≠ pool := fun heq => hne (by rw [howner, heq])
    exact Or.inr ⟨owner, rfl, if_neg hother⟩

theorem owner?_insert (r : Reservations) (pool : Nat) (a b : Address) :
    ({ r with owners := r.owners.insert a pool } : Reservations).owner? b
      = if a = b then some pool else r.owner? b :=
  Entries.getElem?_insert r.owners a b pool

/-- A claim on a free account leaves the other seats alone. -/
theorem agreeOn_insert {r : Reservations} {pool : Nat} {a : Address} (hfree : r.owner? a = none) :
    AgreeOn (· ≠ pool) r { r with owners := r.owners.insert a pool } := by
  refine ⟨fun b i hi => ?_, rfl⟩
  rw [owner?_insert]
  split
  · next heq =>
    rw [← heq, hfree]
    simp [Ne.symm hi]
  · exact Iff.rfl

/-! ## Giving up -/

/-- A sub-pool gives up what it has. -/
theorem release_of_owner {r : Reservations} {pool : Nat} {a : Address}
    (howner : r.owner? a = some pool) :
    r.release pool a = .ok { r with owners := r.owners.erase a } := by
  rw [release, howner]
  exact if_pos rfl

theorem owner?_erase (r : Reservations) (a b : Address) :
    ({ r with owners := r.owners.erase a } : Reservations).owner? b
      = if a = b then none else r.owner? b :=
  Entries.getElem?_erase r.owners a b

/-- Giving up an account leaves the other seats alone. -/
theorem agreeOn_erase {r : Reservations} {pool : Nat} {a : Address}
    (howner : r.owner? a = some pool) :
    AgreeOn (· ≠ pool) r { r with owners := r.owners.erase a } := by
  refine ⟨fun b i hi => ?_, rfl⟩
  rw [owner?_erase]
  split
  · next heq =>
    rw [← heq, howner]
    simp [Ne.symm hi]
  · exact Iff.rfl

/-- **Giving up several accounts** that a sub-pool has, each named once: none
is refused, they are free, and everything else is as it was. -/
theorem releaseAll_of_owner {r : Reservations} {pool : Nat} {accounts : List Address}
    (hnodup : accounts.Nodup) (howner : ∀ a ∈ accounts, r.owner? a = some pool) :
    (r.releaseAll pool accounts).2 = [] ∧
      (∀ b, (r.releaseAll pool accounts).1.owner? b = if b ∈ accounts then none else r.owner? b) ∧
      AgreeOn (· ≠ pool) r (r.releaseAll pool accounts).1 := by
  induction accounts generalizing r with
  | nil => exact ⟨rfl, fun b => by simp [releaseAll], AgreeOn.refl _ r⟩
  | cons a rest ih =>
    have ha := howner a List.mem_cons_self
    rw [releaseAll, release_of_owner ha]
    -- The account is not named again, so the rest is still the sub-pool's.
    have hrest : ∀ b ∈ rest, ({ r with owners := r.owners.erase a } : Reservations).owner? b
        = some pool := by
      intro b hb
      rw [owner?_erase, if_neg (fun heq : a = b => (List.nodup_cons.mp hnodup).1 (heq ▸ hb))]
      exact howner b (List.mem_cons_of_mem a hb)
    obtain ⟨herrors, howners, hagree⟩ := ih (List.nodup_cons.mp hnodup).2 hrest
    refine ⟨herrors, fun b => ?_, (agreeOn_erase ha).trans hagree⟩
    rw [howners b, owner?_erase]
    by_cases hb : b ∈ rest
    · simp [hb]
    · by_cases hab : a = b
      · simp [hab]
      · simp [hb, hab, Ne.symm hab]

end Reservations

end TxRelay
