/-
Who has an account in the course of time.

Sub-pools claim accounts and give them up in any order, from any seats, and each call is
one step of the table. What is refused changes nothing, and a claim on what a sub-pool has
is only counted. The calls that do change who has an account come in turn, for each account
by itself: one sub-pool gets it, the same one gives it up, the next one gets it. Whoever
calls in between is told who has it. So a claim is a lock, and of those who claim a free
account the first one wins.

What the table reports of itself follows: the accounts of each seat are counted, not kept,
and the anomalies are the claims on what the caller had.
-/
import Mathlib.Algebra.BigOperators.Group.Finset.Basic
import Mathlib.Algebra.GroupWithZero.Nat
import TxRelay.Proofs.Reservations

set_option autoImplicit false

namespace TxRelay

namespace Reservations

open Entries (Counts)

/-! ## Calls -/

/-- A call at the table: a sub-pool claims an account, or gives it up
(`ReservationTable::reserve`). -/
inductive Call where
  | acquire (pool : Nat) (account : Address)
  | release (pool : Nat) (account : Address)
deriving DecidableEq

namespace Call

/-- Who calls. -/
def pool : Call → Nat
  | acquire pool _ => pool
  | release pool _ => pool

/-- Who claims an account, if the call does. -/
def claimant? (a : Address) : Call → Option Nat
  | acquire pool b => if b = a then some pool else none
  | release _ _ => none

end Call

/-- What is answered to a call: the table after it, or why it is refused. -/
def answer (r : Reservations) : Call → Except ReservationError Reservations
  | .acquire pool a => r.acquire pool a
  | .release pool a => r.release pool a

/-- The table after a call, refused or not. -/
def after (r : Reservations) (c : Call) : Reservations :=
  match r.answer c with
  | .ok r' => r'
  | .error _ => r

/-- The table after several calls. -/
def run (r : Reservations) (calls : List Call) : Reservations := calls.foldl after r

/-- **The changes of an account**: the calls that changed who has it, oldest first. -/
def changes (a : Address) : Reservations → List Call → List Call
  | _, [] => []
  | r, c :: rest =>
    if (r.after c).owner? a = r.owner? a then changes a (r.after c) rest
    else c :: changes a (r.after c) rest

/-- Whether a sub-pool claims what it has. -/
def isRepeated (r : Reservations) : Call → Bool
  | .acquire pool a => r.owner? a == some pool
  | .release _ _ => false

/-- How often sub-pools claimed what they had. -/
def repetitions : Reservations → List Call → Nat
  | _, [] => 0
  | r, c :: rest => (if r.isRepeated c then 1 else 0) + repetitions (r.after c) rest

/-- Those who claim an account, the first one first. -/
def claimants (a : Address) (calls : List Call) : List Nat := calls.filterMap (Call.claimant? a)

/-- Those who claim an account and get it, or have it, the first one first. -/
def winners (a : Address) : Reservations → List Call → List Nat
  | _, [] => []
  | r, c :: rest =>
    (if (r.answer c).isOk then (c.claimant? a).toList else []) ++ winners a (r.after c) rest

/-- **In turn**: from one owner of an account to another, a sub-pool gets it when it is
free, and whoever got it gives it up. -/
inductive Bracketed (a : Address) : Option Nat → List Call → Option Nat → Prop where
  | nil (owner : Option Nat) : Bracketed a owner [] owner
  | taken {rest : List Call} {last : Option Nat} (pool : Nat) (h : Bracketed a (some pool) rest last) :
      Bracketed a none (.acquire pool a :: rest) last
  | given {rest : List Call} {last : Option Nat} (pool : Nat) (h : Bracketed a none rest last) :
      Bracketed a (some pool) (.release pool a :: rest) last

section
variable (r : Reservations)

@[simp] theorem run_nil : r.run [] = r := rfl

@[simp] theorem run_cons (c : Call) (rest : List Call) : r.run (c :: rest) = (r.after c).run rest := rfl

theorem run_append (calls later : List Call) : r.run (calls ++ later) = (r.run calls).run later :=
  List.foldl_append

end

/-! ## One call -/

/-- **What a call comes to.** -/
inductive Answered (r : Reservations) : Call → Except ReservationError Reservations → Prop where
  /-- The account is free, and the sub-pool gets it. -/
  | taken (pool : Nat) (a : Address) (hfree : r.owner? a = none) :
      Answered r (.acquire pool a) (.ok { r with owners := r.owners.insert a pool })
  /-- The sub-pool has it already. -/
  | repeated (pool : Nat) (a : Address) (hown : r.owner? a = some pool) :
      Answered r (.acquire pool a) (.ok { r with anomalies := r.anomalies + 1 })
  /-- Another one has it. -/
  | excluded (pool owner : Nat) (a : Address) (hown : r.owner? a = some owner) (hne : owner ≠ pool) :
      Answered r (.acquire pool a) (.error (.alreadyReserved a owner))
  /-- The sub-pool gives up what it has. -/
  | given (pool : Nat) (a : Address) (hown : r.owner? a = some pool) :
      Answered r (.release pool a) (.ok { r with owners := r.owners.erase a })
  /-- Another one has what it gives up, -/
  | unowned (pool owner : Nat) (a : Address) (hown : r.owner? a = some owner) (hne : owner ≠ pool) :
      Answered r (.release pool a) (.error (.notOwned a owner pool))
  /-- or nobody has. -/
  | unreserved (pool : Nat) (a : Address) (hfree : r.owner? a = none) :
      Answered r (.release pool a) (.error (.notReserved a))

variable {r : Reservations} {a : Address}

theorem answered (r : Reservations) (c : Call) : r.Answered c (r.answer c) := by
  cases c with
  | acquire pool a =>
    unfold answer acquire
    dsimp only
    split
    · next hfree => exact .taken pool a hfree
    · next owner hown =>
      split
      · next heq =>
        subst heq
        exact .repeated owner a hown
      · next hne => exact .excluded pool owner a hown hne
  | release pool a =>
    unfold answer release
    dsimp only
    split
    · next hfree => exact .unreserved pool a hfree
    · next owner hown =>
      split
      · next heq =>
        subst heq
        exact .given owner a hown
      · next hne => exact .unowned pool owner a hown hne

/-- What is refused changes nothing. -/
theorem after_of_error {c : Call} {e : ReservationError} (h : r.answer c = .error e) : r.after c = r := by
  rw [after, h]

/-- **A call and an account**: who has it stays the same, or it is free and the caller gets
it, or the caller has it and gives it up. -/
theorem owner?_after (r : Reservations) (c : Call) (a : Address) :
    (r.after c).owner? a = r.owner? a ∨
      (∃ pool, c = .acquire pool a ∧ r.owner? a = none ∧ (r.after c).owner? a = some pool) ∨
        ∃ pool, c = .release pool a ∧ r.owner? a = some pool ∧ (r.after c).owner? a = none := by
  have hanswered := r.answered c
  unfold after
  generalize r.answer c = result at hanswered ⊢
  cases hanswered with
  | taken pool b hfree =>
    dsimp only
    rw [owner?_insert]
    by_cases hb : b = a
    · subst hb
      rw [if_pos rfl]
      exact Or.inr (Or.inl ⟨pool, rfl, hfree, rfl⟩)
    · rw [if_neg hb]
      exact Or.inl rfl
  | given pool b hown =>
    dsimp only
    rw [owner?_erase]
    by_cases hb : b = a
    · subst hb
      rw [if_pos rfl]
      exact Or.inr (Or.inr ⟨pool, rfl, hown, rfl⟩)
    · rw [if_neg hb]
      exact Or.inl rfl
  | repeated pool b hown => exact Or.inl rfl
  | excluded pool owner b hown hne => exact Or.inl rfl
  | unowned pool owner b hown hne => exact Or.inl rfl
  | unreserved pool b hfree => exact Or.inl rfl

theorem poolCount_after (r : Reservations) (c : Call) : (r.after c).poolCount = r.poolCount := by
  have hanswered := r.answered c
  unfold after
  generalize r.answer c = result at hanswered ⊢
  cases hanswered <;> rfl

/-- A claim on what the caller has is counted, and nothing else is. -/
theorem anomalies_after (r : Reservations) (c : Call) :
    (r.after c).anomalies = r.anomalies + if r.isRepeated c then 1 else 0 := by
  have hanswered := r.answered c
  unfold after
  generalize r.answer c = result at hanswered ⊢
  cases hanswered with
  | taken pool b hfree => simp [isRepeated, hfree]
  | repeated pool b hown => simp [isRepeated, hown]
  | excluded pool owner b hown hne => simp [isRepeated, hown, hne]
  | given pool b hown => rfl
  | unowned pool owner b hown hne => rfl
  | unreserved pool b hfree => rfl

theorem acquire_of_owner {pool : Nat} (hown : r.owner? a = some pool) :
    r.acquire pool a = .ok { r with anomalies := r.anomalies + 1 } := by
  rw [acquire, hown]
  exact if_pos rfl

theorem acquire_of_other {owner pool : Nat} (hown : r.owner? a = some owner) (hne : owner ≠ pool) :
    r.acquire pool a = .error (.alreadyReserved a owner) := by
  rw [acquire, hown]
  exact if_neg hne

theorem release_of_other {owner pool : Nat} (hown : r.owner? a = some owner) (hne : owner ≠ pool) :
    r.release pool a = .error (.notOwned a owner pool) := by
  rw [release, hown]
  exact if_neg hne

theorem release_of_free {pool : Nat} (hfree : r.owner? a = none) :
    r.release pool a = .error (.notReserved a) := by
  rw [release, hfree]

/-! ## Several calls -/

theorem poolCount_run (r : Reservations) (calls : List Call) : (r.run calls).poolCount = r.poolCount := by
  induction calls generalizing r with
  | nil => rfl
  | cons c rest ih => exact (ih (r.after c)).trans (r.poolCount_after c)

theorem anomalies_run (r : Reservations) (calls : List Call) :
    (r.run calls).anomalies = r.anomalies + repetitions r calls := by
  induction calls generalizing r with
  | nil => rfl
  | cons c rest ih => rw [run_cons, ih, anomalies_after, repetitions, Nat.add_assoc]

/-- **The changes of an account come in turn**, from whoever has it before all calls to
whoever has it after them. -/
theorem bracketed_changes (a : Address) (r : Reservations) (calls : List Call) :
    Bracketed a (r.owner? a) (changes a r calls) ((r.run calls).owner? a) := by
  induction calls generalizing r with
  | nil => exact .nil (r.owner? a)
  | cons c rest ih =>
    have hrest := ih (r.after c)
    rw [run_cons, changes]
    rcases r.owner?_after c a with hsame | ⟨pool, rfl, hfree, hgot⟩ | ⟨pool, rfl, hown, hgone⟩
    · rw [if_pos hsame, ← hsame]
      exact hrest
    · rw [hgot] at hrest
      rw [if_neg (by rw [hgot, hfree]; exact nofun), hfree]
      exact .taken pool hrest
    · rw [hgone] at hrest
      rw [if_neg (by rw [hgone, hown]; exact nofun), hown]
      exact .given pool hrest

theorem changes_sublist (a : Address) (r : Reservations) (calls : List Call) :
    (changes a r calls).Sublist calls := by
  induction calls generalizing r with
  | nil => exact .slnil
  | cons c rest ih =>
    rw [changes]
    split
    · exact (ih (r.after c)).cons c
    · exact (ih (r.after c)).cons_cons c

/-- Whoever has an account at the end had it at first, or was the last to get it. -/
theorem Bracketed.last_eq_some_iff {owner last : Option Nat} {calls : List Call}
    (h : Bracketed a owner calls last) (pool : Nat) :
    last = some pool ↔ calls.getLast? = some (.acquire pool a) ∨ (calls = [] ∧ owner = some pool) := by
  induction h with
  | nil owner => simp
  | @taken rest last pool' h ih =>
    rw [ih]
    cases rest with
    | nil => simp
    | cons c rest => simp [List.getLast?_cons_cons]
  | @given rest last pool' h ih =>
    rw [ih]
    cases rest with
    | nil => simp
    | cons c rest => simp [List.getLast?_cons_cons]

/-- **Who has an account** of a new table: the last one to get it, unless it was given up
since. -/
theorem owner?_run_new (n : Nat) (calls : List Call) (a : Address) (pool : Nat) :
    ((new n).run calls).owner? a = some pool ↔
      (changes a (new n) calls).getLast? = some (.acquire pool a) := by
  rw [(bracketed_changes a (new n) calls).last_eq_some_iff pool, or_iff_left]
  rintro ⟨_, hnone⟩
  cases hnone

/-! ## A free account -/

theorem claimants_cons (a : Address) (c : Call) (rest : List Call) :
    claimants a (c :: rest) = (c.claimant? a).toList ++ claimants a rest := by
  unfold claimants
  rw [List.filterMap_cons]
  cases c.claimant? a <;> rfl

/-- Of all claims on what a sub-pool has, its own go through. -/
theorem winner_of_owner {pool : Nat} (hown : r.owner? a = some pool) (c : Call) :
    (if (r.answer c).isOk then (c.claimant? a).toList else [])
      = (c.claimant? a).toList.filter (· == pool) := by
  cases c with
  | release pool' b => exact ite_self []
  | acquire pool' b =>
    by_cases hb : b = a
    · subst hb
      have hself : (Call.acquire pool' b).claimant? b = some pool' := if_pos rfl
      rw [answer, hself]
      by_cases hpool : pool = pool'
      · subst hpool
        rw [acquire_of_owner hown]
        simp [Except.isOk, Except.toBool]
      · rw [acquire_of_other hown hpool]
        simp [Except.isOk, Except.toBool, Ne.symm hpool]
    · have hnone : (Call.acquire pool' b).claimant? a = none := if_neg hb
      rw [hnone]
      exact ite_self []

/-- As long as nobody gives it up, a sub-pool keeps what it has, and is the only one whose
claims go through. -/
theorem winners_of_owner {pool : Nat} {calls : List Call} (hown : r.owner? a = some pool)
    (hkept : ∀ pool', Call.release pool' a ∉ calls) :
    winners a r calls = (claimants a calls).filter (· == pool) ∧ (r.run calls).owner? a = some pool := by
  induction calls generalizing r with
  | nil => exact ⟨rfl, hown⟩
  | cons c rest ih =>
    have hnext : (r.after c).owner? a = some pool := by
      rcases r.owner?_after c a with hsame | ⟨_, _, hfree, _⟩ | ⟨pool', rfl, _⟩
      · rw [hsame, hown]
      · rw [hown] at hfree
        cases hfree
      · exact absurd List.mem_cons_self (hkept pool')
    obtain ⟨hwinners, hlast⟩ := ih hnext fun pool' hmem => hkept pool' (List.mem_cons_of_mem c hmem)
    refine ⟨?_, hlast⟩
    rw [winners, hwinners, winner_of_owner hown, claimants_cons, List.filter_append]

/-- **The first one wins**: of those who claim a free account that nobody gives up, the
first one gets it, and only its claims go through. -/
theorem winners_of_free {calls : List Call} (hfree : r.owner? a = none)
    (hkept : ∀ pool, Call.release pool a ∉ calls) :
    (r.run calls).owner? a = (claimants a calls).head? ∧
      winners a r calls
        = (claimants a calls).filter fun pool => (claimants a calls).head? == some pool := by
  induction calls generalizing r with
  | nil => exact ⟨hfree, rfl⟩
  | cons c rest ih =>
    have hrest : ∀ pool, Call.release pool a ∉ rest :=
      fun pool hmem => hkept pool (List.mem_cons_of_mem c hmem)
    by_cases hclaims : ∃ pool, c = .acquire pool a
    · -- The first claim goes through, and from then on the account has an owner.
      obtain ⟨pool, rfl⟩ := hclaims
      have hok : r.answer (.acquire pool a) = .ok { r with owners := r.owners.insert a pool } := by
        rw [answer, acquire, hfree]
      have hnext : (r.after (.acquire pool a)).owner? a = some pool := by
        rw [after, hok]
        exact (r.owner?_insert pool a a).trans (if_pos rfl)
      obtain ⟨hwinners, hlast⟩ := winners_of_owner hnext hrest
      have hself : (Call.acquire pool a).claimant? a = some pool := if_pos rfl
      have hhead : claimants a (.acquire pool a :: rest) = pool :: claimants a rest := by
        rw [claimants_cons, hself]
        rfl
      refine ⟨by rw [run_cons, hlast, hhead]; rfl, ?_⟩
      rw [winners, hwinners, hok, hself, hhead]
      have hsame : ∀ pool', (some pool == some pool') = (pool' == pool) := by
        intro pool'
        rw [Option.some_beq_some, BEq.comm]
      simp [Except.isOk, Except.toBool, hsame]
    · have hnone : c.claimant? a = none := by
        cases c with
        | release pool b => rfl
        | acquire pool b => exact if_neg fun hb => hclaims ⟨pool, by rw [hb]⟩
      have hnext : (r.after c).owner? a = none := by
        rcases r.owner?_after c a with hsame | ⟨pool, hc, _⟩ | ⟨pool, rfl, _⟩
        · rw [hsame, hfree]
        · exact absurd ⟨pool, hc⟩ hclaims
        · exact absurd List.mem_cons_self (hkept pool)
      have hskip : claimants a (c :: rest) = claimants a rest := by
        rw [claimants_cons, hnone]
        rfl
      rw [run_cons, winners, hnone, hskip, Option.toList_none, ite_self, List.nil_append]
      exact ih hnext hrest

/-! ## Counting -/

/-- The accounts of a sub-pool are counted. -/
theorem counts_heldBy (r : Reservations) (pool : Nat) :
    Counts (fun a => r.owner? a = some pool) (r.heldBy pool) := by
  refine ⟨(r.owners.toList.filter fun e => e.2 == pool).map Prod.fst, ?_, fun a => ?_, ?_⟩
  · have hkeys : (r.owners.toList.map Prod.fst).Nodup := by
      rw [Std.ExtTreeMap.map_fst_toList_eq_keys]
      exact Std.ExtTreeMap.nodup_keys
    exact hkeys.sublist (List.filter_sublist.map Prod.fst)
  · rw [List.mem_map]
    constructor
    · rintro ⟨⟨b, owner⟩, hmem, rfl⟩
      obtain ⟨hentry, hpool⟩ := List.mem_filter.mp hmem
      have hentry := Std.ExtTreeMap.mem_toList_iff_getElem?_eq_some.mp hentry
      rw [← beq_iff_eq.mp hpool]
      exact hentry
    · intro hown
      refine ⟨(a, pool), List.mem_filter.mpr ⟨?_, beq_self_eq_true pool⟩, rfl⟩
      exact Std.ExtTreeMap.mem_toList_iff_getElem?_eq_some.mpr hown
  · rw [List.length_map, heldBy, Entries.values_eq_map_toList, List.count_eq_countP, List.countP_map,
      List.countP_eq_length_filter]
    rfl

/-- So are those that are claimed at all. -/
theorem counts_size (r : Reservations) : Counts (fun a => r.owner? a ≠ none) r.size := by
  refine ⟨r.owners.keys, Std.ExtTreeMap.nodup_keys, fun a => ?_, Std.ExtTreeMap.length_keys⟩
  rw [Std.ExtTreeMap.mem_keys, Std.ExtTreeMap.mem_iff_isSome_getElem?, Option.isSome_iff_ne_none]
  rfl

/-- If all owners are seated at the table, their accounts make up all that are claimed. -/
theorem sum_held (hseated : ∀ a pool, r.owner? a = some pool → pool < r.poolCount) :
    r.held.sum = r.size := by
  have hvalues : ∀ pool ∈ (r.owners.values : Multiset Nat), pool ∈ Finset.range r.poolCount := by
    intro pool hmem
    obtain ⟨a, ha⟩ := Entries.mem_values.mp (Multiset.mem_coe.mp hmem)
    exact Finset.mem_range.mpr (hseated a pool ha)
  calc r.held.sum = ∑ pool ∈ Finset.range r.poolCount, (r.owners.values : Multiset Nat).count pool := by
        simp only [Multiset.coe_count]
        rw [← Multiset.sum_coe, held, ← Multiset.map_coe]
        rfl
    _ = (r.owners.values : Multiset Nat).card := Multiset.sum_count_eq_card hvalues
    _ = r.size := Entries.length_values r.owners

/-! ## A lock on each account -/

/-- **What a new table has come to after some calls** (`ReservationTable`). -/
structure LocksAccounts (n : Nat) (calls : List Call) (r : Reservations) : Prop where
  /-- Each account changes hands in turn, and nobody has it at first. -/
  bracketed : ∀ a, Bracketed a none (changes a (new n) calls) (r.owner? a)
  /-- Between a claim and the release, others are refused and told who has the account, -/
  excluded : ∀ a owner pool, (changes a (new n) calls).getLast? = some (.acquire owner a) →
    owner ≠ pool →
      r.acquire pool a = .error (.alreadyReserved a owner) ∧
        r.release pool a = .error (.notOwned a owner pool)
  /-- a further claim of the owner changes no owner, and is counted, -/
  repeated : ∀ a owner, (changes a (new n) calls).getLast? = some (.acquire owner a) →
    r.acquire owner a = .ok { r with anomalies := r.anomalies + 1 }
  /-- and the owner can give the account up. -/
  given : ∀ a owner, (changes a (new n) calls).getLast? = some (.acquire owner a) →
    ∃ r', r.release owner a = .ok r' ∧ r'.owner? a = none
  /-- Otherwise there is nothing to give up, -/
  unreserved : ∀ a, (∀ owner, (changes a (new n) calls).getLast? ≠ some (.acquire owner a)) →
    ∀ pool, r.release pool a = .error (.notReserved a)
  /-- and of those who claim the account the first one wins. -/
  firstWins : ∀ a, (∀ owner, (changes a (new n) calls).getLast? ≠ some (.acquire owner a)) →
    ∀ later, (∀ pool, Call.release pool a ∉ later) →
      (r.run later).owner? a = (claimants a later).head? ∧
        winners a r later
          = (claimants a later).filter fun pool => (claimants a later).head? == some pool
  /-- A refused call might as well not have been made. -/
  refused : ∀ before c e rest, calls = before ++ c :: rest →
    ((new n).run before).answer c = .error e → (new n).run (before ++ rest) = r
  /-- The anomalies are the claims on what the caller had. -/
  anomalies_eq : r.anomalies = repetitions (new n) calls
  /-- Each seat is reported with the number of its accounts, -/
  length_held : r.held.length = n
  held_counts : ∀ pool k, r.held[pool]? = some k → Counts (fun a => r.owner? a = some pool) k
  /-- and these make up all accounts that are claimed, if nobody calls from elsewhere. -/
  size_counts : Counts (fun a => r.owner? a ≠ none) r.size
  sum_held : (∀ c ∈ calls, c.pool < n) → r.held.sum = r.size

/-- **The table is a lock on each account**, whatever calls are made at it, by whomever and
in whichever order. -/
theorem locksAccounts_of_run (n : Nat) (calls : List Call) :
    LocksAccounts n calls ((new n).run calls) := by
  have howner := owner?_run_new n calls
  have hcount : ((new n).run calls).poolCount = n := poolCount_run (new n) calls
  have hfree : ∀ a, (∀ owner, (changes a (new n) calls).getLast? ≠ some (.acquire owner a)) →
      ((new n).run calls).owner? a = none := by
    intro a hlast
    apply Option.eq_none_iff_forall_ne_some.mpr
    intro owner hown
    exact hlast owner ((howner a owner).mp hown)
  constructor
  case bracketed => exact fun a => bracketed_changes a (new n) calls
  case excluded =>
    intro a owner pool hlast hne
    have hown := (howner a owner).mpr hlast
    exact ⟨acquire_of_other hown hne, release_of_other hown hne⟩
  case repeated => exact fun a owner hlast => acquire_of_owner ((howner a owner).mpr hlast)
  case given =>
    intro a owner hlast
    refine ⟨_, release_of_owner ((howner a owner).mpr hlast), ?_⟩
    exact (owner?_erase _ a a).trans (if_pos rfl)
  case unreserved => exact fun a hlast pool => release_of_free (hfree a hlast)
  case firstWins => exact fun a hlast later hkept => winners_of_free (hfree a hlast) hkept
  case refused =>
    rintro before c e rest rfl herror
    rw [run_append, run_append, run_cons, after_of_error herror]
  case anomalies_eq => exact (anomalies_run (new n) calls).trans (Nat.zero_add _)
  case length_held => rw [held, List.length_map, List.length_range, hcount]
  case held_counts =>
    intro pool k hk
    rw [held, List.getElem?_map] at hk
    obtain ⟨pool', hpool', rfl⟩ := Option.map_eq_some_iff.mp hk
    obtain ⟨_, rfl⟩ := List.getElem?_eq_some_iff.mp hpool'
    rw [List.getElem_range]
    exact counts_heldBy _ pool
  case size_counts => exact counts_size _
  case sum_held =>
    intro hseated
    apply Reservations.sum_held
    intro a pool hown
    have hlast := List.mem_of_getLast? ((howner a pool).mp hown)
    rw [hcount]
    exact hseated _ ((changes_sublist a (new n) calls).subset hlast)

end Reservations

end TxRelay
