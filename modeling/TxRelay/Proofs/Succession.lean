/-
What comes right after an account's next nonce.

The transactions of an account are gone through by nonce, and as long as each
has the nonce that is due they can be executed. So they are the longest run of
taken nonces from the next nonce on, and the nonce after them is the least that
is free, if nothing is held below the next nonce. What is behind is met first,
and nothing after it counts as a run any more: the run is cut off at its very
beginning until the pool has dropped what is behind. The execution layer may
move on before that.

Nonces are natural numbers here. The one after the last nonce of an account is
then simply free, and the counting below never comes around.
-/
import TxRelay.Proofs.Exclusivity
import TxRelay.Proofs.Pending
import TxRelay.Proofs.PoolFilter

set_option autoImplicit false

namespace TxRelay

namespace Holdings

/-- An account has a transaction at a nonce. -/
def Taken (h : Holdings) (a : Address) (n : Nat) : Prop :=
  ∃ p, h.get? p.hash = some p ∧ p.tx.sender = a ∧ p.tx.nonce.toNat = n

/-- **The longest run** of nonces from a given one on that an account has taken is so long
(`AccountPool::next_nonce`). -/
structure LongestRun (h : Holdings) (a : Address) (first length : Nat) : Prop where
  taken : ∀ j < length, h.Taken a (first + j)
  free : ¬h.Taken a (first + length)

/-- **The transactions of an account in two parts**, the second by nonce
(`AccountPool::split`). -/
structure InParts (h : Holdings) (a : Address) (parts : List Pooled × List Pooled) : Prop where
  mem_iff : ∀ p, p ∈ parts.1 ++ parts.2 ↔ h.get? p.hash = some p ∧ p.tx.sender = a
  nodup : (parts.1 ++ parts.2).Nodup
  ascending : parts.2.Pairwise fun p q => p.tx.nonce < q.tx.nonce

/-! ## A list of transactions by nonce -/

/-- **A run from the least nonce on ends at the first gap.** -/
theorem run_of_le (m : Nat) (ps : List Pooled)
    (hasc : ps.Pairwise fun p q => p.tx.nonce < q.tx.nonce) (hge : ∀ p ∈ ps, m ≤ p.tx.nonce.toNat) :
    ∃ k, (run (UInt64.ofNat m) ps).1.map (fun p => p.tx.nonce.toNat) = List.range' m k ∧
      ∀ p ∈ ps, p.tx.nonce.toNat ≠ m + k := by
  induction ps generalizing m with
  | nil => exact ⟨0, rfl, nofun⟩
  | cons p rest ih =>
    obtain ⟨hfirst, hasc⟩ := List.pairwise_cons.mp hasc
    have hp := hge p List.mem_cons_self
    have hlater : ∀ q ∈ rest, p.tx.nonce.toNat < q.tx.nonce.toNat :=
      fun q hq => UInt64.lt_iff_toNat_lt.mp (hfirst q hq)
    rw [run]
    by_cases hdue : p.tx.nonce.toNat = m
    · have hnonce : p.tx.nonce = UInt64.ofNat m := by rw [← hdue, UInt64.ofNat_toNat]
      have hnext : UInt64.ofNat m + 1 = UInt64.ofNat (m + 1) := (UInt64.ofNat_add m 1).symm
      -- What comes later is past this one.
      obtain ⟨k, hrun, hgap⟩ := ih (m + 1) hasc fun q hq => by
        have := hlater q hq
        omega
      rw [if_pos hnonce, hnext]
      refine ⟨k + 1, ?_, fun q hq => ?_⟩
      · rw [List.range'_succ, List.map_cons, hdue, hrun]
      · rcases List.mem_cons.mp hq with rfl | hin
        · omega
        · have := hgap q hin
          omega
    · have hnonce : p.tx.nonce ≠ UInt64.ofNat m := by
        intro heq
        have hle : p.tx.nonce.toNat ≤ m := by
          rw [heq, UInt64.toNat_ofNat']
          exact Nat.mod_le m _
        omega
      rw [if_neg hnonce]
      refine ⟨0, rfl, fun q hq => ?_⟩
      rcases List.mem_cons.mp hq with rfl | hin
      · omega
      · have := hlater q hin
        omega

/-- What is behind comes first, and then nothing is due. -/
theorem run_of_lt {n : UInt64} {ps : List Pooled}
    (hasc : ps.Pairwise fun p q => p.tx.nonce < q.tx.nonce) {q : Pooled} (hq : q ∈ ps)
    (hlt : q.tx.nonce < n) : run n ps = ([], ps) := by
  cases ps with
  | nil => cases hq
  | cons p rest =>
    have hp : p.tx.nonce < n := by
      rcases List.mem_cons.mp hq with rfl | hin
      · exact hlt
      · exact UInt64.lt_trans ((List.pairwise_cons.mp hasc).1 q hin) hlt
    rw [run, if_neg (UInt64.ne_of_lt hp)]

/-! ## The transactions of an account -/

section
variable {h : Holdings}

theorem Coherent.taken_iff (hc : h.Coherent) {a : Address} {n : Nat} :
    h.Taken a n ↔ ∃ p ∈ h.ofSender a, p.tx.nonce.toNat = n := by
  constructor
  · rintro ⟨p, hget, hsender, hn⟩
    exact ⟨p, (mem_ofSender hc).mpr ⟨hget, hsender⟩, hn⟩
  · rintro ⟨p, hp, hn⟩
    obtain ⟨hget, hsender⟩ := (mem_ofSender hc).mp hp
    exact ⟨p, hget, hsender, hn⟩

/-- What can be executed and what cannot is everything that is held of an account. -/
theorem Coherent.inParts_split (hc : h.Coherent) (a : Address) (s : UInt64) :
    h.InParts a (h.split a s) := by
  have happend : (h.split a s).1 ++ (h.split a s).2 = h.ofSender a := run_append s (h.ofSender a)
  have hasc := pairwise_ofSender hc a
  refine ⟨fun p => ?_, ?_, ?_⟩
  · rw [happend]
    exact mem_ofSender hc
  · rw [happend]
    exact hasc.imp fun hlt heq => UInt64.ne_of_lt hlt (congrArg (fun p : Pooled => p.tx.nonce) heq)
  · rw [← happend] at hasc
    exact (List.pairwise_append.mp hasc).2.1

/-- **With nothing behind, what can be executed is the longest run** from the
next nonce on, and the nonce after it is free. -/
theorem Coherent.split_of_front (hc : h.Coherent) {a : Address} {s : UInt64}
    (hfront : h.Taken a s.toNat → ∀ n < s.toNat, ¬h.Taken a n) :
    ∃ k, h.LongestRun a s.toNat k ∧
      (h.split a s).1.map (fun p => p.tx.nonce.toNat) = List.range' s.toNat k ∧
      h.nextNonce a s = UInt64.ofNat (s.toNat + k) := by
  have hasc := pairwise_ofSender hc a
  suffices hsuff : ∃ k, (h.split a s).1.map (fun p => p.tx.nonce.toNat) = List.range' s.toNat k ∧
      ∀ p ∈ h.ofSender a, p.tx.nonce.toNat ≠ s.toNat + k by
    obtain ⟨k, hrun, hgap⟩ := hsuff
    refine ⟨k, ⟨fun j hj => ?_, fun htaken => ?_⟩, hrun, ?_⟩
    · -- Each nonce of the run is one of a transaction that can be executed.
      have hmem : s.toNat + j ∈ List.range' s.toNat k := by
        rw [List.mem_range'_1]
        omega
      rw [← hrun] at hmem
      obtain ⟨p, hp, hn⟩ := List.mem_map.mp hmem
      exact hc.taken_iff.mpr ⟨p, (h.sublist_split a s).subset hp, hn⟩
    · obtain ⟨p, hp, hn⟩ := hc.taken_iff.mp htaken
      exact hgap p hp hn
    · have hlength : (h.split a s).1.length = k := by
        rw [← List.length_map (fun p : Pooled => p.tx.nonce.toNat), hrun, List.length_range']
      rw [nextNonce, hlength, UInt64.ofNat_add, UInt64.ofNat_toNat]
  by_cases hbehind : ∃ p ∈ h.ofSender a, p.tx.nonce < s
  · -- Something is behind, so the next nonce itself is free, and the run is empty either way.
    obtain ⟨p, hp, hlt⟩ := hbehind
    have hfree : ¬h.Taken a s.toNat := fun htaken =>
      hfront htaken p.tx.nonce.toNat (UInt64.lt_iff_toNat_lt.mp hlt) (hc.taken_iff.mpr ⟨p, hp, rfl⟩)
    have hsplit : h.split a s = ([], h.ofSender a) := run_of_lt hasc hp hlt
    rw [hsplit]
    exact ⟨0, rfl, fun q hq hn => hfree (hc.taken_iff.mpr ⟨q, hq, hn⟩)⟩
  · have hge : ∀ p ∈ h.ofSender a, s.toNat ≤ p.tx.nonce.toNat := by
      intro p hp
      refine Nat.le_of_not_lt fun hlt => hbehind ⟨p, hp, UInt64.lt_iff_toNat_lt.mpr hlt⟩
    have hrun := run_of_le s.toNat (h.ofSender a) hasc hge
    rwa [UInt64.ofNat_toNat] at hrun

/-- **With something behind, nothing can be executed**, whatever is held from the
next nonce on. -/
theorem Coherent.split_of_behind (hc : h.Coherent) {a : Address} {s : UInt64} {n : Nat}
    (hn : n < s.toNat) (htaken : h.Taken a n) :
    (h.split a s).1 = [] ∧ h.nextNonce a s = s := by
  obtain ⟨p, hp, rfl⟩ := hc.taken_iff.mp htaken
  have hsplit : h.split a s = ([], h.ofSender a) :=
    run_of_lt (pairwise_ofSender hc a) hp (UInt64.lt_iff_toNat_lt.mpr hn)
  rw [nextNonce, hsplit]
  exact ⟨rfl, UInt64.add_zero s⟩

end

end Holdings

namespace Coordinator

/-- **What can be executed of an account.** Whatever happened to a coordinator
of new sub-pools, each of them divides the transactions of any account, for any
next nonce, into two parts that are by nonce and are all that it holds of the
account. Unless the next nonce is taken and one below it is taken as well, the
first part is the longest run of taken nonces from the next nonce on, and the
nonce after that run comes next. Otherwise the first part is empty and the next
nonce comes next again, though it is taken. -/
theorem split_of_run (head : Header) (specs : List (String × NonceLimits × (Transaction → Bool))) :
    ∃ c₀ : Coordinator NoncePool, start head (freshPools specs) = .running c₀ ∧
      ∀ (actions : List Action), ∀ p ∈ (c₀.run actions).pools, ∀ (a : Address) (s : UInt64),
        p.holdings.InParts a (p.holdings.split a s) ∧
        ((p.holdings.Taken a s.toNat → ∀ n < s.toNat, ¬p.holdings.Taken a n) →
          ∃ k, p.holdings.LongestRun a s.toNat k ∧
            (p.holdings.split a s).1.map (fun q => q.tx.nonce.toNat) = List.range' s.toNat k ∧
            p.holdings.nextNonce a s = UInt64.ofNat (s.toNat + k)) ∧
        (∀ n < s.toNat, p.holdings.Taken a n →
          (p.holdings.split a s).1 = [] ∧ p.holdings.nextNonce a s = s) := by
  obtain ⟨c₀, hstart, horderly, _⟩ := start_freshPools head specs
  refine ⟨c₀, hstart, fun actions p hp a s => ?_⟩
  obtain ⟨i, hi⟩ := List.mem_iff_getElem?.mp hp
  have hc := ((horderly.run actions).in_order i p hi).tidy.coherent
  exact ⟨hc.inParts_split a s, hc.split_of_front, fun n hn => hc.split_of_behind hn⟩

/-- The first two transactions of an account are held. -/
def heldTwo : Coordinator NoncePool :=
  PoolSet.single.run [.add (PoolSet.answering 0) [default, PoolSet.second] true false]

theorem nonces_heldTwo :
    heldTwo.pools[0]?.map (fun p => (p.holdings.ofSender default).map fun q => q.tx.nonce.toNat)
      = some [0, 1] := by
  decide +kernel

theorem exists_heldTwo :
    ∃ p, heldTwo.pools[0]? = some p ∧ p.holdings.Coherent ∧
      ∀ n, p.holdings.Taken default n ↔ n ∈ [0, 1] := by
  obtain ⟨c₀, hstart, horderly, _⟩ := start_freshPools default [("", .small, fun _ => true)]
  rw [PoolSet.start_single] at hstart
  obtain rfl := Started.running.inj hstart
  obtain ⟨p, hp, hnonces⟩ := Option.map_eq_some_iff.mp nonces_heldTwo
  have hc := ((horderly.run _).in_order 0 p hp).tidy.coherent
  refine ⟨p, hp, hc, fun n => ?_⟩
  rw [← hnonces]
  exact hc.taken_iff.trans List.mem_map.symm

/-- As long as nothing is carried out, both can be executed. -/
theorem split_of_two :
    ∃ (c₀ : Coordinator NoncePool) (actions : List Action) (p : NoncePool),
      start default (freshPools [("", .small, fun _ => true)]) = .running c₀ ∧
        p ∈ (c₀.run actions).pools ∧
        (p.holdings.split default 0).1.map (fun q => q.tx.nonce.toNat) = [0, 1] ∧
        p.holdings.nextNonce default 0 = 2 := by
  obtain ⟨c₀, hstart, h⟩ := split_of_run default [("", .small, fun _ => true)]
  rw [PoolSet.start_single] at hstart
  obtain rfl := Started.running.inj hstart
  obtain ⟨p, hp, _, htaken⟩ := exists_heldTwo
  have hmem := List.mem_of_getElem? hp
  obtain ⟨_, hfront, _⟩ := h _ p hmem default 0
  obtain ⟨k, hlongest, hsplit, hnext⟩ := hfront fun _ n hn => absurd hn (Nat.not_lt_zero n)
  obtain rfl : k = 2 := by
    have hle : k ≤ 2 := Nat.le_of_not_lt fun hlt =>
      absurd ((htaken 2).mp (hlongest.taken 2 hlt)) (by decide)
    have hfree (n : Nat) (hn : n ∈ [0, 1]) : k ≠ n := by
      rintro rfl
      refine hlongest.free ((htaken _).mpr ?_)
      rwa [UInt64.toNat_zero, Nat.zero_add]
    have := hfree 0 (by decide)
    have := hfree 1 (by decide)
    omega
  exact ⟨_, _, p, PoolSet.start_single, hmem, hsplit, hnext⟩

/-- The first two transactions of an account are held, and the execution layer
has carried out the first one. The second could come right away, but it does
not count as executable, and its nonce is said to be the next free one. -/
theorem split_of_one_behind :
    ∃ (c₀ : Coordinator NoncePool) (actions : List Action) (p : NoncePool),
      start default (freshPools [("", .small, fun _ => true)]) = .running c₀ ∧
        (c₀.run actions).pools[0]? = some p ∧
        p.holdings.LongestRun default (1 : UInt64).toNat 1 ∧
        (p.holdings.split default 1).1 = [] ∧ p.holdings.nextNonce default 1 = 1 := by
  obtain ⟨p, hp, hc, htaken⟩ := exists_heldTwo
  have hbehind := hc.split_of_behind (s := 1) (by decide : 0 < (1 : UInt64).toNat)
    ((htaken 0).mpr (by decide))
  refine ⟨_, _, p, PoolSet.start_single, hp, ⟨fun j hj => ?_, fun hfree => ?_⟩, hbehind⟩
  · rw [Nat.lt_one_iff.mp hj]
    exact (htaken 1).mpr (by decide)
  · exact absurd ((htaken 2).mp hfree) (by decide)

end Coordinator

end TxRelay
