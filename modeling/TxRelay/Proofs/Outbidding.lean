/-
The price at one nonce only goes up.

What an account has at one of its nonces can leave at any time, and then
anything may come. But as long as something is there, whatever takes its place
has paid the price asked for. One transaction of a batch after the other may
take the same place, so what a sub-pool holds is followed through each batch,
transaction by transaction; everything else that happens to it only takes out.
-/
import Mathlib.Data.List.Chain
import TxRelay.Proofs.Charter
import TxRelay.Proofs.PoolFilter
import TxRelay.Proofs.Price
import TxRelay.Proofs.Refusals

set_option autoImplicit false

namespace TxRelay

/-! ## What can become of a transaction at a nonce -/

/-- **What an account has at a nonce, from one moment to the next**: it stays, it leaves,
something comes where nothing was, or something takes its place (`NoncePool::add_one`). -/
inductive Succeeds (bump : Nat) : Option Pooled → Option Pooled → Prop where
  | stays (place : Option Pooled) : Succeeds bump place place
  | leaves (old : Pooled) : Succeeds bump (some old) none
  | comes (new : Pooled) : Succeeds bump none (some new)
  | outbids (old new : Pooled) (h : Outbids bump old.tx.gasPrice new.tx.gasPrice) :
      Succeeds bump (some old) (some new)

/-- If what is there was there before then it stays, or something leaves. -/
theorem Succeeds.of_remains {bump : Nat} {place place' : Option Pooled}
    (h : ∀ p, place' = some p → place = some p) : Succeeds bump place place' := by
  cases place' with
  | some p =>
    rw [h p rfl]
    exact .stays _
  | none =>
    cases place with
    | none => exact .stays none
    | some old => exact .leaves old

/-- **Where something is all the time, the price goes up** with every transaction
that takes the place, unless it is the largest already. -/
theorem price_rises {bump : Nat} (hfits : 100 + bump < UInt64.size) {places : List (Option Pooled)}
    (hchain : places.IsChain (Succeeds bump)) {old new : Pooled} (i n : Nat)
    (hold : places[i]? = some (some old)) (hnew : places[i + n]? = some (some new))
    (hheld : ∀ m, i ≤ m → m ≤ i + n → places[m]? ≠ some none) :
    old = new ∨ old.tx.gasPrice < new.tx.gasPrice ∨
      (old.tx.gasPrice = Amount.max ∧ new.tx.gasPrice = Amount.max) := by
  -- By induction on how many moments there are between the two.
  induction n generalizing new with
  | zero =>
    rw [Nat.add_zero, hold] at hnew
    exact Or.inl (Option.some.inj (Option.some.inj hnew))
  | succ n ih =>
    have hlast : i + n + 1 < places.length := (List.getElem?_eq_some_iff.mp hnew).1
    have hprev : i + n < places.length := Nat.lt_of_succ_lt hlast
    have hstep := List.isChain_iff_getElem.mp hchain (i + n) hlast
    have hnow : places[i + n + 1] = some new := (List.getElem?_eq_some_iff.mp hnew).2
    rw [hnow] at hstep
    cases hbefore : places[i + n] with
    | none =>
      refine absurd ?_ (hheld (i + n) (Nat.le_add_right i n) (Nat.le_succ _))
      rw [List.getElem?_eq_getElem hprev, hbefore]
    | some mid =>
      have hmid : places[i + n]? = some (some mid) := by
        rw [List.getElem?_eq_getElem hprev, hbefore]
      have hsofar := ih hmid fun m hm hm' => hheld m hm (Nat.le_succ_of_le hm')
      rw [hbefore] at hstep
      cases hstep with
      | stays => exact hsofar
      | outbids _ _ h =>
        have hmore := h.lt_or_max hfits
        rcases hsofar with rfl | hsofar
        · exact Or.inr hmore
        · exact Or.inr (lt_or_max_trans hsofar hmore)

/-! ## One transaction -/

namespace Holdings

/-- What is at each nonce of each account may follow on what was there. -/
def Follows (bump : Nat) (h h' : Holdings) : Prop :=
  ∀ a n, Succeeds bump (h.atNonce? a n) (h'.atNonce? a n)

section
variable {h h' : Holdings} {a : Address} {n : UInt64} {p : Pooled}

theorem Coherent.atNonce?_eq_some_iff (hc : h.Coherent) :
    h.atNonce? a n = some p ↔ h.get? p.hash = some p ∧ p.tx.sender = a ∧ p.tx.nonce = n := by
  constructor
  · exact hc.of_atNonce?
  · rintro ⟨hget, rfl, rfl⟩
    rw [atNonce?, hc.nonce_eq hget, Option.bind_some, hget]

/-- Taking out leaves everything else where it was. -/
theorem Within.follows (hw : h'.Within h) (hc : h.Coherent) (hc' : h'.Coherent) (bump : Nat) :
    h.Follows bump h' := by
  intro a n
  refine Succeeds.of_remains fun p hp => ?_
  obtain ⟨hget, hplace⟩ := hc'.atNonce?_eq_some_iff.mp hp
  exact hc.atNonce?_eq_some_iff.mpr ⟨hw _ _ hget, hplace⟩

/-- What comes to a place that was left or free: the rest is as before, or was
taken out. -/
theorem follows_insert {bump : Nat} {tx : Transaction} {isLocal : Bool} (hc : h.Coherent)
    (hw : h'.Within h) (hci : (h'.insert tx isLocal).Coherent)
    (hplace : Succeeds bump (h.atNonce? tx.sender tx.nonce) (some (h'.arriving tx isLocal))) :
    h.Follows bump (h'.insert tx isLocal) := by
  intro a n
  have hself : (h'.insert tx isLocal).get? tx.hash = some (h'.arriving tx isLocal) := by
    rw [get?_insert, if_pos rfl]
  by_cases hsame : tx.sender = a ∧ tx.nonce = n
  · obtain ⟨rfl, rfl⟩ := hsame
    have hnew : (h'.insert tx isLocal).atNonce? tx.sender tx.nonce = some (h'.arriving tx isLocal) :=
      hci.atNonce?_eq_some_iff.mpr ⟨hself, rfl, rfl⟩
    rw [hnew]
    exact hplace
  · refine Succeeds.of_remains fun p hp => ?_
    obtain ⟨hget, hsender, hnonce⟩ := hci.atNonce?_eq_some_iff.mp hp
    rw [get?_insert] at hget
    split at hget
    · rw [← Option.some.inj hget] at hsender hnonce
      exact absurd ⟨hsender, hnonce⟩ hsame
    · exact hc.atNonce?_eq_some_iff.mpr ⟨hw _ _ hget, hsender, hnonce⟩

end

end Holdings

namespace NoncePool

section
variable {limits : NonceLimits} {seat : Nat} {b : Backend} {s : Space} {isLocal : Bool}

/-- **Letting in one transaction**: whatever place it takes is free, or it pays
the price asked for. -/
theorem Space.Tidy.follows_letIn (ht : s.Tidy seat none) (hfits : 100 + limits.priceBump < UInt64.size)
    (tx : Transaction) :
    s.holdings.Follows limits.priceBump (NoncePool.letIn limits seat b s tx isLocal).1.holdings := by
  have htidy := (ht.letIn limits b tx isLocal).1
  have hl := letIn_letting limits seat b s tx isLocal
  generalize NoncePool.letIn limits seat b s tx isLocal = result at hl htidy ⊢
  cases hl with
  | refused e => exact fun a n => .stays _
  | replaced old h hold hprice =>
    refine Holdings.follows_insert ht.coherent (Holdings.Within.remove _ _) htidy.coherent ?_
    rw [hold]
    exact .outbids old _ (Outbids.of_asked hfits (Nat.le_of_not_lt hprice))
  | crowded claimed e h hnone hcount hclaim hroom =>
    rw [ht.settle_claim hclaim]
    exact fun a n => .stays _
  | entered claimed roomy h hnone hcount hclaim hroom =>
    have hwithin : roomy.holdings.Within s.holdings := by
      rw [← claimSender_holdings hclaim]
      rcases makeRoom_within hroom with rfl | ⟨hash, rfl⟩
      · exact Holdings.Within.refl _
      · exact claimed.drop_within seat (some tx.sender) hash
    refine Holdings.follows_insert ht.coherent hwithin htidy.coherent ?_
    rw [hnone]
    exact .comes _

end

/-- **A replacement pays what is asked for.** -/
theorem InOrder.outbids_of_add {p : NoncePool} {seat : Nat} {c : Commons}
    (h : p.InOrder seat c.reservations) (hfits : 100 + p.limits.priceBump < UInt64.size) {b : Backend}
    {tx : Transaction} {isLocal : Bool} {old : Pooled}
    (hold : p.holdings.atNonce? tx.sender tx.nonce = some old)
    (hok : (p.add b c [tx] isLocal).2.2 = [.ok ()]) :
    Outbids p.limits.priceBump old.tx.gasPrice tx.gasPrice := by
  rcases h.seated with hseat | ⟨hseat, _⟩
  · rw [add_of_seat hseat] at hok
    have houtcome : (letIn p.limits seat b (p.space c.reservations) tx isLocal).2 = .ok () :=
      List.head_eq_of_cons_eq hok
    have hl := letIn_letting p.limits seat b (p.space c.reservations) tx isLocal
    generalize letIn p.limits seat b (p.space c.reservations) tx isLocal = result at hl houtcome
    cases hl with
    | refused e => cases houtcome
    | replaced old' h' hold' hprice =>
      obtain rfl : old' = old := Option.some.inj (hold'.symm.trans hold)
      exact Outbids.of_asked hfits (Nat.le_of_not_lt hprice)
    | crowded claimed e h' hnone hcount hclaim hroom => cases houtcome
    | entered claimed roomy h' hnone hcount hclaim hroom => cases hnone.symm.trans hold
  · rw [add_of_unseated hseat] at hok
    cases hok

/-! ## From moment to moment -/

/-- **One state after the other**: each follows on the one before it, and the
last one is given. -/
def Leads (bump : Nat) (h : Holdings) (states : List Holdings) (h' : Holdings) : Prop :=
  (h :: states).IsChain (Holdings.Follows bump) ∧ (h :: states).getLast? = some h'

namespace Leads

variable {bump : Nat} {h h₁ h' h'' : Holdings} {states states' : List Holdings}

theorem nil (bump : Nat) (h : Holdings) : Leads bump h [] h := ⟨.singleton h, rfl⟩

theorem cons_iff :
    Leads bump h (h₁ :: states) h' ↔ h.Follows bump h₁ ∧ Leads bump h₁ states h' := by
  rw [Leads, Leads, List.isChain_cons_cons, List.getLast?_cons_cons, and_assoc]

theorem single (hfollows : h.Follows bump h') : Leads bump h [h'] h' :=
  cons_iff.mpr ⟨hfollows, nil bump h'⟩

theorem append (hl : Leads bump h states h') (hl' : Leads bump h' states' h'') :
    Leads bump h (states ++ states') h'' := by
  induction states generalizing h with
  | nil =>
    obtain rfl : h = h' := Option.some.inj hl.2
    exact hl'
  | cons h₁ rest ih =>
    obtain ⟨hfollows, hrest⟩ := cons_iff.mp hl
    exact cons_iff.mpr ⟨hfollows, ih hrest⟩

end Leads

/-- What is held after each transaction of a batch. -/
def letting (limits : NonceLimits) (seat : Nat) (b : Backend) (isLocal : Bool) :
    Space → List Transaction → List Holdings
  | _, [] => []
  | s, tx :: rest =>
    (letIn limits seat b s tx isLocal).1.holdings ::
      letting limits seat b isLocal (letIn limits seat b s tx isLocal).1 rest

theorem Space.Tidy.leads_letting {limits : NonceLimits} {seat : Nat} {b : Backend} {s : Space}
    {isLocal : Bool} (ht : s.Tidy seat none) (hfits : 100 + limits.priceBump < UInt64.size)
    (txs : List Transaction) :
    Leads limits.priceBump s.holdings (letting limits seat b isLocal s txs)
      (NoncePool.letInAll limits seat b isLocal s txs).1.holdings := by
  induction txs generalizing s with
  | nil => exact Leads.nil _ _
  | cons tx rest ih =>
    exact Leads.cons_iff.mpr ⟨ht.follows_letIn hfits tx, ih (ht.letIn limits b tx isLocal).1⟩

/-- What a sub-pool holds after each transaction of a batch that it takes in. -/
def taking (p : NoncePool) (b : Backend) (c : Commons) (txs : List Transaction) (isLocal : Bool) :
    List Holdings :=
  match p.seat with
  | none => []
  | some seat => letting p.limits seat b isLocal (p.space c.reservations) txs

theorem InOrder.leads_taking {p : NoncePool} {seat : Nat} {c : Commons}
    (h : p.InOrder seat c.reservations) (hfits : 100 + p.limits.priceBump < UInt64.size) (b : Backend)
    (txs : List Transaction) (isLocal : Bool) :
    Leads p.limits.priceBump p.holdings (p.taking b c txs isLocal) (p.add b c txs isLocal).1.holdings := by
  rw [taking]
  rcases h.seated with hseat | ⟨hseat, _⟩
  · rw [hseat, add_of_seat hseat]
    exact h.tidy.leads_letting hfits txs
  · rw [hseat, add_of_unseated hseat]
    exact Leads.nil _ _

/-- When it is its turn, a sub-pool is as much in order as it was. -/
theorem Exclusive.in_order_at {op : Nat → NoncePool → Commons → NoncePool × Commons}
    (hop : KeepsSeats op) {pools : List NoncePool} {c : Commons} (h : Exclusive pools c.reservations)
    {k : Nat} {p : NoncePool} (hp : pools[k]? = some p) :
    p.InOrder k (NoncePool.sweep op 0 c (pools.take k)).2.reservations := by
  obtain ⟨_, hagree⟩ := hop.sweep 0 c (pools.take k) fun j q hq => by
    rw [Nat.zero_add]
    rw [List.getElem?_take] at hq
    split at hq
    · exact h.in_order j q hq
    · cases hq
  refine (h.in_order k p hp).of_agreeOn hagree (Or.inr ?_)
  rw [Nat.zero_add, List.length_take]
  exact Nat.min_le_left _ _

end NoncePool

namespace Coordinator

open NoncePool (Leads)

variable (c : Coordinator NoncePool)

/-- What the sub-pools share when it is the turn of one of them in a batch. -/
def turn (views : Nat → Backend) (txs : List Transaction) (isLocal : Bool) (k : Nat) : Commons :=
  (NoncePool.sweep (takeIn views (share c.pools txs) isLocal) 0 c.commons (c.pools.take k)).2

/-- **What a sub-pool holds in the course of an action**: after each transaction
that it takes in, and after everything else. -/
def course (k : Nat) : Action → List Holdings
  | .add views txs isLocal _ =>
    (c.pools[k]?.map fun p =>
      p.taking (views k) (c.turn views txs isLocal k) (share c.pools txs k) isLocal).getD []
  | .offer pool b txs isLocal =>
    if pool = k then (c.pools[k]?.map fun p => p.taking b c.commons txs isLocal).getD [] else []
  | action => ((c.act action).pools[k]?.map NoncePool.holdings).toList

/-- What a sub-pool holds in the course of several actions. -/
def trail (k : Nat) : Coordinator NoncePool → List Action → List Holdings
  | _, [] => []
  | c, action :: rest => c.course k action ++ trail k (c.act action) rest

variable {c} {k : Nat} {p : NoncePool}

/-- A sub-pool that is offered nothing holds afterwards what it held, or less. -/
theorem leads_of_idle (h : c.Orderly) {action : Action} (hp : c.pools[k]? = some p) {p' : NoncePool}
    (hp' : (c.act action).pools[k]? = some p') (hidle : ∀ tx, ¬action.Offers c.pools k tx) :
    Leads p.limits.priceBump p.holdings [p'.holdings] p'.holdings := by
  have hbecomes := (c.becomeEach_act action).becomes k p p' hp hp'
  rw [show action.Offers c.pools k = fun _ => False from funext fun tx => eq_false (hidle tx)]
    at hbecomes
  have hc := (h.in_order k p hp).tidy.coherent
  have hc' := ((h.act action).in_order k p' hp').tidy.coherent
  exact Leads.single (hbecomes.within.follows hc hc' _)

/-- A sub-pool takes in its share, one transaction after the other. -/
theorem leads_takeIn {commons : Commons} (h : p.InOrder k commons.reservations)
    (hfits : 100 + p.limits.priceBump < UInt64.size) (views : Nat → Backend)
    (shares : Nat → List Transaction) (isLocal : Bool) :
    Leads p.limits.priceBump p.holdings (p.taking (views k) commons (shares k) isLocal)
      (takeIn views shares isLocal k p commons).1.holdings := by
  have hadd := h.leads_taking hfits (views k) (shares k) isLocal
  rw [takeIn]
  split
  · next hempty =>
    rw [List.isEmpty_iff.mp hempty] at hadd ⊢
    rw [NoncePool.taking]
    cases p.seat with
    | none => exact Leads.nil _ _
    | some seat => exact Leads.nil _ _
  · exact hadd

/-- **In the course of an action** one state of a sub-pool follows on another, up
to what it holds afterwards. -/
theorem leads_course (h : c.Orderly) (action : Action) (hp : c.pools[k]? = some p) {p' : NoncePool}
    (hp' : (c.act action).pools[k]? = some p') (hfits : 100 + p.limits.priceBump < UInt64.size) :
    Leads p.limits.priceBump p.holdings (c.course k action) p'.holdings := by
  cases action with
  | add views txs isLocal sync =>
    have htaken : (takeIn views (share c.pools txs) isLocal k p (c.turn views txs isLocal k)).1 = p' := by
      have hafter := NoncePool.getElem?_sweep_eq (takeIn views (share c.pools txs) isLocal) hp 0 c.commons
      rw [Nat.zero_add, ← pools_add c views txs isLocal sync] at hafter
      exact Option.some.inj (hafter.symm.trans hp')
    have hcourse : c.course k (.add views txs isLocal sync)
        = p.taking (views k) (c.turn views txs isLocal k) (share c.pools txs k) isLocal := by
      simp only [course, hp, Option.map_some, Option.getD_some]
    rw [hcourse, ← htaken]
    have hin : p.InOrder k (c.turn views txs isLocal k).reservations :=
      NoncePool.Exclusive.in_order_at (keepsSeats_takeIn views _ isLocal) h hp
    exact leads_takeIn hin hfits views (share c.pools txs) isLocal
  | offer pool b txs isLocal =>
    have hafter : (c.alone pool (takeIn (fun _ => b) (fun _ => txs) isLocal)).pools[k]? = some p' := hp'
    by_cases hpool : pool = k
    · subst hpool
      have htaken : (takeIn (fun _ => b) (fun _ => txs) isLocal pool p c.commons).1 = p' := by
        rw [alone, hp] at hafter
        exact Option.some.inj
          ((List.getElem?_set_self (List.getElem?_eq_some_iff.mp hp).1).symm.trans hafter)
      have hcourse : c.course pool (.offer pool b txs isLocal) = p.taking b c.commons txs isLocal := by
        simp only [course, hp, Option.map_some, Option.getD_some, if_pos]
      rw [hcourse, ← htaken]
      exact leads_takeIn (h.in_order pool p hp) hfits (fun _ => b) (fun _ => txs) isLocal
    · have hsame : (c.alone pool (takeIn (fun _ => b) (fun _ => txs) isLocal)).pools[k]? = c.pools[k]? := by
        rw [alone]
        cases c.pools[pool]? with
        | none => rfl
        | some q => exact List.getElem?_set_ne hpool
      rw [hsame, hp] at hafter
      rw [← Option.some.inj hafter, course, if_neg hpool]
      exact Leads.nil _ _
  | notify | finishReset | close | reset | leave =>
    have hidle := leads_of_idle h hp hp' fun tx => id
    simpa only [course, hp', Option.map_some, Option.toList_some] using hidle

/-- **In the course of a run** as well. -/
theorem leads_trail (h : c.Orderly) (actions : List Action) (hp : c.pools[k]? = some p)
    {p' : NoncePool} (hp' : (c.run actions).pools[k]? = some p')
    (hfits : 100 + p.limits.priceBump < UInt64.size) :
    Leads p.limits.priceBump p.holdings (trail k c actions) p'.holdings := by
  induction actions generalizing c p with
  | nil =>
    obtain rfl : p = p' := Option.some.inj (hp.symm.trans hp')
    exact Leads.nil _ _
  | cons action rest ih =>
    obtain ⟨q, hq, hbecomes⟩ := (c.becomeEach_act action).exists_after hp
    -- The percentage is part of what the sub-pool was made with.
    have hlimits : q.limits = p.limits := congrArg (fun s => s.2.1) hbecomes.charter_eq
    have hrest := ih (h.act action) hq hp' (by rw [hlimits]; exact hfits)
    rw [hlimits] at hrest
    exact (leads_course h action hp hq hfits).append hrest

/-! ## From the start on -/

/-- **The price at a nonce goes up until nothing is there.** Take a coordinator of
new sub-pools and one of them, with a percentage that fits in 64 bits. Whatever
happens, a transaction that takes the place of another one has paid the price
asked for. What the sub-pool holds of an account at a nonce, followed through
every batch transaction by transaction, stays, leaves, comes where nothing was
or is outbid; and as long as something is there, the price goes up with every
transaction that takes the place, unless it is the largest already. The price
asked for is above the one that is there unless that is the largest, and as
many percent above it as the sub-pool asks for only as far as these can be
worked out. -/
theorem outbids_of_run (head : Header)
    (specs : List (String × NonceLimits × (Transaction → Bool))) :
    ∃ c₀ : Coordinator NoncePool, start head (freshPools specs) = .running c₀ ∧
      ∀ (actions : List Action) (k : Nat) (p₀ p : NoncePool), c₀.pools[k]? = some p₀ →
        (c₀.run actions).pools[k]? = some p → 100 + p.limits.priceBump < UInt64.size →
          (∀ (b : Backend) (tx : Transaction) (isLocal : Bool) (old : Pooled),
            p.holdings.atNonce? tx.sender tx.nonce = some old →
              (p.add b (c₀.run actions).commons [tx] isLocal).2.2 = [.ok ()] →
                Outbids p.limits.priceBump old.tx.gasPrice tx.gasPrice) ∧
          (∀ (a : Address) (n : UInt64) (places : List (Option Pooled)),
            places = (p₀.holdings :: trail k c₀ actions).map (fun h => h.atNonce? a n) →
              places.getLast? = some (p.holdings.atNonce? a n) ∧
              places.IsChain (Succeeds p.limits.priceBump) ∧
              ∀ (i j : Nat) (old new : Pooled), i ≤ j → places[i]? = some (some old) →
                places[j]? = some (some new) → (∀ m, i ≤ m → m ≤ j → places[m]? ≠ some none) →
                  old = new ∨ old.tx.gasPrice < new.tx.gasPrice ∨
                    (old.tx.gasPrice = Amount.max ∧ new.tx.gasPrice = Amount.max)) ∧
          ∀ old : Amount,
            ((∀ new, replacementPrice old p.limits.priceBump ≤ new → old < new) ↔ old < Amount.max) ∧
              ((∀ new, replacementPrice old p.limits.priceBump ≤ new →
                  old.raised p.limits.priceBump ≤ new.toNat) ↔
                old.raised p.limits.priceBump ≤ Amount.max.toNat / 100 ∨ p.limits.priceBump = 0) := by
  obtain ⟨c₀, hstart, horderly, _⟩ := start_freshPools head specs
  refine ⟨c₀, hstart, fun actions k p₀ p hp₀ hp hfits => ⟨fun b tx isLocal old hold hok => ?_,
    fun a n places hplaces => ?_, forall_asked_iff hfits⟩⟩
  · exact ((horderly.run actions).in_order k p hp).outbids_of_add hfits hold hok
  · have hlimits : p.limits = p₀.limits := by
      have hcharters := congrArg (fun l => l[k]?) (c₀.charters_run actions)
      simp only [List.getElem?_map, hp, hp₀, Option.map_some] at hcharters
      exact congrArg (fun s => s.2.1) (Option.some.inj hcharters)
    have hleads := leads_trail horderly actions hp₀ hp (hlimits ▸ hfits)
    rw [← hlimits] at hleads
    have hchain : places.IsChain (Succeeds p.limits.priceBump) := by
      rw [hplaces, List.isChain_map]
      exact hleads.1.imp fun h h' hfollows => hfollows a n
    refine ⟨?_, hchain, fun i j old new hij hold hnew hheld => ?_⟩
    · rw [hplaces, List.getLast?_map, hleads.2]
      rfl
    · obtain ⟨d, rfl⟩ := Nat.exists_eq_add_of_le hij
      exact price_rises hfits hchain i d hold hnew hheld

/-- A transaction at a price. It uses no gas, so it costs nothing. -/
def paying (price : Amount) (data : Bytes) : Transaction :=
  { (default : Transaction) with gasPrice := price, data }

/-- A transaction at a price of ten is held. -/
def heldTen : Coordinator NoncePool :=
  PoolSet.single.run [.add (PoolSet.answering 0) [paying (Amount.ofNat 10) []] false false]

theorem taken_at_eleven :
    heldTen.pools[0]?.map (fun p =>
        (p.limits.priceBump, (p.holdings.atNonce? default 0).map Pooled.tx,
          (p.add (PoolSet.answering 0 0) heldTen.commons [paying (Amount.ofNat 11) []] false).2.2.map
            Except.toOption))
      = some (10, some (paying (Amount.ofNat 10) []), [some ()]) := by
  decide +kernel

/-- Eleven are ten percent more than ten, and enough to take the place. -/
theorem outbids_of_eleven :
    ∃ (c₀ : Coordinator NoncePool) (actions : List Action) (p : NoncePool) (old : Pooled)
      (new : Transaction),
      start default (freshPools [("", .small, fun _ => true)]) = .running c₀ ∧
        (c₀.run actions).pools[0]? = some p ∧ 100 + p.limits.priceBump < UInt64.size ∧
        p.holdings.atNonce? new.sender new.nonce = some old ∧
        (p.add (PoolSet.answering 0 0) (c₀.run actions).commons [new] false).2.2 = [.ok ()] ∧
        Outbids p.limits.priceBump old.tx.gasPrice new.gasPrice := by
  obtain ⟨c₀, hstart, h⟩ := outbids_of_run default [("", .small, fun _ => true)]
  rw [PoolSet.start_single] at hstart
  obtain rfl := Started.running.inj hstart
  obtain ⟨p, hp, htaken⟩ := Option.map_eq_some_iff.mp taken_at_eleven
  obtain ⟨hbump, hrest⟩ := Prod.mk.inj htaken
  obtain ⟨hheld, hresult⟩ := Prod.mk.inj hrest
  obtain ⟨old, hold, _⟩ := Option.map_eq_some_iff.mp hheld
  have hfits : 100 + p.limits.priceBump < UInt64.size := by
    rw [hbump]
    decide
  have hok : (p.add (PoolSet.answering 0 0) heldTen.commons [paying (Amount.ofNat 11) []] false).2.2
      = [.ok ()] := by
    obtain ⟨r, hr, hvalue⟩ := List.map_eq_singleton_iff.mp hresult
    cases r with
    | ok _ => exact hr
    | error e => cases hvalue
  exact ⟨_, _, p, old, paying (Amount.ofNat 11) [], PoolSet.start_single, hp, hfits, hold, hok,
    (h _ 0 _ p rfl hp hfits).1 _ _ false old hold hok⟩

theorem trail_dearest :
    (trail 0 PoolSet.single [.add (PoolSet.answering 0)
        [paying Amount.max [0], paying Amount.max [1]] false false]).map
        (fun h => (h.atNonce? default 0).map Pooled.tx)
      = [some (paying Amount.max [0]), some (paying Amount.max [1])] := by
  decide +kernel

/-- At the largest price another transaction takes the place without paying
more, though ten percent more would be asked for. -/
theorem exists_replaced_for_nothing :
    ∃ (c₀ : Coordinator NoncePool) (actions : List Action) (old new : Transaction),
      start default (freshPools [("", .small, fun _ => true)]) = .running c₀ ∧
        c₀.pools.map (fun p => p.limits.priceBump) = [10] ∧
        (trail 0 c₀ actions).map (fun h => (h.atNonce? default 0).map Pooled.tx)
          = [some old, some new] ∧
        old ≠ new ∧ ¬old.gasPrice < new.gasPrice ∧ ¬old.gasPrice.raised 10 ≤ new.gasPrice.toNat :=
  ⟨_, _, _, _, PoolSet.start_single, rfl, trail_dearest, by decide, by decide, by decide⟩

end Coordinator

end TxRelay
