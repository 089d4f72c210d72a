/-
What a pool remembers about the transfers that it refused.

Verdicts are kept in a bounded map that forgets what was used least recently, and
citing a verdict counts as a use. So it can be told from the answers alone what is
remembered: the last verdict that was pronounced on a transfer, until there has been
talk of too many others. A transfer that is pooled is asked about before any verdict
is looked up, and one on which there is a verdict is never let in, so that the pool
and its memory never speak of the same transfer.
-/
import TxRelay.Proofs.Outbox
import TxRelay.Proofs.Redelivery
import TxRelay.Proofs.Unmoved

set_option autoImplicit false

namespace TxRelay

/-! ## The map that forgets -/

namespace Lru

section
variable {κ : Type} [DecidableEq κ] {k : κ}

/-- Who is the last to go after a use does not depend on who was too many before. -/
theorem take_filter_take {l : List κ} (hl : l.Nodup) (n : Nat) :
    ((l.take (n + 1)).filter (· ≠ k)).take n = (l.filter (· ≠ k)).take n := by
  induction l generalizing n with
  | nil => rfl
  | cons x l ih =>
    obtain ⟨hx, hl⟩ := List.nodup_cons.mp hl
    rw [List.take_succ_cons]
    by_cases hxk : x = k
    · subst hxk
      have hsame : ∀ l' : List κ, x ∉ l' → (x :: l').filter (· ≠ x) = l' := by
        intro l' hx'
        rw [List.filter_cons_of_neg (by simp)]
        apply List.filter_eq_self.mpr
        intro y hy
        apply decide_eq_true
        rintro rfl
        exact hx' hy
      rw [hsame l hx, hsame _ (fun h => hx (List.mem_of_mem_take h)), List.take_take, Nat.min_self]
    · have hkeep : ∀ l' : List κ, (x :: l').filter (· ≠ k) = x :: l'.filter (· ≠ k) := by
        intro l'
        exact List.filter_cons_of_pos (by simpa using hxk)
      rw [hkeep, hkeep]
      cases n with
      | zero => rfl
      | succ n => rw [List.take_succ_cons, List.take_succ_cons, ih hl]

/-- Leaving some out and leaving out repetitions go in either order. -/
theorem eraseDups_filter (keep : κ → Bool) (uses : List κ) :
    (uses.filter keep).eraseDups = uses.eraseDups.filter keep := by
  have hkeep : ∀ x y : κ, (x == y) = true → keep x = keep y := by
    intro x y hxy
    rw [eq_of_beq hxy]
  exact eraseDupsBy_filter hkeep uses

theorem nodup_eraseDups (uses : List κ) : uses.eraseDups.Nodup := by
  cases uses with
  | nil => exact List.nodup_nil
  | cons x rest =>
    rw [List.eraseDups_cons, List.nodup_cons]
    constructor
    · rw [List.mem_eraseDups]
      simp
    · exact nodup_eraseDups _
termination_by uses.length
decreasing_by
  exact Nat.lt_succ_of_le (List.length_filter_le _ rest)

/-- A key that is used now comes before the others. -/
theorem eraseDups_use (k : κ) (uses : List κ) :
    (k :: uses).eraseDups = k :: uses.eraseDups.filter (· ≠ k) := by
  rw [List.eraseDups_cons, eraseDups_filter]
  congr 1
  apply List.filter_congr
  intro x _
  by_cases hx : x = k <;> simp [hx]

/-- How many other keys were used since a key was, if it was used at all. The uses are
listed latest first. -/
def othersSince (k : κ) (uses : List κ) : Nat := (uses.takeWhile (· ≠ k)).eraseDups.length

/-- **Among the last keys that were used** are those since which there were not too many
others. -/
theorem mem_take_eraseDups_iff (c : Nat) (uses : List κ) :
    k ∈ uses.eraseDups.take c ↔ k ∈ uses ∧ othersSince k uses < c := by
  by_cases hk : k ∈ uses
  · -- The uses since the last one of the key come first.
    obtain ⟨since, before, rfl, hsince⟩ := List.eq_append_cons_of_mem hk
    have htake : (since ++ k :: before).takeWhile (· ≠ k) = since := by
      rw [List.takeWhile_append_of_pos, List.takeWhile_cons_of_neg, List.append_nil]
      · simp
      · intro x hx
        apply decide_eq_true
        rintro rfl
        exact hsince hx
    have hfirst : ∃ rest, (since ++ k :: before).eraseDups = since.eraseDups ++ k :: rest := by
      rw [List.eraseDups_append, List.cons_removeAll, if_pos (by simpa using hsince), List.eraseDups_cons]
      exact ⟨_, rfl⟩
    obtain ⟨rest, hfirst⟩ := hfirst
    have hout : k ∉ since.eraseDups := by rwa [List.mem_eraseDups]
    unfold othersSince
    rw [htake, hfirst, List.take_append, List.mem_append]
    constructor
    · rintro (hmem | hmem)
      · exact absurd (List.mem_of_mem_take hmem) hout
      · refine ⟨hk, ?_⟩
        by_contra hmany
        rw [Nat.sub_eq_zero_of_le (Nat.not_lt.mp hmany)] at hmem
        exact List.not_mem_nil hmem
    · rintro ⟨_, hfew⟩
      right
      obtain ⟨n, hn⟩ := Nat.exists_eq_succ_of_ne_zero (Nat.sub_ne_zero_of_lt hfew)
      rw [hn, List.take_succ_cons]
      exact List.mem_cons_self
  · have hnot : k ∉ uses.eraseDups.take c := by
      intro hmem
      exact hk (List.mem_eraseDups.mp (List.mem_of_mem_take hmem))
    simp [hk, hnot]

end

section
variable {κ ν : Type} [DecidableEq κ] {m : Lru κ ν} {k k' : κ} {v : ν}

theorem keys_put (m : Lru κ ν) (k : κ) (v : ν) :
    (m.put k v).keys = (k :: m.keys.filter (· ≠ k)).take m.capacity := by
  unfold keys put others
  rw [List.map_take, List.map_cons, List.filter_map]
  rfl

theorem find?_others (m : Lru κ ν) (hne : k' ≠ k) :
    ((m.others k).find? fun e => e.1 = k') = m.entries.find? fun e => e.1 = k' := by
  unfold others
  rw [List.find?_filter]
  congr 1
  funext e
  by_cases he : e.1 = k' <;> simp [he, hne]

/-- What is there of the entry that was written, and of the others. -/
theorem peek?_put_of_mem (hk' : k' ∈ (m.put k v).keys) :
    (m.put k v).peek? k' = if k' = k then some v else m.peek? k' := by
  obtain ⟨v', hv'⟩ := Option.isSome_iff_exists.mp (isSome_peek?_iff.mpr hk')
  rw [hv']
  unfold peek? put at hv'
  obtain ⟨e, he, rfl⟩ := Option.map_eq_some_iff.mp hv'
  have hfound := (List.take_prefix m.capacity ((k, v) :: m.others k)).find?_eq_some he
  by_cases hkk : k' = k
  · subst hkk
    rw [List.find?_cons_of_pos (by simp)] at hfound
    rw [if_pos rfl, ← Option.some.inj hfound]
  · rw [List.find?_cons_of_neg (by simpa using Ne.symm hkk), m.find?_others hkk] at hfound
    unfold peek?
    rw [if_neg hkk, hfound, Option.map_some]

theorem peek?_put_eq_none (hnone : m.peek? k' = none) (hne : k' ≠ k) : (m.put k v).peek? k' = none := by
  rw [← Option.not_isSome_iff_eq_none, isSome_peek?_iff] at hnone ⊢
  intro hmem
  rw [keys_put] at hmem
  rcases List.mem_cons.mp (List.mem_of_mem_take hmem) with heq | hold
  · exact hne heq
  · exact hnone (List.mem_filter.mp hold).1

/-- **What a bounded map holds**, told from its uses, latest first, and from what was
last written for each key. -/
structure Recalls (m : Lru κ ν) (c : Nat) (uses : List κ) (value : κ → Option ν) : Prop where
  capacity_eq : m.capacity = c
  keys_eq : m.keys = uses.eraseDups.take c
  peek?_eq : ∀ k ∈ m.keys, m.peek? k = value k

variable {c : Nat} {uses : List κ} {value : κ → Option ν}

theorem Recalls.put (h : m.Recalls c uses value) (k : κ) (v : ν) :
    (m.put k v).Recalls c (k :: uses) (fun k' => if k' = k then some v else value k') where
  capacity_eq := h.capacity_eq
  keys_eq := by
    rw [keys_put, h.keys_eq, h.capacity_eq, eraseDups_use]
    cases c with
    | zero => rfl
    | succ n => rw [List.take_succ_cons, List.take_succ_cons, take_filter_take (nodup_eraseDups uses)]
  peek?_eq k' hk' := by
    rw [peek?_put_of_mem hk']
    by_cases hkk : k' = k
    · rw [if_pos hkk, if_pos hkk]
    · rw [if_neg hkk, if_neg hkk]
      apply h.peek?_eq
      rw [keys_put] at hk'
      have hold := (List.mem_cons.mp (List.mem_of_mem_take hk')).resolve_left hkk
      exact (List.mem_filter.mp hold).1

/-- Using an entry is writing it again, if there are not too many. -/
theorem touch_eq_put (hv : m.peek? k = some v) (hsize : m.keys.length ≤ m.capacity) :
    m.touch k = m.put k v := by
  have hk : k ∈ m.keys := isSome_peek?_iff.mp (by rw [hv]; rfl)
  have hfewer : (m.others k).length < m.entries.length := by
    obtain ⟨e, he, rfl⟩ := List.mem_map.mp hk
    apply List.length_filter_lt_length_iff_exists.mpr
    exact ⟨e, he, by simp⟩
  have hall : ((k, v) :: m.others k).take m.capacity = (k, v) :: m.others k := by
    apply List.take_of_length_le
    unfold keys at hsize
    rw [List.length_map] at hsize
    rw [List.length_cons]
    omega
  unfold touch put
  rw [hv, hall]

theorem Recalls.touch (h : m.Recalls c uses value) (hv : m.peek? k = some v) :
    (m.touch k).Recalls c (k :: uses) value := by
  have hsize : m.keys.length ≤ m.capacity := by
    rw [h.keys_eq, h.capacity_eq]
    exact List.length_take_le c _
  have hput := h.put k v
  rw [← touch_eq_put hv hsize] at hput
  refine ⟨hput.capacity_eq, hput.keys_eq, ?_⟩
  intro k' hk'
  rw [hput.peek?_eq k' hk']
  by_cases hkk : k' = k
  · subst hkk
    rw [if_pos rfl, ← hv]
    exact h.peek?_eq k' (isSome_peek?_iff.mp (by rw [hv]; rfl))
  · exact if_neg hkk

/-- Using an entry changes none. -/
theorem peek?_touch (m : Lru κ ν) (k k' : κ) : (m.touch k).peek? k' = m.peek? k' := by
  unfold Lru.touch
  split
  · next v hv =>
    unfold peek?
    by_cases hkk : k' = k
    · subst hkk
      rw [List.find?_cons_of_pos (by simp)]
      exact hv.symm
    · rw [List.find?_cons_of_neg (by simpa using Ne.symm hkk), m.find?_others hkk]
  · rfl

/-- **A key is recalled** if it was written and there were not too many others since. -/
theorem Recalls.peek?_iff (h : m.Recalls c uses value) (hused : value k ≠ none → k ∈ uses) :
    m.peek? k = some v ↔ value k = some v ∧ othersSince k uses < c := by
  have hmem := mem_take_eraseDups_iff (k := k) c uses
  rw [← h.keys_eq] at hmem
  constructor
  · intro hv
    have hk : k ∈ m.keys := isSome_peek?_iff.mp (by rw [hv]; rfl)
    rw [← h.peek?_eq k hk]
    exact ⟨hv, (hmem.mp hk).2⟩
  · rintro ⟨hv, hfew⟩
    have hk : k ∈ m.keys := hmem.mpr ⟨hused (by rw [hv]; exact nofun), hfew⟩
    rw [h.peek?_eq k hk, hv]

end

end Lru

namespace Mempool

open TransferStore (Coherent)

/-! ## What was said about transfers -/

/-- What a pool says about a transfer that it does not let in or gives up. -/
inductive Ruling where
  /-- A verdict is pronounced, -/
  | pronounced (id : Digest) (reason : String)
  /-- or the one that is remembered is cited. -/
  | cited (id : Digest)

namespace Ruling

def id : Ruling → Digest
  | pronounced id _ => id
  | cited id => id

/-- The verdict on a transfer, if one is pronounced. -/
def reason? (id : Digest) : Ruling → Option String
  | pronounced id' reason => if id = id' then some reason else none
  | cited _ => none

/-- What the answer to an offer says. That a transfer is pooled already or finds no room
is no verdict on it. -/
def ofAnswer (id : Digest) : Except MempoolError Unit → Option Ruling
  | .error (.previouslyRejected _) => some (cited id)
  | .error (.invalid reason) => some (pronounced id (MempoolError.invalid reason).message)
  | .error (.nonceTooLow next nonce) =>
    some (pronounced id (MempoolError.nonceTooLow next nonce).message)
  | .error (.conflict rivals) => some (pronounced id (MempoolError.conflict rivals).message)
  | _ => none

theorem ofAnswer_of_isMemorable {e : MempoolError} (he : e.isMemorable = true) (id : Digest) :
    ofAnswer id (.error e) = some (pronounced id e.message) := by
  cases e with
  | invalid | nonceTooLow | conflict => rfl
  | duplicate | previouslyRejected | full | filter => cases he

end Ruling

/-- The last verdict on a transfer, of those that are listed latest first. -/
def lastVerdict? (id : Digest) (rulings : List Ruling) : Option String :=
  rulings.findSome? (Ruling.reason? id)

theorem mem_of_lastVerdict? {id : Digest} {rulings : List Ruling} (h : lastVerdict? id rulings ≠ none) :
    id ∈ rulings.map Ruling.id := by
  unfold lastVerdict? at h
  obtain ⟨reason, hreason⟩ := Option.ne_none_iff_exists'.mp h
  obtain ⟨ruling, hruling, hsome⟩ := List.exists_of_findSome?_eq_some hreason
  apply List.mem_map.mpr
  refine ⟨ruling, hruling, ?_⟩
  cases ruling with
  | pronounced id' _ =>
    by_cases hid : id = id'
    · exact hid.symm
    · simp [Ruling.reason?, hid] at hsome
  | cited _ => cases hsome

/-- What an action makes a pool say. -/
def ruling? (p : Mempool) : Action → Option Ruling
  | .add b tx isLocal => Ruling.ofAnswer tx.id (p.add b tx isLocal).2
  | .discard id reason => some (.pronounced id reason)
  | .propose _ | .confirm _ | .rollback _ => none

/-- What a pool says in the course of several actions, latest first. -/
def rulings (p : Mempool) : List Action → List Ruling
  | [] => []
  | action :: rest => (p.act action).rulings rest ++ (p.ruling? action).toList

/-! ## What is remembered of it -/

/-- **A memory of rulings**: for each transfer the last verdict, in the order in which
they were pronounced or cited last. -/
def Remembers (s : TransferStore) (capacity : Nat) (rulings : List Ruling) : Prop :=
  s.verdicts.Recalls capacity (rulings.map Ruling.id) (lastVerdict? · rulings)

/-- Nothing is remembered about a transfer that is pooled. -/
def Apart (s : TransferStore) : Prop :=
  ∀ id e, s.get? id = some e → s.verdicts.peek? id = none

section
variable {s : TransferStore} {capacity : Nat} {rulings : List Ruling} {id : Digest}

theorem Remembers.of_verdicts_eq {s' : TransferStore} (h : Remembers s capacity rulings)
    (hsame : s'.verdicts = s.verdicts) : Remembers s' capacity rulings := by
  unfold Remembers
  rw [hsame]
  exact h

/-- A verdict is pronounced. -/
theorem Remembers.remember (h : Remembers s capacity rulings) (id : Digest) (reason : String) :
    Remembers (s.remember id reason) capacity (.pronounced id reason :: rulings) := by
  have hput := Lru.Recalls.put h id reason
  have hvalue : (fun id' => if id' = id then some reason else lastVerdict? id' rulings)
      = (lastVerdict? · (.pronounced id reason :: rulings)) := by
    funext id'
    unfold lastVerdict?
    rw [List.findSome?_cons]
    by_cases hid : id' = id <;> simp [Ruling.reason?, hid]
  rw [hvalue] at hput
  exact hput

/-- A verdict is cited. -/
theorem Remembers.verdict (h : Remembers s capacity rulings) {reason : String}
    (hverdict : s.verdicts.peek? id = some reason) :
    Remembers (s.verdict id).1 capacity (.cited id :: rulings) :=
  Lru.Recalls.touch h hverdict

/-- Where no verdict was pronounced and no transfer let in, the two stay apart. -/
theorem Apart.of_within {s' : TransferStore} (h : Apart s) (hsame : s'.verdicts = s.verdicts)
    (hold : ∀ id e, s'.get? id = some e → ∃ e', s.get? id = some e') : Apart s' := by
  intro id e he
  obtain ⟨e', he'⟩ := hold id e he
  rw [hsame]
  exact h id e' he'

end

section
variable {p : Mempool} {b : TransferBackend} {tx : Transfer} {isLocal : Bool} {capacity : Nat}
  {rulings : List Ruling} {id : Digest} {reason : String}

/-- **An offer** is remembered as it was answered. -/
theorem Orderly.remembers_add (hp : p.Orderly) (h : Remembers p.store capacity rulings)
    (b : TransferBackend) (tx : Transfer) (isLocal : Bool) :
    Remembers (p.add b tx isLocal).1.store capacity
      ((p.ruling? (.add b tx isLocal)).toList ++ rulings) := by
  show Remembers _ capacity ((Ruling.ofAnswer tx.id (p.add b tx isLocal).2).toList ++ rulings)
  have hoffering := hp.offering b tx isLocal
  generalize p.add b tx isLocal = result at hoffering ⊢
  cases hoffering with
  | known e he => exact h
  | remembered reason hnew hverdict => exact h.verdict hverdict
  | unfit e hnew hverdict hcheck =>
    rw [Ruling.ofAnswer_of_isMemorable (isMemorable_of_check hcheck)]
    exact h.remember tx.id e.message
  | turnedAway heligible hrivals hfull hlast => exact h.of_verdicts_eq rfl
  | letIn s evicted heligible htaken => exact h.of_verdicts_eq htaken.verdicts_eq

/-- An offer lets nobody in on whom there is a verdict, and pronounces none on whom is
pooled. -/
theorem Orderly.apart_add (hp : p.Orderly) (h : Apart p.store) (b : TransferBackend) (tx : Transfer)
    (isLocal : Bool) : Apart (p.add b tx isLocal).1.store := by
  have hc' := coherent_add hp.coherent b tx isLocal
  have hgrown := @get?_add p b tx isLocal
  have hoffering := hp.offering b tx isLocal
  generalize p.add b tx isLocal = result at hc' hgrown hoffering ⊢
  cases hoffering with
  | known e he => exact h
  | remembered reason hnew hverdict =>
    intro id e he
    show (p.store.verdicts.touch tx.id).peek? id = none
    rw [Lru.peek?_touch]
    exact h id e he
  | unfit err hnew hverdict hcheck =>
    intro id e he
    apply Lru.peek?_put_eq_none (h id e he)
    rintro rfl
    have he : p.store.get? tx.id = some e := he
    rw [hnew] at he
    cases he
  | turnedAway heligible hrivals hfull hlast =>
    rw [hp.coherent.without_arriving heligible.fresh hrivals]
    exact h
  | letIn s evicted heligible htaken =>
    intro id e he
    show s.verdicts.peek? id = none
    rw [htaken.verdicts_eq]
    rcases hgrown he with hold | ⟨htx, _⟩
    · exact h id e hold
    · rw [← (hc'.id_eq he).2, htx]
      exact heligible.unjudged

/-- **One action**: what it makes the pool say is remembered, and the memory and the
pool stay apart. -/
theorem Orderly.remembers_act (hp : p.Orderly) (h : Remembers p.store capacity rulings)
    (hapart : Apart p.store) (action : Action) :
    Remembers (p.act action).store capacity ((p.ruling? action).toList ++ rulings) ∧
      Apart (p.act action).store := by
  have hc' := coherent_act hp.coherent action
  have hpooled := all_pooled hp.coherent
  -- Where no transfer is let in, what is pooled was pooled before under the same id.
  have hbefore : (p.act action).store.All (fun tx => ∃ e, p.store.get? tx.id = some e ∧ e.tx = tx) →
      ∀ id e, (p.act action).store.get? id = some e → ∃ e', p.store.get? id = some e' := by
    intro hold id e he
    obtain ⟨e', he', _⟩ := hold id e he
    rw [(hc'.id_eq he).2] at he'
    exact ⟨e', he'⟩
  cases action with
  | add b tx isLocal => exact ⟨hp.remembers_add h b tx isLocal, hp.apart_add hapart b tx isLocal⟩
  | propose max =>
    have hsame := (rest_propose p max).2
    exact ⟨h.of_verdicts_eq hsame, hapart.of_within hsame (hbefore (all_propose hpooled max))⟩
  | confirm ids =>
    have hsame := (TransferStore.rest_removeAll p.store ids).2
    exact ⟨h.of_verdicts_eq hsame, hapart.of_within hsame (hbefore ((within_confirm p ids).all hpooled))⟩
  | rollback ids =>
    have hsame := (TransferStore.rest_reopenAll p.store ids).2
    exact ⟨h.of_verdicts_eq hsame, hapart.of_within hsame (hbefore (all_rollback hpooled ids))⟩
  | discard id reason =>
    have hsame := (TransferStore.rest_remove p.store id).2
    have hremoved : Remembers (p.store.remove id).1 capacity rulings := h.of_verdicts_eq hsame
    refine ⟨hremoved.remember id reason, ?_⟩
    intro id' e he
    have he : (p.store.remove id).1.get? id' = some e := he
    rw [hp.coherent.get?_remove] at he
    split at he
    · cases he
    · next hne =>
      show ((p.store.remove id).1.verdicts.put id reason).peek? id' = none
      rw [hsame]
      exact Lru.peek?_put_eq_none (hapart id' e he) (Ne.symm hne)

/-- **A run of actions.** -/
theorem Orderly.remembers_run (hp : p.Orderly) (h : Remembers p.store capacity rulings)
    (hapart : Apart p.store) (actions : List Action) :
    Remembers (p.run actions).store capacity (p.rulings actions ++ rulings) ∧
      Apart (p.run actions).store := by
  induction actions generalizing p rulings with
  | nil => exact ⟨h, hapart⟩
  | cons action rest ih =>
    obtain ⟨hone, hapart'⟩ := hp.remembers_act h hapart action
    have hrest := ih (hp.act action) hone hapart'
    rw [← List.append_assoc] at hrest
    exact hrest

/-- Nothing is remembered in a new pool. -/
theorem remembers_new {settings : MempoolSettings} {salts : Nat → Salt}
    (hnew : new settings salts = .ok p) : Remembers p.store (max 1 settings.verdicts) [] := by
  unfold new at hnew
  split at hnew
  · cases hnew
  · obtain rfl := Except.ok.inj hnew
    exact ⟨rfl, List.take_nil.symm, nofun⟩

/-! ## What follows from it -/

/-- **How a pool keeps its verdicts**, after what it said about transfers, latest first
(`MempoolStore::rejection`). -/
structure KeepsVerdicts (capacity : Nat) (rulings : List Ruling) (p : Mempool) : Prop where
  /-- Nothing is remembered about a transfer that is pooled, -/
  apart : ∀ id, p.has id = true → p.store.verdicts.peek? id = none
  /-- which is known when it is offered again, whatever the chain has to say. -/
  duplicate : ∀ b tx isLocal, p.has tx.id = true →
    p.add b tx isLocal = (p, .error (.duplicate tx.id))
  /-- What is remembered is the last verdict on a transfer, until there was talk of too
  many others. -/
  remembered_iff : ∀ id reason, p.store.verdicts.peek? id = some reason ↔
    lastVerdict? id rulings = some reason ∧ Lru.othersSince id (rulings.map Ruling.id) < capacity
  /-- It is cited when the transfer is offered again, whatever the chain has to say, and
  nothing changes but the order in which verdicts are forgotten. -/
  cites : ∀ b tx isLocal reason, p.store.verdicts.peek? tx.id = some reason →
    ∃ verdicts, (∀ id, verdicts.peek? id = p.store.verdicts.peek? id) ∧
      p.add b tx isLocal
        = ({ p with store := { p.store with verdicts } }, .error (.previouslyRejected reason))

/-- **What is remembered is cited.** -/
theorem Orderly.add_of_verdict (hp : p.Orderly) (hapart : Apart p.store)
    (hverdict : p.store.verdicts.peek? tx.id = some reason) (b : TransferBackend) (isLocal : Bool) :
    p.add b tx isLocal
      = ({ p with store := (p.store.verdict tx.id).1 }, .error (.previouslyRejected reason)) := by
  apply hp.add_of_peek? ?_ hverdict
  cases he : p.store.get? tx.id with
  | none => rfl
  | some e =>
    rw [hapart tx.id e he] at hverdict
    cases hverdict

theorem Orderly.keepsVerdicts (hp : p.Orderly) (h : Remembers p.store capacity rulings)
    (hapart : Apart p.store) : p.KeepsVerdicts capacity rulings where
  apart id hid := by
    obtain ⟨e, he⟩ := exists_get?_of_has hid
    exact hapart id e he
  duplicate b _ isLocal hid := add_of_has hp.coherent hid b isLocal
  remembered_iff _ _ := Lru.Recalls.peek?_iff h mem_of_lastVerdict?
  cites b tx isLocal _ hverdict :=
    ⟨p.store.verdicts.touch tx.id, p.store.verdicts.peek?_touch tx.id,
      hp.add_of_verdict hapart hverdict b isLocal⟩

/-- **A pool and its memory stay apart**, and the memory is of what was said last,
whatever was asked of the pool and whoever listens to it. -/
theorem keepsVerdicts_of_run {settings : MempoolSettings} {salts : Nat → Salt}
    (hnew : new settings salts = .ok p) (actions : List Action) (bus : Bus) :
    ({ p.run actions with bus } : Mempool).KeepsVerdicts (max 1 settings.verdicts)
      (p.rulings actions) := by
  have hempty : Apart p.store := fun id e he => absurd he (get?_new hnew id e)
  obtain ⟨hremembers, hapart⟩ := (orderly_new hnew).remembers_run (remembers_new hnew) hempty actions
  rw [List.append_nil] at hremembers
  exact (((orderly_new hnew).run actions).with_bus bus).keepsVerdicts hremembers hapart

end

/-- A small pool that refused the second of two rivals keeps knowing the first, and cites
its verdict on the second. -/
theorem keepsVerdicts_of_pair :
    ∃ p q : Mempool, new .small (fun _ => default) = .ok p ∧ q = p.run (rivalOffers 2 1) ∧
      q.KeepsVerdicts 8 (p.rulings (rivalOffers 2 1)) ∧
      ∃ ids, ∀ b isLocal,
        (q.add b rivalPair.2 isLocal).2 = .error (.duplicate rivalPair.2.id) ∧
        (q.add b rivalPair.1 isLocal).2
          = .error (.previouslyRejected (MempoolError.conflict ids).message) := by
  obtain ⟨p, hnew⟩ := exists_new_small
  let b : TransferBackend := ⟨fun _ => .ok (), fun _ => 0⟩
  let first := (p.add b rivalPair.2 true).1
  let q := (first.add b rivalPair.1 true).1
  have hkeeps : q.KeepsVerdicts 8 (p.rulings (rivalOffers 2 1)) :=
    keepsVerdicts_of_run hnew (rivalOffers 2 1) q.bus
  have hahead : ¬rivalPair.2.nonce < b.nonce rivalPair.2.account := by decide
  have hrival : first.Rival rivalPair.1 rivalPair.2.id ⟨rivalPair.2, rivalPair.2.id, true, 0, false⟩ :=
    rival_add_of_new hnew rfl hahead (List.mem_singleton_self _) (List.mem_singleton_self _)
  have horderly : first.Orderly := (orderly_new hnew).add b rivalPair.2 true
  have herror : (first.add b rivalPair.1 true).2 = .error (.conflict (first.store.rivals rivalPair.1)) := by
    apply horderly.add_of_rival (has_add_of_new hnew rfl hahead ids_rivalPair.symm)
      (peek?_add_of_new hnew rfl hahead true _) rfl (by decide) hrival (Or.inr (by decide))
  have hrulings : p.rulings (rivalOffers 2 1)
      = [.pronounced rivalPair.1.id (MempoolError.conflict (first.store.rivals rivalPair.1)).message] := by
    show ([] ++ (Ruling.ofAnswer rivalPair.1.id (first.add b rivalPair.1 true).2).toList)
      ++ (Ruling.ofAnswer rivalPair.2.id (p.add b rivalPair.2 true).2).toList = _
    rw [herror, ok_add_of_new hnew rfl hahead]
    rfl
  have hcited : q.store.verdicts.peek? rivalPair.1.id
      = some (MempoolError.conflict (first.store.rivals rivalPair.1)).message := by
    rw [hkeeps.remembered_iff, hrulings]
    simp [lastVerdict?, Ruling.reason?, Lru.othersSince, Ruling.id]
  have hheld : q.has rivalPair.2.id = true := by
    obtain ⟨filter, verdicts, n, hsame⟩ := horderly.exists_add_eq_of_error herror
    show (first.add b rivalPair.1 true).1.has rivalPair.2.id = true
    unfold has
    rw [TransferStore.contains_eq_isSome, hsame]
    show (first.store.get? rivalPair.2.id).isSome = true
    rw [hrival.1]
    rfl
  refine ⟨p, q, hnew, rfl, hkeeps, first.store.rivals rivalPair.1, fun b isLocal => ⟨?_, ?_⟩⟩
  · rw [hkeeps.duplicate b rivalPair.2 isLocal hheld]
  · obtain ⟨verdicts, _, hcites⟩ := hkeeps.cites b rivalPair.1 isLocal _ hcited
    rw [hcites]

end Mempool

end TxRelay
