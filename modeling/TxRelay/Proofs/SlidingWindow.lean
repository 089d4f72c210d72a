/-
What a throttle writes down.

Calls and disconnections come in any order, of any keys, while time does not run
backwards. Each call is written down with its answer, and each key that is forgotten. From
what was written the answers follow: a call is allowed exactly if fewer calls of its key
than the limit were allowed, since the key was last forgotten, at times later than a period
before it. A call that is exactly a period old does not count.

What a throttle keeps of a key is the end of what was written of it, so this holds one step
after the other. It follows that no more calls of a key than the limit are allowed within
less than a period, unless the key is forgotten in between.
-/
import Mathlib.Data.List.Induction
import TxRelay.Proofs.Throttle

set_option autoImplicit false

namespace TxRelay.Throttle

/-! ## Runs -/

section
variable {κ : Type}

/-- Something that happens to a throttle: a key calls, or is forgotten
(`SlidingWindowThrottler`). -/
inductive Operation (κ : Type) where
  | call (key : κ) (now : Nat)
  | forget (key : κ)
deriving DecidableEq

/-- When a call is made. -/
def Operation.time? : Operation κ → Option Nat
  | .call _ now => some now
  | .forget _ => none

def Operation.key : Operation κ → κ
  | .call key _ => key
  | .forget key => key

/-- What is written down of it. -/
inductive Entry (κ : Type) where
  | answered (key : κ) (now : Nat) (allowed : Bool)
  | forgotten (key : κ)
deriving DecidableEq

def Entry.key : Entry κ → κ
  | .answered key _ _ => key
  | .forgotten key => key

/-- Time does not run backwards. -/
def InOrder (operations : List (Operation κ)) : Prop :=
  (operations.filterMap Operation.time?).Pairwise (· ≤ ·)

/-- The times of the allowed calls of a key since it was last forgotten, after one more entry. -/
def since [DecidableEq κ] (key : κ) (times : List Nat) : Entry κ → List Nat
  | .answered other now allowed => if other = key ∧ allowed = true then times ++ [now] else times
  | .forgotten other => if other = key then [] else times

/-- **The allowed calls of a key** since it was last forgotten. -/
def admitted [DecidableEq κ] (key : κ) (entries : List (Entry κ)) : List Nat :=
  entries.foldl (since key) []

variable [Ord κ] [Std.TransOrd κ]

/-- The throttle after something happened to it, and what is written down. -/
def undergo (t : Throttle κ) : Operation κ → Throttle κ × Entry κ
  | .call key now => ((t.handle key now).1, .answered key now (t.handle key now).2)
  | .forget key => (t.forget key, .forgotten key)

/-- The throttle after several such things. -/
def run (t : Throttle κ) (operations : List (Operation κ)) : Throttle κ :=
  operations.foldl (fun t d => (t.undergo d).1) t

/-- **What is written down** of several such things. -/
def log (t : Throttle κ) : List (Operation κ) → List (Entry κ)
  | [] => []
  | d :: rest => (t.undergo d).2 :: log (t.undergo d).1 rest

variable {t : Throttle κ}

/-- What was written first was written of what happened first. -/
theorem log_eq_append {operations : List (Operation κ)} {before after : List (Entry κ)}
    (h : t.log operations = before ++ after) :
    ∃ first later, operations = first ++ later ∧ t.log first = before ∧
      (t.run first).log later = after := by
  induction before generalizing t operations with
  | nil => exact ⟨[], operations, rfl, rfl, h⟩
  | cons e before ih =>
    cases operations with
    | nil => exact absurd h nofun
    | cons d rest =>
      obtain ⟨hhead, htail⟩ := List.cons.inj h
      obtain ⟨first, later, hsplit, hbefore, hafter⟩ := ih htail
      refine ⟨d :: first, later, by rw [hsplit, List.cons_append], ?_, hafter⟩
      rw [log, hhead, hbefore]

end

/-! ## What is kept of a key -/

section
variable {κ : Type} [Ord κ] [Std.TransOrd κ] [Std.LawfulEqOrd κ] [DecidableEq κ]
variable {t : Throttle κ} {key other : κ} {now : Nat} {times : List Nat}

/-- What a throttle keeps after it forgot a key. -/
theorem kept_forget (t : Throttle κ) (key other : κ) :
    (t.forget key).kept other = if key = other then [] else t.kept other := by
  rw [kept, kept, forget, Std.ExtTreeMap.getD_eq_getD_getElem?, Std.ExtTreeMap.getD_eq_getD_getElem?,
    Entries.getElem?_erase]
  split
  · rfl
  · rfl

/-- A key that is forgotten has called never. -/
theorem Granted.forget (t : Throttle κ) (key : κ) (now : Nat) : (t.forget key).Granted key now [] where
  sorted := List.Pairwise.nil
  past := nofun
  kept_eq := by
    refine ⟨[], ?_, nofun⟩
    rw [kept_forget, if_pos rfl]
    rfl

/-- Another key is forgotten. -/
theorem Granted.forget_of_ne (h : t.Granted key now times) (hne : other ≠ key) :
    (t.forget other).Granted key now times where
  sorted := h.sorted
  past := h.past
  kept_eq := by
    rw [kept_forget, if_neg hne]
    exact h.kept_eq

/-- Up to now nothing lies ahead, so what is recent is what is later than a period ago. -/
theorem recent_eq_filter {period : Nat} (hpast : ∀ s ∈ times, s ≤ now) :
    recent period now times = times.filter fun s => now < s + period := by
  apply List.filter_congr
  intro s hs
  have hle := hpast s hs
  rw [decide_eq_decide]
  omega

end

/-! ## One step after the other -/

section
variable {κ : Type} [Ord κ] [Std.TransOrd κ] [DecidableEq κ]
variable {period limit now : Nat} {t : Throttle κ} {entries : List (Entry κ)}

/-- **A throttle agrees with what was written down** up to now: of every key it has let through
the calls that were allowed since it was last forgotten, and these are sparse. -/
structure Agrees (period limit : Nat) (entries : List (Entry κ)) (now : Nat) (t : Throttle κ) : Prop where
  period_eq : t.period = period
  limit_eq : t.limit = limit
  granted : ∀ key, t.Granted key now (admitted key entries)
  sparse : ∀ key, Sparse period limit (admitted key entries)

theorem Agrees.new (period limit now : Nat) :
    Agrees period limit [] now (new period limit : Throttle κ) where
  period_eq := rfl
  limit_eq := rfl
  granted := fun key => Granted.new period limit key now
  sparse := fun _ => Sparse.nil period limit

/-- Time passes. -/
theorem Agrees.later (h : Agrees period limit entries now t) {now' : Nat} (hle : now ≤ now') :
    Agrees period limit entries now' t :=
  ⟨h.period_eq, h.limit_eq, fun key => (h.granted key).later hle, h.sparse⟩

omit [Ord κ] [Std.TransOrd κ] in
theorem admitted_concat (key : κ) (entries : List (Entry κ)) (e : Entry κ) :
    admitted key (entries ++ [e]) = since key (admitted key entries) e := by
  rw [admitted, List.foldl_append, ← admitted]
  rfl

variable [Std.LawfulEqOrd κ]

/-- **A call**, not before the others. -/
theorem Agrees.call (h : Agrees period limit entries now t) (key : κ) :
    Agrees period limit (entries ++ [.answered key now (t.handle key now).2]) now (t.handle key now).1 := by
  obtain ⟨hperiod, hlimit⟩ := limits_handle t key now
  -- What is written of the key is what it is granted, and of other keys nothing is written.
  have hown : admitted key (entries ++ [.answered key now (t.handle key now).2])
      = grant t.period t.limit (admitted key entries) now := by
    have hallowed := (h.granted key).allowed_iff
    simp only [admitted_concat, since, grant, hallowed, true_and]
  have hother : ∀ other, key ≠ other →
      admitted other (entries ++ [.answered key now (t.handle key now).2]) = admitted other entries := by
    intro other hne
    simp only [admitted_concat, since, hne, false_and, if_false]
  constructor
  case period_eq => rw [hperiod, h.period_eq]
  case limit_eq => rw [hlimit, h.limit_eq]
  case granted =>
    intro other
    by_cases hkey : key = other
    · subst hkey
      rw [hown]
      exact (h.granted key).handle
    · rw [hother other hkey]
      exact (h.granted other).handle_of_ne hkey (Nat.le_refl now)
  case sparse =>
    intro other
    by_cases hkey : key = other
    · subst hkey
      rw [hown, h.period_eq, h.limit_eq]
      exact (h.sparse key).grant now
    · rw [hother other hkey]
      exact h.sparse other

/-- **A key is forgotten.** -/
theorem Agrees.forget (h : Agrees period limit entries now t) (key : κ) :
    Agrees period limit (entries ++ [.forgotten key]) now (t.forget key) := by
  constructor
  case period_eq => exact h.period_eq
  case limit_eq => exact h.limit_eq
  case granted =>
    intro other
    rw [admitted_concat, since]
    by_cases hkey : key = other
    · rw [if_pos hkey, ← hkey]
      exact Granted.forget t key now
    · rw [if_neg hkey]
      exact (h.granted other).forget_of_ne hkey
  case sparse =>
    intro other
    rw [admitted_concat, since]
    split
    · exact Sparse.nil period limit
    · exact h.sparse other

/-- **A run** keeps the agreement, up to a time that is not after what comes later. -/
theorem Agrees.run (h : Agrees period limit entries now t) (operations later : List (Operation κ))
    (horder : (now :: (operations ++ later).filterMap Operation.time?).Pairwise (· ≤ ·)) :
    ∃ now', Agrees period limit (entries ++ t.log operations) now' (t.run operations) ∧
      (now' :: later.filterMap Operation.time?).Pairwise (· ≤ ·) := by
  induction operations generalizing entries now t with
  | nil =>
    refine ⟨now, ?_, horder⟩
    rw [log, List.append_nil]
    exact h
  | cons d rest ih =>
    rw [log, List.append_cons]
    cases d with
    | call key s =>
      have hcall : (Operation.call key s).time? = some s := rfl
      rw [List.cons_append, List.filterMap_cons_some hcall] at horder
      have hle : now ≤ s := List.rel_of_pairwise_cons horder List.mem_cons_self
      exact ih ((h.later hle).call key) (List.pairwise_cons.mp horder).2
    | forget key =>
      have hforget : (Operation.forget key).time? = none := rfl
      rw [List.cons_append, List.filterMap_cons_none hforget] at horder
      exact ih (h.forget key) horder

/-! ## What follows from the log -/

omit [Ord κ] [Std.TransOrd κ] [Std.LawfulEqOrd κ] in
/-- Without an entry that it is forgotten, a key only has more calls. -/
theorem admitted_append {key : κ} {stretch : List (Entry κ)} (hstretch : .forgotten key ∉ stretch)
    (entries : List (Entry κ)) :
    admitted key (entries ++ stretch) = admitted key entries ++ admitted key stretch := by
  induction stretch using List.reverseRecOn with
  | nil => simp [admitted]
  | append_singleton stretch e ih =>
    rw [List.mem_append, List.mem_singleton, not_or] at hstretch
    obtain ⟨hbefore, hlast⟩ := hstretch
    rw [← List.append_assoc, admitted_concat, admitted_concat, ih hbefore]
    cases e with
    | answered other now allowed =>
      rw [since, since]
      split
      · rw [List.append_assoc]
      · rfl
    | forgotten other =>
      have hne : other ≠ key := fun heq => hlast (by rw [heq])
      rw [since, since, if_neg hne, if_neg hne]

/-- More times than the limit cannot all lie less than a period apart. -/
theorem Sparse.exists_apart {times window : List Nat} (h : Sparse period limit times)
    (hsub : window.Sublist times) (hmany : limit < window.length) :
    ∃ s ∈ window, ∃ u ∈ window, s + period ≤ u := by
  apply Classical.byContradiction
  intro hnone
  have hclose : ∀ s ∈ window, ∀ u ∈ window, u - s < period := by
    intro s hs u hu
    have hself : ¬s + period ≤ s := fun hle => hnone ⟨s, hs, s, hs, hle⟩
    have hnear : ¬s + period ≤ u := fun hle => hnone ⟨s, hs, u, hu, hle⟩
    omega
  have hfew := h window hsub hclose
  omega

/-- **A log is exact** (`SlidingWindowThrottler::handle`). -/
structure Exact (period limit : Nat) (entries : List (Entry κ)) : Prop where
  /-- A call is allowed exactly if fewer of its key than the limit were allowed, since it was
  last forgotten, at times later than a period before. -/
  allowed_iff : ∀ before key now allowed after, entries = before ++ .answered key now allowed :: after →
    (allowed = true ↔ ((admitted key before).filter fun s => now < s + period).length < limit)
  /-- More allowed calls of a key than the limit, between which it is not forgotten, span at
  least a period. -/
  apart : ∀ before stretch after key, entries = before ++ (stretch ++ after) → .forgotten key ∉ stretch →
    ∀ window : List Nat, window.Sublist (admitted key stretch) → limit < window.length →
      ∃ s ∈ window, ∃ u ∈ window, s + period ≤ u

theorem exact_log (period limit : Nat) {operations : List (Operation κ)} (horder : InOrder operations) :
    Exact period limit ((new period limit : Throttle κ).log operations) := by
  have hstart : ∀ operations : List (Operation κ), InOrder operations →
      (0 :: operations.filterMap Operation.time?).Pairwise (· ≤ ·) := by
    intro operations hoperations
    exact List.pairwise_cons.mpr ⟨fun s _ => Nat.zero_le s, hoperations⟩
  constructor
  case allowed_iff =>
    intro before key now allowed after hlog
    obtain ⟨first, later, rfl, rfl, hafter⟩ := log_eq_append hlog
    obtain ⟨now', hagrees, hlater⟩ := (Agrees.new period limit 0).run first later (hstart _ horder)
    rw [List.nil_append] at hagrees
    -- What comes next is the call.
    cases later with
    | nil => exact absurd hafter nofun
    | cons d rest =>
      obtain ⟨hentry, -⟩ := List.cons.inj hafter
      cases d with
      | forget other => exact absurd hentry nofun
      | call other s =>
        obtain ⟨rfl, rfl, rfl⟩ := Entry.answered.inj hentry
        have hcall : (Operation.call other s).time? = some s := rfl
        rw [List.filterMap_cons_some hcall] at hlater
        have hle : now' ≤ s := List.rel_of_pairwise_cons hlater List.mem_cons_self
        have hgranted := (hagrees.later hle).granted other
        rw [hgranted.allowed_iff, hagrees.period_eq, hagrees.limit_eq, recent_eq_filter hgranted.past]
  case apart =>
    intro before stretch after key hlog hstretch window hsub hmany
    rw [← List.append_assoc] at hlog
    obtain ⟨first, later, rfl, hfirst, -⟩ := log_eq_append hlog
    obtain ⟨now', hagrees, -⟩ := (Agrees.new period limit 0).run first later (hstart _ horder)
    have hsparse := hagrees.sparse key
    rw [List.nil_append, hfirst, admitted_append hstretch] at hsparse
    exact hsparse.exists_apart (hsub.trans (List.sublist_append_right _ _)) hmany

/-! ## Other keys -/

omit [DecidableEq κ] [Std.LawfulEqOrd κ] in
/-- What is written down is about the same key. -/
@[simp] theorem key_undergo (t : Throttle κ) (d : Operation κ) : (t.undergo d).2.key = d.key := by
  cases d with
  | call key now => rfl
  | forget key => rfl

/-- What happens to the key is written down alike of both, and they stay alike. -/
theorem Alike.undergo {d : Operation κ} {t t' : Throttle κ} (h : Alike d.key t t') :
    Alike d.key (t.undergo d).1 (t'.undergo d).1 ∧ (t.undergo d).2 = (t'.undergo d).2 := by
  cases d with
  | call key now =>
    have hanswer : (t.handle key now).2 = (t'.handle key now).2 := h.answer_eq now
    refine ⟨h.handle now, ?_⟩
    rw [Throttle.undergo, Throttle.undergo, hanswer]
  | forget key =>
    refine ⟨⟨h.period_eq, h.limit_eq, ?_⟩, rfl⟩
    show (t.forget key).kept key = (t'.forget key).kept key
    rw [kept_forget, kept_forget, if_pos rfl, if_pos rfl]

/-- What happens to another key changes nothing. -/
theorem Alike.undergo_of_ne {d : Operation κ} {key : κ} {t t' : Throttle κ} (h : Alike key t t')
    (hne : d.key ≠ key) :
    Alike key (t.undergo d).1 t' := by
  cases d with
  | call other now => exact h.handle_of_ne hne now
  | forget other =>
    have hother : other ≠ key := hne
    refine ⟨h.period_eq, h.limit_eq, ?_⟩
    show (t.forget other).kept key = t'.kept key
    rw [kept_forget, if_neg hother]
    exact h.kept_eq

/-- **What is written down of a key** does not depend on what other keys do. -/
theorem filter_log {key : κ} {t t' : Throttle κ} (h : Alike key t t') (operations : List (Operation κ)) :
    (t.log operations).filter (·.key = key) = t'.log (operations.filter (·.key = key)) := by
  induction operations generalizing t t' with
  | nil => rfl
  | cons d rest ih =>
    rw [log]
    by_cases hkey : d.key = key
    · subst hkey
      obtain ⟨hafter, hentry⟩ := h.undergo
      rw [List.filter_cons_of_pos (by simp), List.filter_cons_of_pos (by simp), log, ih hafter,
        hentry]
    · rw [List.filter_cons_of_neg (by simp [hkey]), List.filter_cons_of_neg (by simp [hkey])]
      exact ih (h.undergo_of_ne hkey)

/-- **Sliding-window throttling is exact**, for every period and limit and whatever is called and
forgotten in whatever order, as long as time does not run backwards; and what other keys do is
no part of it. -/
theorem exact_of_inOrder (period limit : Nat) (operations : List (Operation κ))
    (horder : InOrder operations) :
    Exact period limit ((new period limit : Throttle κ).log operations) ∧
      ∀ key, ((new period limit : Throttle κ).log operations).filter (·.key = key)
        = (new period limit : Throttle κ).log (operations.filter (·.key = key)) :=
  ⟨exact_log period limit horder, fun _ => filter_log ⟨rfl, rfl, rfl⟩ operations⟩

end

/-- Two keys that call at once and one again, too early, in time, and after it was forgotten. -/
def knocking : List (Operation Nat) :=
  [.call 7 0, .call 8 0, .call 7 9, .call 7 10, .forget 7, .call 7 10]

/-- Where one call fits into ten milliseconds, only the second call of the first key is refused. -/
theorem exact_knocking :
    InOrder knocking ∧ (new 10 1 : Throttle Nat).log knocking =
        [.answered 7 0 true, .answered 8 0 true, .answered 7 9 false, .answered 7 10 true, .forgotten 7,
          .answered 7 10 true] ∧
      Exact 10 1 ((new 10 1 : Throttle Nat).log knocking) := by
  have horder : InOrder knocking := by
    rw [InOrder]
    decide
  exact ⟨horder, by decide +kernel, (exact_of_inOrder 10 1 knocking horder).1⟩

end TxRelay.Throttle
