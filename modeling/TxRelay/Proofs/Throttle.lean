/-
What a throttle grants.

The times that a throttle keeps for a key are the last of those at which it let
the key through, and the others are at least a period old. Time runs forward, so
those never count again: a call is let through exactly if fewer calls of its key
than the limit were let through less than a period ago. What other keys do is
no part of this. It follows that of the calls of a key that were let through,
no more than the limit lie less than a period apart.
-/
import TxRelay.Proofs.Entries
import TxRelay.Throttle

set_option autoImplicit false

namespace TxRelay.Throttle

/-! ## Windows -/

/-- The times less than a period ago. -/
def recent (period now : Nat) (times : List Nat) : List Nat :=
  times.filter fun s => now - s < period

/-- The times at which calls were let through, after one more call: it is let
through exactly if fewer than the limit are recent. -/
def grant (period limit : Nat) (times : List Nat) (now : Nat) : List Nat :=
  if (recent period now times).length < limit then times ++ [now] else times

/-- Times that all lie less than a period apart are no more than the limit. -/
def Sparse (period limit : Nat) (times : List Nat) : Prop :=
  ∀ window : List Nat, window.Sublist times → (∀ s ∈ window, ∀ t ∈ window, t - s < period) →
    window.length ≤ limit

section
variable {period limit now : Nat} {times : List Nat}

theorem Sparse.nil (period limit : Nat) : Sparse period limit [] := by
  intro window hsub _
  rw [List.sublist_nil.mp hsub]
  exact Nat.zero_le limit

theorem Sparse.sublist {times' : List Nat} (h : Sparse period limit times)
    (hsub : times'.Sublist times) : Sparse period limit times' :=
  fun window hwindow => h window (hwindow.trans hsub)

/-- One more time, while fewer than the limit are recent. -/
theorem Sparse.concat (h : Sparse period limit times)
    (hroom : (recent period now times).length < limit) : Sparse period limit (times ++ [now]) := by
  intro window hsub hclose
  obtain ⟨old, last, rfl, hold, hlast⟩ := List.sublist_append_iff.mp hsub
  cases last with
  | nil =>
    rw [List.append_nil] at hclose ⊢
    exact h old hold hclose
  | cons s rest =>
    obtain ⟨rfl, rfl⟩ : s = now ∧ rest = [] := by
      have hlength := hlast.length_le
      obtain rfl : rest = [] := List.eq_nil_of_length_eq_zero (by
        rw [List.length_cons, List.length_singleton] at hlength
        omega)
      exact ⟨List.mem_singleton.mp (hlast.subset List.mem_cons_self), rfl⟩
    -- What lies in one window with the new time is recent.
    have hrecent : old.Sublist (recent period s times) := by
      refine List.sublist_filter_iff.mpr ⟨old, hold, (List.filter_eq_self.mpr fun t ht => ?_).symm⟩
      exact decide_eq_true
        (hclose t (List.mem_append_left _ ht) s (List.mem_append_right _ List.mem_cons_self))
    rw [List.length_append, List.length_singleton]
    exact Nat.succ_le_of_lt (Nat.lt_of_le_of_lt hrecent.length_le hroom)

theorem Sparse.grant (h : Sparse period limit times) (now : Nat) :
    Sparse period limit (grant period limit times now) := by
  rw [Throttle.grant]
  split
  · next hroom => exact h.concat hroom
  · exact h

/-- In a list that is in order, what is at least a period old comes first. -/
theorem fresh_eq_recent (hsorted : times.Pairwise (· ≤ ·)) :
    fresh period now times = recent period now times := by
  induction times with
  | nil => rfl
  | cons s rest ih =>
    obtain ⟨hle, hrest⟩ := List.pairwise_cons.mp hsorted
    by_cases hold : period ≤ now - s
    · have hnot : ¬decide (now - s < period) = true := by simpa using hold
      have hrecent : recent period now (s :: rest) = recent period now rest :=
        List.filter_cons_of_neg hnot
      rw [hrecent, fresh, List.dropWhile_cons_of_pos (by simpa using hold)]
      exact ih hrest
    · -- The first one counts, so the later ones do as well.
      rw [fresh, List.dropWhile_cons_of_neg (by simpa using hold)]
      refine (List.filter_eq_self.mpr fun t ht => decide_eq_true ?_).symm
      rcases List.mem_cons.mp ht with rfl | hmem
      · omega
      · have hlater := hle t hmem
        omega

end

/-! ## Calls -/

variable {κ : Type} [Ord κ] [Std.TransOrd κ]

/-- The times that a throttle keeps for a key. -/
def kept (t : Throttle κ) (key : κ) : List Nat := t.accepted.getD key []

theorem kept_new (period limit : Nat) (key : κ) : (new period limit : Throttle κ).kept key = [] :=
  Std.ExtTreeMap.getD_empty

/-- A call is let through if fewer of the times that still count are kept than
the limit. -/
theorem snd_handle (t : Throttle κ) (key : κ) (now : Nat) :
    (t.handle key now).2 = decide ((fresh t.period now (t.kept key)).length < t.limit) := by
  rw [handle, ← kept]
  split
  · next hfull => exact (decide_eq_false (Nat.not_lt.mpr hfull)).symm
  · next hroom => exact (decide_eq_true (Nat.lt_of_not_le hroom)).symm

theorem limits_handle (t : Throttle κ) (key : κ) (now : Nat) :
    (t.handle key now).1.period = t.period ∧ (t.handle key now).1.limit = t.limit := by
  rw [handle]
  split
  · exact ⟨rfl, rfl⟩
  · exact ⟨rfl, rfl⟩

/-- **A throttle has let a key through** at the given times, up to now: it keeps
the last of them, and the others are at least a period old. -/
structure Granted (t : Throttle κ) (key : κ) (now : Nat) (times : List Nat) : Prop where
  sorted : times.Pairwise (· ≤ ·)
  past : ∀ s ∈ times, s ≤ now
  kept_eq : ∃ expired, times = expired ++ t.kept key ∧ ∀ s ∈ expired, t.period ≤ now - s

section
variable {t : Throttle κ} {key other : κ} {now now' : Nat} {times : List Nat}

theorem Granted.new (period limit : Nat) (key : κ) (now : Nat) :
    (new period limit : Throttle κ).Granted key now [] where
  sorted := List.Pairwise.nil
  past := nofun
  kept_eq := ⟨[], (kept_new period limit key).symm, nofun⟩

/-- Time passes. -/
theorem Granted.later (h : t.Granted key now times) (hle : now ≤ now') :
    t.Granted key now' times where
  sorted := h.sorted
  past s hs := Nat.le_trans (h.past s hs) hle
  kept_eq := by
    obtain ⟨expired, heq, hold⟩ := h.kept_eq
    exact ⟨expired, heq, fun s hs => Nat.le_trans (hold s hs) (Nat.sub_le_sub_right hle s)⟩

/-- Of all times the same ones count as of those that are kept. -/
theorem Granted.fresh_kept (h : t.Granted key now times) :
    fresh t.period now (t.kept key) = recent t.period now times := by
  obtain ⟨expired, rfl, hold⟩ := h.kept_eq
  have hexpired : recent t.period now expired = [] :=
    List.filter_eq_nil_iff.mpr fun s hs => by simpa using hold s hs
  have hsplit : recent t.period now (expired ++ t.kept key)
      = recent t.period now expired ++ recent t.period now (t.kept key) := List.filter_append ..
  rw [fresh_eq_recent (List.pairwise_append.mp h.sorted).2.1, hsplit, hexpired, List.nil_append]

/-- **A call is let through** exactly if fewer of its key than the limit were
less than a period ago. -/
theorem Granted.allowed_iff (h : t.Granted key now times) :
    (t.handle key now).2 = true ↔ (recent t.period now times).length < t.limit := by
  rw [snd_handle, h.fresh_kept, decide_eq_true_eq]

variable [Std.LawfulEqOrd κ] [DecidableEq κ]

theorem kept_insert (t : Throttle κ) (key other : κ) (times : List Nat) :
    kept { t with accepted := t.accepted.insert key times } other
      = if key = other then times else t.kept other := by
  rw [kept, kept, Std.ExtTreeMap.getD_eq_getD_getElem?, Std.ExtTreeMap.getD_eq_getD_getElem?,
    Entries.getElem?_insert]
  split
  · rfl
  · rfl

/-- What a throttle keeps after a call. -/
theorem kept_handle (t : Throttle κ) (key other : κ) (now : Nat) :
    (t.handle key now).1.kept other =
      if key = other then
        fresh t.period now (t.kept key) ++ if (t.handle key now).2 then [now] else []
      else t.kept other := by
  rw [snd_handle, handle, ← kept]
  split
  · next hfull =>
    rw [kept_insert, decide_eq_false (Nat.not_lt.mpr hfull), if_neg Bool.false_ne_true, List.append_nil]
  · next hroom => rw [kept_insert, decide_eq_true (Nat.lt_of_not_le hroom), if_pos rfl]

/-- A call of the key. -/
theorem Granted.handle (h : t.Granted key now times) :
    (t.handle key now).1.Granted key now (grant t.period t.limit times now) := by
  have hallowed := h.allowed_iff
  have hkept := kept_handle t key key now
  rw [if_pos rfl, h.fresh_kept] at hkept
  -- What is dropped now is old as well.
  obtain ⟨older, hsplit, hold⟩ :
      ∃ older, times = older ++ recent t.period now times ∧ ∀ s ∈ older, t.period ≤ now - s := by
    refine ⟨times.takeWhile fun s => t.period ≤ now - s, ?_, fun s hs => ?_⟩
    · rw [← fresh_eq_recent h.sorted]
      exact List.takeWhile_append_dropWhile.symm
    · exact of_decide_eq_true (List.all_eq_true.mp List.all_takeWhile s hs)
  rw [grant]
  split
  · next hroom =>
    rw [hallowed.mpr hroom, if_pos rfl] at hkept
    refine ⟨List.pairwise_append.mpr ⟨h.sorted, List.pairwise_singleton _ _, fun s hs u hu => ?_⟩,
      fun s hs => ?_, older, ?_, ?_⟩
    · rw [List.mem_singleton.mp hu]
      exact h.past s hs
    · rcases List.mem_append.mp hs with hbefore | hnew
      · exact h.past s hbefore
      · exact Nat.le_of_eq (List.mem_singleton.mp hnew)
    · rw [hkept, ← List.append_assoc, ← hsplit]
    · rw [(limits_handle t key now).1]
      exact hold
  · next hfull =>
    rw [Bool.eq_false_iff.mpr fun h => hfull (hallowed.mp h), if_neg Bool.false_ne_true,
      List.append_nil] at hkept
    refine ⟨h.sorted, h.past, older, ?_, ?_⟩
    · rw [hkept]
      exact hsplit
    · rw [(limits_handle t key now).1]
      exact hold

/-- A call of another key. -/
theorem Granted.handle_of_ne (h : t.Granted key now times) (hne : other ≠ key) (hle : now ≤ now') :
    (t.handle other now').1.Granted key now' times := by
  obtain ⟨expired, heq, hold⟩ := (h.later hle).kept_eq
  refine ⟨h.sorted, (h.later hle).past, expired, ?_, ?_⟩
  · rw [kept_handle, if_neg hne]
    exact heq
  · rw [(limits_handle t other now').1]
    exact hold

end

/-! ## Two throttles -/

/-- Two throttles that treat a key alike. -/
structure Alike (key : κ) (t t' : Throttle κ) : Prop where
  period_eq : t.period = t'.period
  limit_eq : t.limit = t'.limit
  kept_eq : t.kept key = t'.kept key

section
variable {t t' : Throttle κ} {key other : κ}

/-- They answer it alike, -/
theorem Alike.answer_eq (h : Alike key t t') (now : Nat) : (t.handle key now).2 = (t'.handle key now).2 := by
  rw [snd_handle, snd_handle, h.period_eq, h.limit_eq, h.kept_eq]

variable [Std.LawfulEqOrd κ] [DecidableEq κ]

/-- and go on to treat it alike, -/
theorem Alike.handle (h : Alike key t t') (now : Nat) :
    Alike key (t.handle key now).1 (t'.handle key now).1 := by
  obtain ⟨hperiod, hlimit⟩ := limits_handle t key now
  obtain ⟨hperiod', hlimit'⟩ := limits_handle t' key now
  constructor
  case period_eq => rw [hperiod, hperiod', h.period_eq]
  case limit_eq => rw [hlimit, hlimit', h.limit_eq]
  case kept_eq => rw [kept_handle, kept_handle, h.answer_eq, h.period_eq, h.kept_eq]

/-- also if another key calls one of them. -/
theorem Alike.handle_of_ne (h : Alike key t t') (hne : other ≠ key) (now : Nat) :
    Alike key (t.handle other now).1 t' := by
  obtain ⟨hperiod, hlimit⟩ := limits_handle t other now
  constructor
  case period_eq => rw [hperiod, h.period_eq]
  case limit_eq => rw [hlimit, h.limit_eq]
  case kept_eq => rw [kept_handle, if_neg hne, h.kept_eq]

end

end TxRelay.Throttle
