/-
How a queue is divided into messages.

What is due are the queued items that were not sent lately, each id once, where it
stands first, and of these the ones that can be written. A repetition is left out even
if the item that stands first cannot be written.

The messages hold what is due, in the order of the queue. A message is closed as soon as
its items have the target size and never later, so each has at least the target but for
the last, and less than the target without its last item. The size that is carried
along is the size of the message that was begun, and this has not reached the target:
that is the invariant of the division.
-/
import Mathlib.Data.List.Forall2
import TxRelay.Proofs.Outbox

set_option autoImplicit false

namespace TxRelay

/-! ## Parts -/

/-- What corresponds to a list that is divided into parts can be divided likewise. -/
theorem exists_parts {α β : Type} {R : α → β → Prop} {l : List α} {parts : List (List β)}
    (h : List.Forall₂ R l parts.flatten) :
    ∃ groups : List (List α), groups.flatten = l ∧ List.Forall₂ (List.Forall₂ R) groups parts := by
  induction parts generalizing l with
  | nil =>
    rw [List.flatten_nil, List.forall₂_nil_right_iff] at h
    exact ⟨[], h.symm, .nil⟩
  | cons part rest ih =>
    rw [List.flatten_cons] at h
    obtain ⟨groups, hflatten, hgroups⟩ := ih (List.forall₂_drop_append l part rest.flatten h)
    refine ⟨l.take part.length :: groups, ?_, .cons (List.forall₂_take_append l part rest.flatten h) hgroups⟩
    rw [List.flatten_cons, hflatten, List.take_append_drop]

theorem map_eq_map_of_forall₂ {α β γ : Type} {R : α → β → Prop} {f : α → γ} {g : β → γ}
    (hfg : ∀ x y, R x y → f x = g y) {l : List α} {l' : List β} (h : List.Forall₂ R l l') :
    l.map f = l'.map g := by
  induction h with
  | nil => rfl
  | cons hxy _ ih => rw [List.map_cons, List.map_cons, hfg _ _ hxy, ih]

namespace Outbox

/-! ## What is due -/

section
variable {ι : Type} [GossipItem ι]

/-- Two items of one id. -/
def sameId (x y : ι) : Bool := GossipItem.gossipId x == GossipItem.gossipId y

/-- Whether an item is due where it stands first, if some ids were seen before. -/
def isDue (sent : Lru Digest Unit) (seen : List Digest) (x : ι) : Bool :=
  !sent.keys.contains (GossipItem.gossipId x) && !seen.contains (GossipItem.gossipId x) && (marshal? x).isSome

/-- What is due among some items. -/
def dueAmong (sent : Lru Digest Unit) (seen : List Digest) (items : List ι) : List ι :=
  (items.eraseDupsBy sameId).filter (isDue sent seen)

/-- **What is due** of a queue: each id once, where it stands first, without the ids that
were sent lately and the items that cannot be written. -/
def due (o : Outbox ι) : List ι :=
  (o.queued.eraseDupsBy sameId).filter fun x =>
    !o.sent.keys.contains (GossipItem.gossipId x) && (marshal? x).isSome

variable {sent : Lru Digest Unit} {seen : List Digest} {x y : ι} {items : List ι}

theorem isDue_iff : isDue sent seen x = true ↔
    GossipItem.gossipId x ∉ sent.keys ∧ GossipItem.gossipId x ∉ seen ∧ (marshal? x).isSome = true := by
  simp [isDue, and_assoc]

/-- After an item only items of other ids are due. -/
theorem isDue_cons : isDue sent (GossipItem.gossipId x :: seen) y = (isDue sent seen y && !sameId y x) := by
  by_cases hyx : GossipItem.gossipId y = GossipItem.gossipId x
  · simp [isDue, sameId, hyx]
  · simp [isDue, sameId, hyx]

theorem due_eq (o : Outbox ι) : o.due = dueAmong o.sent [] o.queued := by
  rw [due, dueAmong]
  apply List.filter_congr
  intro x _
  simp [isDue]

/-- What comes after an item is due only under other ids. -/
theorem dueAmong_cons (sent : Lru Digest Unit) (seen : List Digest) (x : ι) (items : List ι) :
    dueAmong sent seen (x :: items) =
      (if isDue sent seen x then [x] else []) ++ dueAmong sent (GossipItem.gossipId x :: seen) items := by
  have hsame : ∀ y z : ι, sameId y z = true → decide (sameId y x = false) = decide (sameId z x = false) := by
    intro y z hyz
    have hid : GossipItem.gossipId y = GossipItem.gossipId z := by simpa [sameId] using hyz
    simp [sameId, hid]
  have hrest : dueAmong sent (GossipItem.gossipId x :: seen) items
      = ((items.eraseDupsBy sameId).filter fun y => decide (sameId y x = false)).filter (isDue sent seen) := by
    rw [dueAmong, List.filter_filter]
    apply List.filter_congr
    intro y _
    rw [isDue_cons]
    simp
  rw [hrest, dueAmong, List.eraseDupsBy_cons, eraseDupsBy_filter hsame, List.filter_cons]
  by_cases hx : isDue sent seen x = true
  · simp [hx]
  · simp [hx]

/-- An id that was sent lately, or that was seen, need not be seen again. -/
theorem dueAmong_see (hold : GossipItem.gossipId x ∈ sent.keys ∨ GossipItem.gossipId x ∈ seen)
    (items : List ι) :
    dueAmong sent (GossipItem.gossipId x :: seen) items = dueAmong sent seen items := by
  rw [dueAmong, dueAmong]
  apply List.filter_congr
  intro y _
  rw [isDue_cons]
  by_cases hyx : GossipItem.gossipId y = GossipItem.gossipId x
  · -- Such an item is not due anyway.
    have hnot : ¬isDue sent seen y = true := by
      rw [isDue_iff, hyx]
      tauto
    simp [hnot]
  · simp [sameId, hyx]

/-- **The parcels are those of what is due**, in order. -/
theorem forall₂_parcels (sent : Lru Digest Unit) (seen : List Digest) (items : List ι) :
    List.Forall₂ ParcelOf (dueAmong sent seen items) (parcels sent seen items) := by
  fun_induction parcels sent seen items with
  | case1 seen => exact .nil
  | case2 seen x rest id hskip ih =>
    rw [Bool.or_eq_true, Lru.isSome_peek?_iff, List.contains_iff_mem] at hskip
    have hnot : ¬isDue sent seen x = true := by
      rw [isDue_iff]
      tauto
    rw [dueAmong_cons, if_neg hnot, List.nil_append, dueAmong_see hskip]
    exact ih
  | case3 seen x rest id hnew bytes hbytes ih =>
    rw [Bool.or_eq_true, not_or, Lru.isSome_peek?_iff, List.contains_iff_mem] at hnew
    have hdue : isDue sent seen x = true := isDue_iff.mpr ⟨hnew.1, hnew.2, by rw [hbytes]; rfl⟩
    rw [dueAmong_cons, if_pos hdue]
    exact .cons (parcelOf_of_marshal? hbytes) ih
  | case4 seen x rest id hnew hnone ih =>
    have hnot : ¬isDue sent seen x = true := by
      rw [isDue_iff, hnone]
      simp
    rw [dueAmong_cons, if_neg hnot, List.nil_append]
    exact ih

end

/-! ## Messages -/

/-- How many bytes the items in a message have. -/
def weight (ps : List Parcel) : Nat := (ps.flatMap Parcel.bytes).length

theorem weight_concat (ps : List Parcel) (p : Parcel) : weight (ps ++ [p]) = weight ps + p.bytes.length := by
  simp [weight]

theorem weight_dropLast_le (ps : List Parcel) : weight ps.dropLast ≤ weight ps := by
  rcases List.eq_nil_or_concat ps with rfl | ⟨begun, p, rfl⟩
  · exact Nat.le_refl _
  · rw [List.concat_eq_append, List.dropLast_concat, weight_concat]
    omega

/-- **Each message is closed in time**: as soon as its items have the target size, and not
before, but for the last message, after which there is nothing (`PushGossiper::batch`). -/
structure ClosedInTime (target : Nat) (messages : List (List Parcel)) : Prop where
  ne_nil : ∀ ps ∈ messages, ps ≠ []
  full : ∀ ps ∈ messages.dropLast, target ≤ weight ps
  lean : ∀ ps ∈ messages, ps.dropLast = [] ∨ weight ps.dropLast < target

section
variable {target size : Nat} {begun ps : List Parcel} {messages : List (List Parcel)}

theorem closedInTime_nil (target : Nat) : ClosedInTime target [] := ⟨nofun, nofun, nofun⟩

/-- The last message may be closed before it has the target size. -/
theorem closedInTime_singleton (hne : ps ≠ []) (hlean : ps.dropLast = [] ∨ weight ps.dropLast < target) :
    ClosedInTime target [ps] where
  ne_nil := by simpa using hne
  full := nofun
  lean := by simpa using hlean

theorem ClosedInTime.cons (h : ClosedInTime target messages) (hne : ps ≠ []) (hfull : target ≤ weight ps)
    (hlean : ps.dropLast = [] ∨ weight ps.dropLast < target) : ClosedInTime target (ps :: messages) where
  ne_nil := List.forall_mem_cons.mpr ⟨hne, h.ne_nil⟩
  full := by
    intro qs hqs
    by_cases hlast : messages = []
    · rw [hlast] at hqs
      cases hqs
    · rw [List.dropLast_cons_of_ne_nil hlast] at hqs
      exact (List.forall_mem_cons (p := (target ≤ weight ·))).mpr ⟨hfull, h.full⟩ qs hqs
  lean := List.forall_mem_cons.mpr ⟨hlean, h.lean⟩

/-- **Packing closes each message in time**, on top of a message that was begun and has not
reached the target. -/
theorem closedInTime_pack (hsize : size = weight begun) (hlean : begun = [] ∨ weight begun < target)
    (ps : List Parcel) : ClosedInTime target (pack target begun size ps) := by
  fun_induction pack target begun size ps with
  | case1 begun size hnone => exact closedInTime_nil target
  | case2 begun size hsome =>
    have hne : begun ≠ [] := by simpa using hsome
    refine closedInTime_singleton hne (Or.inr ?_)
    exact Nat.lt_of_le_of_lt (weight_dropLast_le begun) (hlean.resolve_left hne)
  | case3 begun size p rest begun' size' hfull ih =>
    have hsize' : size' = weight begun' := by rw [weight_concat, ← hsize]
    refine (ih rfl (Or.inl rfl)).cons (by simp [begun']) (by omega) ?_
    rwa [List.dropLast_concat]
  | case4 begun size p rest begun' size' hroom ih =>
    have hsize' : size' = weight begun' := by rw [weight_concat, ← hsize]
    exact ih hsize' (Or.inr (by omega))

end

section
variable {ι : Type} [GossipItem ι]

/-- **The messages hold what is due**, in order. -/
theorem forall₂_batches (o : Outbox ι) (target : Nat) :
    List.Forall₂ ParcelOf o.due (o.batches target).flatten := by
  rw [batches, flatten_pack, List.nil_append, due_eq]
  exact forall₂_parcels o.sent [] o.queued

/-- No id is in the messages twice. -/
theorem nodup_batches (o : Outbox ι) (target : Nat) :
    ((o.batches target).flatten.map Parcel.id).Nodup := by
  rw [batches, flatten_pack, List.nil_append]
  exact nodup_parcels o.sent [] o.queued

theorem closedInTime_batches (o : Outbox ι) (target : Nat) : ClosedInTime target (o.batches target) :=
  closedInTime_pack rfl (Or.inl rfl) _

/-- **How a flush hands over the messages that a queue makes**: the first of them, each as its
bytes, up to one that cannot be made or that is refused (`PushGossiper::gossip`). -/
structure HandsOver (o : Outbox ι) (target : Nat) (answers : Nat → Except GossipError Unit) : Prop where
  first : (o.handings target answers).map Handing.parcels <+: o.batches target
  made : ∀ h ∈ o.handings target answers, messageOf (GossipItem.protocol ι) h.parcels = .ok h.message
  /-- The flush gives out those that the transport takes. -/
  taken : (o.flush target answers).2.messages = (took (o.handings target answers)).map Handing.message
  /-- Every message is handed over if each can be made and none is refused. -/
  all : (∀ ps ∈ o.batches target, ∃ message, messageOf (GossipItem.protocol ι) ps = .ok message) →
    (∀ i, answers i = .ok ()) → (o.handings target answers).map Handing.parcels = o.batches target

theorem handsOver (o : Outbox ι) (target : Nat) (answers : Nat → Except GossipError Unit) :
    o.HandsOver target answers where
  first := handed_prefix
  made _ hh := messageOf_of_mem hh
  taken := (o.flush_spec target answers).1
  all := parcels_handed

/-- **A flush divides what is due.** It empties the queue; the messages that it makes hold
what is due, in order, each item with its id; each message is closed in time; and these are the
messages that it hands to the transport. -/
theorem divides_what_is_due (o : Outbox ι) (target : Nat) (answers : Nat → Except GossipError Unit) :
    (o.flush target answers).1.queued = [] ∧
      (∃ groups : List (List ι), groups.flatten = o.due ∧
        List.Forall₂ (List.Forall₂ ParcelOf) groups (o.batches target) ∧
        groups.map (List.map GossipItem.gossipId) = (o.batches target).map (List.map Parcel.id)) ∧
      ClosedInTime target (o.batches target) ∧ o.HandsOver target answers := by
  obtain ⟨groups, hflatten, hgroups⟩ := exists_parts (o.forall₂_batches target)
  refine ⟨rfl, ⟨groups, hflatten, hgroups, ?_⟩, o.closedInTime_batches target, o.handsOver target answers⟩
  apply map_eq_map_of_forall₂ _ hgroups
  intro xs ps hparcels
  exact map_eq_map_of_forall₂ (fun _ _ hparcel => hparcel.1) hparcels

end

end Outbox

end TxRelay
