/-
What an outbox sends.

The map of what was sent holds the last ids that the transport took, as many as it
has room for, each once: an id is put in only while it is not there, so putting in
never reorders, and what is forgotten is what was sent longest ago. This also holds
in the middle of a flush, when the first messages of the flush already push out ids
that its last messages were checked against: those were checked before, and are all
different. So whatever is sent differs from as many ids sent before it as the map has
room for.

A flush hands messages to the transport until one is refused or cannot be made. They
hold queued items, each in the layout that the item is read back from.
-/
import Mathlib.Data.List.Flatten
import Mathlib.Data.List.Infix
import TxRelay.Gossip.Outbox
import TxRelay.Proofs.RoundTrip

set_option autoImplicit false

open scoped List

namespace TxRelay

/-! ## Distances -/

section
variable {α : Type} {c : Nat} {x : α} {l latest : List α}

/-- Each member of a list, latest first, differs from the `c` before it. -/
def Spaced (c : Nat) : List α → Prop
  | [] => True
  | x :: earlier => x ∉ earlier.take c ∧ Spaced c earlier

theorem Spaced.of_append (h : Spaced c (latest ++ l)) : Spaced c l := by
  induction latest with
  | nil => exact h
  | cons x rest ih => exact ih h.2

theorem Spaced.nodup_take (h : Spaced c l) : (l.take (c + 1)).Nodup := by
  induction l with
  | nil => exact List.nodup_nil
  | cons x earlier ih =>
    rw [List.take_succ_cons, List.nodup_cons]
    exact ⟨h.1, (ih h.2).sublist (List.take_sublist_take_left (Nat.le_succ c))⟩

/-- **Between two equal members** there are `c` others, all different. -/
theorem Spaced.exists_between {mid : List α} (h : Spaced c (latest ++ x :: (mid ++ x :: l))) :
    ∃ others : List α, others.Nodup ∧ x ∉ others ∧ (∀ y ∈ others, y ∈ mid) ∧ others.length = c := by
  have htail := h.of_append
  have hfar : c ≤ mid.length := by
    refine Nat.le_of_not_lt fun hnear => htail.1 ?_
    rw [List.take_append, List.take_of_length_le (Nat.le_of_lt hnear)]
    refine List.mem_append_right _ ?_
    obtain ⟨n, hn⟩ := Nat.exists_eq_succ_of_ne_zero (Nat.sub_ne_zero_of_lt hnear)
    rw [hn, List.take_succ_cons]
    exact List.mem_cons_self
  have hnodup := htail.nodup_take
  rw [List.take_succ_cons, List.take_append_of_le_length hfar, List.nodup_cons] at hnodup
  exact ⟨mid.take c, hnodup.2, hnodup.1, fun y hy => List.mem_of_mem_take hy, by simp [hfar]⟩

end

/-! ## Repetitions -/

/-- Leaving some out and leaving out repetitions go in either order, if what counts as a
repetition of something is left out along with it. -/
theorem eraseDupsBy_filter {α : Type} {same : α → α → Bool} {keep : α → Bool}
    (hkeep : ∀ x y, same x y = true → keep x = keep y) (l : List α) :
    (l.filter keep).eraseDupsBy same = (l.eraseDupsBy same).filter keep := by
  cases l with
  | nil => rfl
  | cons x rest =>
    rw [List.eraseDupsBy_cons]
    by_cases hx : keep x = true
    · rw [List.filter_cons_of_pos hx, List.filter_cons_of_pos hx, List.eraseDupsBy_cons,
        ← eraseDupsBy_filter hkeep, List.filter_filter, List.filter_filter]
      simp only [Bool.and_comm]
    · -- The repetitions of what is left out are left out anyway.
      have hrest : (rest.filter fun y => decide (same y x = false)).filter keep = rest.filter keep := by
        rw [List.filter_filter]
        apply List.filter_congr
        intro y _
        by_cases hsame : same y x = true
        · simp [hsame, hkeep y x hsame, hx]
        · simp [hsame]
      rw [List.filter_cons_of_neg hx, List.filter_cons_of_neg hx, ← eraseDupsBy_filter hkeep, hrest]
termination_by l.length
decreasing_by
  all_goals exact Nat.lt_succ_of_le (List.length_filter_le _ rest)

/-! ## The map of what was sent -/

namespace Lru

variable {κ ν : Type} [DecidableEq κ] {m : Lru κ ν} {k : κ}

/-- The keys, most recently used first. -/
def keys (m : Lru κ ν) : List κ := m.entries.map Prod.fst

theorem isSome_peek?_iff : (m.peek? k).isSome = true ↔ k ∈ m.keys := by
  rw [peek?, Option.isSome_map, List.find?_isSome, keys, List.mem_map]
  simp

/-- A new key comes first, and the last one goes if there is no room. -/
theorem keys_put_of_fresh (hk : k ∉ m.keys) (v : ν) : (m.put k v).keys = (k :: m.keys).take m.capacity := by
  have hothers : m.others k = m.entries := by
    refine List.filter_eq_self.mpr fun e he => decide_eq_true fun heq => hk ?_
    rw [← heq]
    exact List.mem_map_of_mem he
  rw [keys, put, hothers, List.map_take, List.map_cons, keys]

end Lru

namespace Outbox

/-- **What is remembered** are the last ids that were sent, and these are far apart
(`PushGossiper`). -/
structure Window (c : Nat) (sent : Lru Digest Unit) (latest : List Digest) : Prop where
  capacity_eq : sent.capacity = c
  keys_eq : sent.keys = latest.take c
  spaced : Spaced c latest

section
variable {c : Nat} {sent : Lru Digest Unit} {latest : List Digest}

theorem window_new (memory : Nat) : Window (max 1 memory) (Lru.new memory) [] where
  capacity_eq := rfl
  keys_eq := by rw [List.take_nil]; rfl
  spaced := trivial

theorem Window.put (h : Window c sent latest) {id : Digest} (hid : id ∉ latest.take c) :
    Window c (sent.put id ()) (id :: latest) where
  capacity_eq := h.capacity_eq
  keys_eq := by
    rw [Lru.keys_put_of_fresh (by rwa [h.keys_eq]), h.keys_eq, h.capacity_eq]
    cases c with
    | zero => rfl
    | succ n => rw [List.take_succ_cons, List.take_succ_cons, List.take_take, Nat.min_eq_left (Nat.le_succ n)]
  spaced := ⟨hid, h.spaced⟩

/-- **Ids that were checked at once** and are all different are put in one after the
other. -/
theorem Window.putAll {ids : List Digest} (h : Window c sent latest) (hnodup : ids.Nodup)
    (hfresh : ∀ id ∈ ids, id ∉ latest.take c) :
    Window c (ids.foldl (fun m id => m.put id ()) sent) (ids.reverse ++ latest) := by
  induction ids generalizing sent latest with
  | nil => exact h
  | cons id rest ih =>
    obtain ⟨hid, hrest⟩ := List.nodup_cons.mp hnodup
    rw [List.foldl_cons, List.reverse_cons, List.append_assoc]
    refine ih (h.put (hfresh id List.mem_cons_self)) hrest fun id' hid' hmem => ?_
    -- What pushes others out is itself none of the rest.
    rcases List.mem_cons.mp ((List.take_subset_take_left _ (Nat.le_succ c)) hmem) with heq | hold
    · exact hid (heq ▸ hid')
    · exact hfresh id' (List.mem_cons_of_mem _ hid') hold

end

/-! ## Parcels and messages -/

section
variable {ι : Type} [GossipItem ι] {sent : Lru Digest Unit} {seen : List Digest} {items : List ι}
  {p : Parcel}

/-- A parcel holds an item in its layout. -/
def ParcelOf (x : ι) (p : Parcel) : Prop := GossipItem.gossipId x = p.id ∧ Wire.encode x = .ok p.bytes

theorem parcelOf_of_marshal? {x : ι} {bytes : Bytes} (h : marshal? x = some bytes) :
    ParcelOf x ⟨GossipItem.gossipId x, bytes⟩ := by
  refine ⟨rfl, ?_⟩
  rw [marshal?] at h
  cases hencode : (Wire.encode x) with
  | error fault => rw [hencode] at h; cases h
  | ok b => rw [hencode] at h; rw [← Option.some.inj h]

/-- Parcels are made of queued items that were not sent lately. -/
theorem of_mem_parcels (hp : p ∈ parcels sent seen items) :
    p.id ∉ sent.keys ∧ p.id ∉ seen ∧ ∃ x ∈ items, ParcelOf x p := by
  fun_induction parcels sent seen items with
  | case1 seen => cases hp
  | case2 seen x rest id hskip ih =>
    obtain ⟨hsent, hseen, y, hy, hparcel⟩ := ih hp
    exact ⟨hsent, hseen, y, List.mem_cons_of_mem x hy, hparcel⟩
  | case3 seen x rest id hnew bytes hbytes ih =>
    rcases List.mem_cons.mp hp with rfl | hp
    · rw [Bool.or_eq_true, not_or, Lru.isSome_peek?_iff, List.contains_iff_mem] at hnew
      exact ⟨hnew.1, hnew.2, x, List.mem_cons_self, parcelOf_of_marshal? hbytes⟩
    · obtain ⟨hsent, hseen, y, hy, hparcel⟩ := ih hp
      exact ⟨hsent, fun hmem => hseen (List.mem_cons_of_mem id hmem), y, List.mem_cons_of_mem x hy, hparcel⟩
  | case4 seen x rest id hnew hnone ih =>
    obtain ⟨hsent, hseen, y, hy, hparcel⟩ := ih hp
    exact ⟨hsent, fun hmem => hseen (List.mem_cons_of_mem id hmem), y, List.mem_cons_of_mem x hy, hparcel⟩

/-- No two parcels have one id. -/
theorem nodup_parcels (sent : Lru Digest Unit) (seen : List Digest) (items : List ι) :
    ((parcels sent seen items).map Parcel.id).Nodup := by
  fun_induction parcels sent seen items with
  | case1 seen => exact List.nodup_nil
  | case2 seen x rest id hskip ih => exact ih
  | case3 seen x rest id hnew bytes hbytes ih =>
    rw [List.map_cons, List.nodup_cons]
    refine ⟨fun hmem => ?_, ih⟩
    obtain ⟨p, hp, hid⟩ := List.mem_map.mp hmem
    refine (of_mem_parcels hp).2.1 ?_
    rw [hid]
    exact List.mem_cons_self
  | case4 seen x rest id hnew hnone ih => exact ih

/-- Packing keeps every parcel, in order. -/
theorem flatten_pack (target : Nat) (begun : List Parcel) (size : Nat) (ps : List Parcel) :
    (pack target begun size ps).flatten = begun ++ ps := by
  fun_induction pack target begun size ps with
  | case1 begun size hnone => simpa using hnone
  | case2 begun size hsome => simp
  | case3 begun size p rest begun' size' hfull ih => simp [ih, begun']
  | case4 begun size p rest begun' size' hroom ih => simp [ih, begun']

end

/-! ## A flush -/

/-- A message that is handed to the transport (`PushGossiper::gossip`). -/
structure Handing where
  parcels : List Parcel
  message : Bytes
  /-- Whether the transport takes it. -/
  taken : Bool

/-- **What is handed to the transport**: the messages, in order, up to one that is
refused or cannot be made. -/
def handed (protocol : Wire.Protocol) (answers : Nat → Except GossipError Unit) :
    Nat → List (List Parcel) → List Handing
  | _, [] => []
  | i, ps :: rest =>
    match messageOf protocol ps with
    | .error _ => []
    | .ok message =>
      match answers i with
      | .error _ => [⟨ps, message, false⟩]
      | .ok () => ⟨ps, message, true⟩ :: handed protocol answers (i + 1) rest

/-- What the transport took. -/
def took (hs : List Handing) : List Handing := hs.filter Handing.taken

/-- The ids in messages, in order. -/
def idsAmong (hs : List Handing) : List Digest := hs.flatMap fun h => h.parcels.map Parcel.id

section
variable {protocol : Wire.Protocol} {answers : Nat → Except GossipError Unit} {i : Nat}
  {batches : List (List Parcel)} {h : Handing}

/-- **A flush** gives out the messages that the transport takes, and remembers their
ids. -/
theorem sendAll_spec (sent : Lru Digest Unit) :
    (sendAll protocol answers i sent batches).messages
        = (took (handed protocol answers i batches)).map Handing.message ∧
      (sendAll protocol answers i sent batches).sent
        = (idsAmong (took (handed protocol answers i batches))).foldl (fun m id => m.put id ()) sent := by
  induction batches generalizing i sent with
  | nil => exact ⟨rfl, rfl⟩
  | cons ps rest ih =>
    rw [sendAll, handed]
    cases messageOf protocol ps with
    | error e => exact ⟨rfl, rfl⟩
    | ok message =>
      dsimp only
      cases answers i with
      | error e => exact ⟨rfl, rfl⟩
      | ok _ =>
        obtain ⟨hmessages, hsent⟩ := ih (i := i + 1) (ps.foldl (fun m p => m.put p.id ()) sent)
        have hids : idsAmong (took (⟨ps, message, true⟩ :: handed protocol answers (i + 1) rest))
            = ps.map Parcel.id ++ idsAmong (took (handed protocol answers (i + 1) rest)) := rfl
        refine ⟨congrArg (message :: ·) hmessages, ?_⟩
        dsimp only
        rw [hsent, hids, List.foldl_append, List.foldl_map]

/-- What is handed over are the first batches. -/
theorem handed_prefix :
    (handed protocol answers i batches).map Handing.parcels <+: batches := by
  induction batches generalizing i with
  | nil => exact List.prefix_refl _
  | cons ps rest ih =>
    rw [handed]
    cases messageOf protocol ps with
    | error e => exact List.nil_prefix
    | ok message =>
      dsimp only
      cases answers i with
      | error e => exact List.cons_prefix_cons.mpr ⟨rfl, List.nil_prefix⟩
      | ok _ => exact List.cons_prefix_cons.mpr ⟨rfl, ih⟩

/-- All of them are, if every message can be made and none is refused. -/
theorem parcels_handed (hmade : ∀ ps ∈ batches, ∃ message, messageOf protocol ps = .ok message)
    (hopen : ∀ i, answers i = .ok ()) :
    (handed protocol answers i batches).map Handing.parcels = batches := by
  induction batches generalizing i with
  | nil => rfl
  | cons ps rest ih =>
    obtain ⟨message, hmessage⟩ := hmade ps List.mem_cons_self
    rw [handed, hmessage]
    dsimp only
    rw [hopen i, List.map_cons, ih fun qs hqs => hmade qs (List.mem_cons_of_mem ps hqs)]

theorem messageOf_of_mem (hh : h ∈ handed protocol answers i batches) :
    messageOf protocol h.parcels = .ok h.message := by
  induction batches generalizing i with
  | nil => cases hh
  | cons ps rest ih =>
    rw [handed] at hh
    cases hmessage : messageOf protocol ps with
    | error e =>
      rw [hmessage] at hh
      cases hh
    | ok message =>
      rw [hmessage] at hh
      dsimp only at hh
      cases hanswer : answers i with
      | error e =>
        rw [hanswer] at hh
        rw [List.mem_singleton.mp hh]
        exact hmessage
      | ok _ =>
        rw [hanswer] at hh
        rcases List.mem_cons.mp hh with rfl | hh
        · exact hmessage
        · exact ih hh

end

section
variable {ι : Type} [GossipItem ι] (o : Outbox ι) (target : Nat)
  (answers : Nat → Except GossipError Unit)

/-- What a flush hands to the transport. -/
def handings : List Handing := handed (GossipItem.protocol ι) answers 0 (o.batches target)

/-- **What a flush hands over** are parcels of what is queued, and their ids are all
different and none is remembered. -/
theorem sublist_handings :
    (o.handings target answers).flatMap Handing.parcels <+ parcels o.sent [] o.queued := by
  have hall := flatten_pack target [] 0 (parcels o.sent [] o.queued)
  rw [List.nil_append] at hall
  rw [← hall, List.flatMap_def]
  exact handed_prefix.flatten.sublist

theorem flush_spec :
    (o.flush target answers).2.messages = (took (o.handings target answers)).map Handing.message ∧
      (o.flush target answers).1.sent
        = (idsAmong (took (o.handings target answers))).foldl (fun m id => m.put id ()) o.sent :=
  sendAll_spec o.sent

variable {o target answers}

/-- **After a flush** what is remembered are still the last ids that were sent. -/
theorem Window.flush {c : Nat} {latest : List Digest} (h : Window c o.sent latest) :
    Window c (o.flush target answers).1.sent
      ((idsAmong (took (o.handings target answers))).reverse ++ latest) := by
  have hsublist : idsAmong (took (o.handings target answers)) <+ (parcels o.sent [] o.queued).map Parcel.id := by
    have htaken : took (o.handings target answers) <+ o.handings target answers := List.filter_sublist
    rw [idsAmong, ← List.map_flatMap]
    exact ((htaken.flatMap _).trans (o.sublist_handings target answers)).map _
  rw [(o.flush_spec target answers).2]
  refine h.putAll ((nodup_parcels _ _ _).sublist hsublist) fun id hid hmem => ?_
  obtain ⟨p, hp, rfl⟩ := List.mem_map.mp (hsublist.subset hid)
  refine (of_mem_parcels hp).1 ?_
  rw [h.keys_eq]
  exact hmem

end

/-! ## What is in a message -/

section
variable {ι : Type} [GossipItem ι]

/-- **What a message spells**: there is an announcement in it, and every item in that
can be read. -/
def Spells (message : Bytes) (xs : List ι) : Prop :=
  ∃ payload, message = (GossipItem.protocol ι).tag payload ∧
    ∃ m : Wire.PushMessage, Wire.decode payload = .ok m ∧ m.items.map Wire.decode = xs.map .ok

/-- A message does not spell two things. -/
theorem Spells.unique {message : Bytes} {xs ys : List ι} (hx : Spells message xs)
    (hy : Spells message ys) : ys = xs := by
  obtain ⟨payload, rfl, m, hm, hitems⟩ := hx
  obtain ⟨payload', heq, m', hm', hitems'⟩ := hy
  obtain rfl : payload = payload' := (List.cons.inj heq).2
  obtain rfl : m = m' := Except.ok.inj (hm.symm.trans hm')
  exact List.map_injective_iff.mpr (fun _ _ => Except.ok.inj) (hitems'.symm.trans hitems)

variable [Wire.LawfulLayout ι]

theorem decode_of_parcelOf {x : ι} {p : Parcel} (h : ParcelOf x p) : Wire.decode p.bytes = .ok x := by
  obtain ⟨hfits, hbytes⟩ := Wire.encode_eq_ok_iff.mp h.2
  rw [← hbytes]
  exact Wire.decode_write hfits

/-- Parcels of some items are read back as such items. -/
theorem exists_items {items : List ι} {ps : List Parcel} (hps : ∀ p ∈ ps, ∃ x ∈ items, ParcelOf x p) :
    ∃ xs : List ι, (ps.map Parcel.bytes).map Wire.decode = xs.map .ok ∧
      xs.map GossipItem.gossipId = ps.map Parcel.id ∧ ∀ x ∈ xs, x ∈ items := by
  induction ps with
  | nil => exact ⟨[], rfl, rfl, nofun⟩
  | cons p rest ih =>
    obtain ⟨⟨x, hx, hparcel⟩, hrest⟩ := List.forall_mem_cons.mp hps
    obtain ⟨xs, hdecode, hids, hmem⟩ := ih hrest
    refine ⟨x :: xs, ?_, ?_, List.forall_mem_cons.mpr ⟨hx, hmem⟩⟩
    · rw [List.map_cons, List.map_cons, hdecode, decode_of_parcelOf hparcel, List.map_cons]
    · rw [List.map_cons, List.map_cons, hids, hparcel.1]

/-- **A message that a flush hands over** spells queued items, and these have the ids
that are remembered if it is taken. -/
theorem spells_of_mem_handings {o : Outbox ι} {target : Nat} {answers : Nat → Except GossipError Unit}
    {h : Handing} (hh : h ∈ o.handings target answers) :
    ∃ xs : List ι, Spells h.message xs ∧ xs.map GossipItem.gossipId = h.parcels.map Parcel.id ∧
      ∀ x ∈ xs, x ∈ o.queued := by
  have hparcels : ∀ p ∈ h.parcels, ∃ x ∈ o.queued, ParcelOf x p := fun p hp =>
    (of_mem_parcels ((o.sublist_handings target answers).subset (List.mem_flatMap.mpr ⟨h, hh, hp⟩))).2.2
  obtain ⟨xs, hdecode, hids, hmem⟩ := exists_items hparcels
  refine ⟨xs, ?_, hids, hmem⟩
  have hmessage := messageOf_of_mem hh
  rw [messageOf] at hmessage
  cases hencode : Wire.encode (⟨h.parcels.map Parcel.bytes⟩ : Wire.PushMessage) with
  | error fault =>
    rw [hencode] at hmessage
    cases hmessage
  | ok payload =>
    rw [hencode] at hmessage
    obtain ⟨hfits, hpayload⟩ := Wire.encode_eq_ok_iff.mp hencode
    refine ⟨payload, (Except.ok.inj hmessage).symm, ⟨h.parcels.map Parcel.bytes⟩, ?_, hdecode⟩
    rw [← hpayload]
    exact Wire.decode_write hfits

end

end Outbox

end TxRelay
