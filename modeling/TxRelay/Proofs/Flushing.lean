/-
What becomes of a queue that is flushed.

A message has eight bytes of its own, and eight more for each item. So an item that can
be written, and is due, may still be too long for a message, and items that would fit
alone may be too long together. Such a message ends the flush, as one that the transport
refuses does: what was put into it, and into the messages after it, is lost. If the
transport takes everything, then an item is delivered exactly if its own message and all
before it fit, and the flush succeeds exactly if all of them do.
-/
import Mathlib.Data.List.Nodup
import Mathlib.Data.List.TakeWhile
import TxRelay.Proofs.Oversize
import TxRelay.Proofs.Packing

set_option autoImplicit false

namespace TxRelay

theorem exists_of_mem_left {α β : Type} {R : α → β → Prop} {l : List α} {l' : List β} {x : α}
    (h : List.Forall₂ R l l') (hx : x ∈ l) : ∃ y ∈ l', R x y := by
  induction h with
  | nil => cases hx
  | cons hxy _ ih =>
    rcases List.mem_cons.mp hx with rfl | hx
    · exact ⟨_, List.mem_cons_self, hxy⟩
    · obtain ⟨y, hy, hxy⟩ := ih hx
      exact ⟨y, List.mem_cons_of_mem _ hy, hxy⟩

theorem exists_of_mem_right {α β : Type} {R : α → β → Prop} {l : List α} {l' : List β} {y : β}
    (h : List.Forall₂ R l l') (hy : y ∈ l') : ∃ x ∈ l, R x y := by
  have hflip : List.Forall₂ (fun y x => R x y) l' l := h.flip
  exact exists_of_mem_left hflip hy

/-- What is taken from the front while a condition holds. -/
theorem mem_takeWhile_iff {α : Type} {p : α → Bool} {l : List α} {x : α} :
    x ∈ l.takeWhile p ↔ ∃ before after, l = before ++ x :: after ∧ ∀ y ∈ before ++ [x], p y = true := by
  constructor
  · intro hx
    obtain ⟨before, mid, hsplit⟩ := List.append_of_mem hx
    have hall : ∀ y ∈ l.takeWhile p, p y = true := fun y hy => List.mem_takeWhile_imp hy
    refine ⟨before, mid ++ l.dropWhile p, ?_, ?_⟩
    · rw [← List.cons_append, ← List.append_assoc, ← hsplit, List.takeWhile_append_dropWhile]
    · intro y hy
      apply hall
      rw [hsplit]
      simp only [List.mem_append, List.mem_cons] at hy ⊢
      tauto
  · rintro ⟨before, after, rfl, hall⟩
    rw [List.takeWhile_append_of_pos fun y hy => hall y (List.mem_append_left _ hy),
      List.takeWhile_cons_of_pos (hall x (by simp))]
    simp

namespace Outbox

/-! ## Messages that are not too long -/

/-- **A message fits**: it has eight bytes, and for each item eight more than the item. -/
def Fits (ps : List Parcel) : Prop := 8 + (8 * ps.length + weight ps) ≤ Wire.maxMessageBytes

instance : DecidablePred Fits := fun _ => inferInstanceAs (Decidable (_ ≤ _))

/-- What a message is written as, if it is not too long. -/
def written (protocol : Wire.Protocol) (ps : List Parcel) : Bytes :=
  protocol.tag (Wire.Layout.write (⟨ps.map Parcel.bytes⟩ : Wire.PushMessage))

theorem length_write_message (ps : List Parcel) :
    (Wire.Layout.write (⟨ps.map Parcel.bytes⟩ : Wire.PushMessage)).length = 8 + (8 * ps.length + weight ps) := by
  show (Wire.writeList Wire.writeBytes (ps.map Parcel.bytes)).length = _
  rw [Wire.length_writeList]
  induction ps with
  | nil => rfl
  | cons p rest ih =>
    simp only [weight, List.map_cons, List.flatMap_cons, List.length_append, Wire.length_writeBytes,
      List.length_cons] at ih ⊢
    omega

/-- A message can be made exactly if it fits. -/
theorem messageOf_eq (protocol : Wire.Protocol) (ps : List Parcel) :
    messageOf protocol ps = if Fits ps then .ok (written protocol ps) else .error (.ofFault .sizeLimit) := by
  by_cases hfits : Fits ps
  · have hlength : 8 + (8 * ps.length + weight ps) ≤ Wire.maxMessageBytes := hfits
    rw [if_pos hfits, messageOf, Wire.encode, length_write_message, if_pos hlength]
    rfl
  · have hlength : ¬8 + (8 * ps.length + weight ps) ≤ Wire.maxMessageBytes := hfits
    rw [if_neg hfits, messageOf, Wire.encode, length_write_message, if_neg hlength]

/-- **A transport that takes everything** gets the messages up to the first one that does not
fit, and the flush succeeds if there is none. -/
theorem sendAll_of_open (protocol : Wire.Protocol) {answers : Nat → Except GossipError Unit}
    (hopen : ∀ i, answers i = .ok ()) (i : Nat) (sent : Lru Digest Unit) (batches : List (List Parcel)) :
    (sendAll protocol answers i sent batches).messages
        = (batches.takeWhile fun ps => Fits ps).map (written protocol) ∧
      (sendAll protocol answers i sent batches).result
        = if ∀ ps ∈ batches, Fits ps then .ok batches.flatten.length else .error (.ofFault .sizeLimit) := by
  induction batches generalizing i sent with
  | nil => exact ⟨rfl, by simp [sendAll]⟩
  | cons ps rest ih =>
    rw [sendAll, messageOf_eq]
    by_cases hfits : Fits ps
    · -- The transport takes the first message, and all depends on the rest.
      rw [if_pos hfits]
      dsimp only
      rw [hopen i]
      obtain ⟨hmessages, hresult⟩ := ih (i + 1) (ps.foldl (fun m p => m.put p.id ()) sent)
      constructor
      · simp [hmessages, hfits]
      · dsimp only
        rw [hresult]
        by_cases hrest : ∀ qs ∈ rest, Fits qs
        · rw [if_pos hrest, if_pos (List.forall_mem_cons.mpr ⟨hfits, hrest⟩), List.flatten_cons,
            List.length_append, Nat.add_comm]
          rfl
        · rw [if_neg hrest, if_neg fun hall => hrest (List.forall_mem_cons.mp hall).2]
          rfl
    · rw [if_neg hfits, if_neg fun hall => hfits (List.forall_mem_cons.mp hall).1]
      simp [hfits]

/-! ## What is delivered -/

section
variable {ι : Type} [GossipItem ι]

/-- **An item is in exactly one** of some messages. -/
def InExactlyOne (messages : List Bytes) (x : ι) : Prop :=
  ∃! i : Nat, ∃ message xs, messages[i]? = some message ∧ Spells message xs ∧ x ∈ xs

/-- **What a flush delivers** if the transport takes everything (`PushGossiper::gossip`). -/
structure DeliversWhatFits (o : Outbox ι) (target : Nat) (f : Flush) : Prop where
  /-- It succeeds, with all that was due, exactly if every message fits. -/
  result_eq : f.result = if ∀ ps ∈ o.batches target, Fits ps then .ok o.due.length
    else .error (.ofFault .sizeLimit)
  /-- An item that was due is in exactly one message that the transport took, if its message fits
  and those before it do, and in none otherwise. -/
  delivered_iff : ∀ x ∈ o.due, InExactlyOne f.messages x ↔
    ∃ before ps after, o.batches target = before ++ ps :: after ∧ (∃ p ∈ ps, ParcelOf x p) ∧
      ∀ qs ∈ before ++ [ps], Fits qs
  /-- So nothing that was due is lost if every message fits. -/
  delivered : (∀ ps ∈ o.batches target, Fits ps) → ∀ x ∈ o.due, InExactlyOne f.messages x

variable {o : Outbox ι} {target : Nat} {xs : List ι} {ps : List Parcel} {x : ι}

/-- No id is in two messages. -/
theorem eq_of_mem_messages {messages : List (List Parcel)} (hnodup : (messages.flatten.map Parcel.id).Nodup)
    {i j : Nat} {ps qs : List Parcel} {p q : Parcel} (hi : messages[i]? = some ps)
    (hj : messages[j]? = some qs) (hp : p ∈ ps) (hq : q ∈ qs) (hid : p.id = q.id) : i = j := by
  rw [List.map_flatten, List.nodup_flatten] at hnodup
  have hapart := List.pairwise_iff_getElem.mp hnodup.2
  have hlt : ∀ {i j : Nat} {ps qs : List Parcel} {p q : Parcel}, messages[i]? = some ps →
      messages[j]? = some qs → p ∈ ps → q ∈ qs → p.id = q.id → ¬i < j := by
    intro i j ps qs p q hi hj hp hq hid hij
    obtain ⟨hi', rfl⟩ := List.getElem?_eq_some_iff.mp hi
    obtain ⟨hj', rfl⟩ := List.getElem?_eq_some_iff.mp hj
    have hdisjoint := hapart i j (by simpa using hi') (by simpa using hj') hij
    rw [List.getElem_map, List.getElem_map] at hdisjoint
    exact hdisjoint (List.mem_map_of_mem hp) (hid ▸ List.mem_map_of_mem hq)
  have hle := hlt hi hj hp hq hid
  have hge := hlt hj hi hq hp hid.symm
  omega

variable [Wire.LawfulLayout ι]

/-- A message that fits spells the items that were put into it. -/
theorem spells_written (hparcels : List.Forall₂ ParcelOf xs ps) (hfits : Fits ps) :
    Spells (written (GossipItem.protocol ι) ps) xs := by
  refine ⟨_, rfl, ⟨ps.map Parcel.bytes⟩, Wire.decode_write ?_, ?_⟩
  · rw [length_write_message]
    exact hfits
  · rw [List.map_map]
    exact (map_eq_map_of_forall₂ (fun _ _ h => (decode_of_parcelOf h).symm) hparcels).symm

/-- An item is in a message that fits exactly if it was put into it. -/
theorem mem_spelled_iff (hparcels : List.Forall₂ ParcelOf xs ps) (hfits : Fits ps) :
    (∃ ys, Spells (written (GossipItem.protocol ι) ps) ys ∧ x ∈ ys) ↔ ∃ p ∈ ps, ParcelOf x p := by
  have hspells := spells_written hparcels hfits
  constructor
  · rintro ⟨ys, hys, hx⟩
    rw [hspells.unique hys] at hx
    exact exists_of_mem_left hparcels hx
  · rintro ⟨p, hp, hparcel⟩
    obtain ⟨y, hy, hparcel'⟩ := exists_of_mem_right hparcels hp
    -- The bytes of a parcel spell one item only.
    have hxy : x = y := by
      have hdecode := (decode_of_parcelOf hparcel).symm.trans (decode_of_parcelOf hparcel')
      exact Except.ok.inj hdecode
    exact ⟨xs, hspells, hxy ▸ hy⟩

/-- An item is in exactly one of some messages that fit, if it was put into one of them. -/
theorem inExactlyOne_iff {messages : List (List Parcel)}
    (hfits : ∀ ps ∈ messages, Fits ps ∧ ∃ xs : List ι, List.Forall₂ ParcelOf xs ps)
    (hnodup : (messages.flatten.map Parcel.id).Nodup) :
    InExactlyOne (messages.map (written (GossipItem.protocol ι))) x ↔
      ∃ ps ∈ messages, ∃ p ∈ ps, ParcelOf x p := by
  -- A message holds an item exactly if it was made of a parcel of it, and no two messages share an id.
  have hput : ∀ i : Nat,
      (∃ message ys, (messages.map (written (GossipItem.protocol ι)))[i]? = some message ∧
        Spells message ys ∧ x ∈ ys) ↔ ∃ ps, messages[i]? = some ps ∧ ∃ p ∈ ps, ParcelOf x p := by
    intro i
    rw [List.getElem?_map]
    constructor
    · rintro ⟨message, ys, hmessage, hspelled⟩
      obtain ⟨ps, hi, rfl⟩ := Option.map_eq_some_iff.mp hmessage
      obtain ⟨hps, xs, hparcels⟩ := hfits ps (List.mem_of_getElem? hi)
      exact ⟨ps, hi, (mem_spelled_iff hparcels hps).mp ⟨ys, hspelled⟩⟩
    · rintro ⟨ps, hi, hx⟩
      obtain ⟨hps, xs, hparcels⟩ := hfits ps (List.mem_of_getElem? hi)
      obtain ⟨ys, hspelled⟩ := (mem_spelled_iff hparcels hps).mpr hx
      exact ⟨_, ys, by rw [hi]; rfl, hspelled⟩
  constructor
  · rintro ⟨i, hi, _⟩
    obtain ⟨ps, hps, hx⟩ := (hput i).mp hi
    exact ⟨ps, List.mem_of_getElem? hps, hx⟩
  · rintro ⟨ps, hps, p, hp, hxp⟩
    obtain ⟨i, hi⟩ := List.getElem?_of_mem hps
    refine ⟨i, (hput i).mpr ⟨ps, hi, p, hp, hxp⟩, ?_⟩
    intro j hj
    obtain ⟨qs, hj, q, hq, hxq⟩ := (hput j).mp hj
    exact eq_of_mem_messages hnodup hj hi hq hp (hxq.1.symm.trans hxp.1)

/-- **A transport that takes everything** gets what fits, up to the first message that does
not. -/
theorem delivers_what_fits (o : Outbox ι) (target : Nat) {answers : Nat → Except GossipError Unit}
    (hopen : ∀ i, answers i = .ok ()) : DeliversWhatFits o target (o.flush target answers).2 := by
  obtain ⟨hmessages, hresult⟩ := sendAll_of_open (GossipItem.protocol ι) hopen 0 o.sent
    (o.batches target)
  have hdue := o.forall₂_batches target
  -- The messages that go out hold items that are due.
  have hgroups : ∀ ps ∈ (o.batches target).takeWhile fun ps => Fits ps,
      Fits ps ∧ ∃ xs : List ι, List.Forall₂ ParcelOf xs ps := by
    intro ps hps
    obtain ⟨groups, _, hgroups⟩ := exists_parts hdue
    have hfits : Fits ps := by simpa using List.mem_takeWhile_imp hps
    obtain ⟨xs, _, hparcels⟩ := exists_of_mem_right hgroups ((List.takeWhile_prefix _).subset hps)
    exact ⟨hfits, xs, hparcels⟩
  have hdelivered : ∀ x : ι, InExactlyOne (o.flush target answers).2.messages x ↔
      ∃ ps ∈ (o.batches target).takeWhile fun ps => Fits ps, ∃ p ∈ ps, ParcelOf x p := by
    intro x
    rw [flush, hmessages]
    exact inExactlyOne_iff hgroups
      ((o.nodup_batches target).sublist (((List.takeWhile_prefix _).flatten.sublist).map _))
  refine ⟨?_, ?_, ?_⟩
  · rw [hdue.length_eq]
    exact hresult
  · intro x _
    rw [hdelivered]
    constructor
    · rintro ⟨ps, hps, hx⟩
      obtain ⟨before, after, hsplit, hfits⟩ := mem_takeWhile_iff.mp hps
      exact ⟨before, ps, after, hsplit, hx, fun qs hqs => by simpa using hfits qs hqs⟩
    · rintro ⟨before, ps, after, hsplit, hx, hfits⟩
      exact ⟨ps, mem_takeWhile_iff.mpr ⟨before, after, hsplit, fun qs hqs => by simpa using hfits qs hqs⟩, hx⟩
  · intro hfits x hx
    rw [hdelivered, List.takeWhile_eq_self_iff.mpr (by simpa using hfits)]
    obtain ⟨p, hp, hxp⟩ := exists_of_mem_left hdue hx
    obtain ⟨ps, hps, hp⟩ := List.mem_flatten.mp hp
    exact ⟨ps, hps, p, hp, hxp⟩

end

/-! ## An item that fits in no message -/

section
variable {ι : Type} [GossipItem ι] {sent : Lru Digest Unit} {seen : List Digest} {x : ι} {bytes : Bytes}
  {target : Nat}

/-- An item that is not too long can be written. -/
theorem marshal?_of_length_le (h : (Wire.Layout.write x).length ≤ Wire.maxMessageBytes) :
    marshal? x = some (Wire.Layout.write x) := by
  rw [marshal?, Wire.encode_eq_ok_iff.mpr ⟨h, rfl⟩]
  rfl

/-- An item of a new id is a parcel if it can be written. -/
theorem parcels_cons_of_new (hsent : GossipItem.gossipId x ∉ sent.keys)
    (hseen : GossipItem.gossipId x ∉ seen) (hbytes : marshal? x = some bytes) (rest : List ι) :
    parcels sent seen (x :: rest) =
      ⟨GossipItem.gossipId x, bytes⟩ :: parcels sent (GossipItem.gossipId x :: seen) rest := by
  have hnew : ¬((sent.peek? (GossipItem.gossipId x)).isSome || seen.contains (GossipItem.gossipId x)) = true := by
    rw [Bool.or_eq_true, not_or, Lru.isSome_peek?_iff, List.contains_iff_mem]
    exact ⟨hsent, hseen⟩
  rw [parcels, if_neg hnew, hbytes]

/-- A parcel of the target size that stands first gets a message of its own. -/
theorem pack_of_large {p : Parcel} (hlarge : target ≤ p.bytes.length) (ps : List Parcel) :
    pack target [] 0 (p :: ps) = [p] :: pack target [] 0 ps := by
  have hsize : target ≤ 0 + p.bytes.length := by omega
  rw [pack, if_pos hsize]
  rfl

/-- So does an item of the target size that stands first in a new queue. -/
theorem batches_of_large (hbytes : marshal? x = some bytes) (hlarge : target ≤ bytes.length)
    (rest : List ι) (memory : Nat) :
    (⟨x :: rest, Lru.new memory⟩ : Outbox ι).batches target = [⟨GossipItem.gossipId x, bytes⟩] ::
      pack target [] 0 (parcels (Lru.new memory) [GossipItem.gossipId x] rest) := by
  rw [batches, parcels_cons_of_new List.not_mem_nil List.not_mem_nil hbytes]
  exact pack_of_large hlarge _

end

open Gossiper (spending length_write_spending)

theorem marshal?_spending (count : Nat) (hcount : count ≤ 65530) :
    marshal? (spending count) = some (Wire.Layout.write (spending count)) := by
  apply marshal?_of_length_le
  have hlimit : Wire.maxMessageBytes = 2097152 := rfl
  rw [length_write_spending]
  omega

/-- The longest item that can be written does not fit into a message. -/
theorem fits_spending_iff (count : Nat) (id : Digest) :
    Fits [⟨id, Wire.Layout.write (spending count)⟩] ↔ count ≤ 65529 := by
  have hlimit : Wire.maxMessageBytes = 2097152 := rfl
  have hweight : weight [⟨id, Wire.Layout.write (spending count)⟩] = 192 + 32 * count := by
    simp [weight, length_write_spending]
  rw [Fits, hweight, hlimit, List.length_singleton]
  omega

/-- A transport that takes everything. -/
def takesAll : Nat → Except GossipError Unit := fun _ => .ok ()

/-- A transfer with one input waits. -/
def oneWaiting : Outbox Transfer := ⟨[spending 1], Lru.new 4096⟩

theorem delivers_one_waiting :
    (∀ i, takesAll i = .ok ()) ∧ (oneWaiting.flush 224 takesAll).2.result = .ok 1 ∧
      InExactlyOne (oneWaiting.flush 224 takesAll).2.messages (spending 1) := by
  have hopen : ∀ i, takesAll i = .ok () := fun _ => rfl
  have hdelivers := delivers_what_fits oneWaiting 224 hopen
  have hbytes := marshal?_spending 1 (by omega)
  have hbatches : oneWaiting.batches 224 = [[⟨GossipItem.gossipId (spending 1), _⟩]] :=
    batches_of_large hbytes (by rw [length_write_spending]) [] 4096
  have hfits : ∀ ps ∈ oneWaiting.batches 224, Fits ps := by
    rw [hbatches]
    intro ps hps
    rw [List.mem_singleton.mp hps, fits_spending_iff]
    omega
  have hdue : spending 1 ∈ oneWaiting.due := by
    have hnone : oneWaiting.sent.keys = [] := rfl
    rw [due, List.mem_filter, hnone, hbytes]
    exact ⟨List.mem_singleton_self _, rfl⟩
  refine ⟨hopen, ?_, hdelivers.delivered hfits _ hdue⟩
  rw [hdelivers.result_eq, if_pos hfits, (oneWaiting.forall₂_batches 224).length_eq, hbatches]
  rfl

/-- The longest item that can be written waits, and a short one behind it. -/
def longWaiting : Outbox Transfer := ⟨[spending 65530, spending 1], Lru.new 4096⟩

/-- **An item that can be written** ends a flush if it fits into no message, although the
transport takes everything, and what stands behind it is lost. -/
theorem exists_starving :
    ∃ (o : Outbox Transfer) (target : Nat) (answers : Nat → Except GossipError Unit),
      (∀ i, answers i = .ok ()) ∧ o.queued = [spending 65530, spending 1] ∧
      (∀ x ∈ o.queued, GossipItem.gossipId x ∉ o.sent.keys ∧ (marshal? x).isSome) ∧
      (o.flush target answers).2.result = .error (.ofFault .sizeLimit) ∧
      (o.flush target answers).2.messages = [] := by
  have hopen : ∀ i, takesAll i = .ok () := fun _ => rfl
  have hbytes := marshal?_spending 65530 (Nat.le_refl _)
  have hbatches : longWaiting.batches GossipSettings.standard.targetBytes
      = [⟨GossipItem.gossipId (spending 65530), _⟩] :: _ :=
    batches_of_large hbytes (by rw [length_write_spending]; decide) [spending 1] 4096
  have hlong : ¬Fits [⟨GossipItem.gossipId (spending 65530), Wire.Layout.write (spending 65530)⟩] := by
    rw [fits_spending_iff]
    omega
  obtain ⟨hmessages, hresult⟩ := sendAll_of_open (GossipItem.protocol Transfer) hopen 0 longWaiting.sent
    (longWaiting.batches GossipSettings.standard.targetBytes)
  refine ⟨longWaiting, GossipSettings.standard.targetBytes, takesAll, hopen, rfl, ?_, ?_, ?_⟩
  · intro x hx
    refine ⟨List.not_mem_nil, ?_⟩
    simp only [longWaiting, List.mem_cons, List.not_mem_nil, or_false] at hx
    rcases hx with rfl | rfl
    · rw [hbytes]
      rfl
    · rw [marshal?_spending 1 (by omega)]
      rfl
  · rw [flush, hresult, hbatches, if_neg]
    exact fun hall => hlong (List.forall_mem_cons.mp hall).1
  · rw [flush, hmessages, hbatches, List.takeWhile_cons_of_neg (by simpa using hlong)]
    rfl

end Outbox

end TxRelay
