/-
What the counter of announced items counts, and what is remembered.

A flush hands over one message after the other. What a message held is remembered as soon
as the transport has taken it, but the counter goes up only when the flush is over, and
only if it succeeded. So over any run of a protocol the counter lacks exactly what was
delivered by flushes that ended early, while the memory lacks nothing: what a flush
adds to it are the ids that the flush delivered, the last ones first, as many as there
is room for.
-/
import TxRelay.Proofs.Eviction
import TxRelay.Proofs.Flushing

set_option autoImplicit false

namespace TxRelay

/-- What has room for the latest `n` need not have been given more than `n` before. -/
theorem take_append_take {α : Type} (n : Nat) (l l' : List α) :
    (l ++ l'.take n).take n = (l ++ l').take n := by
  rw [List.take_append, List.take_append, List.take_take, Nat.min_eq_left (Nat.sub_le n l.length)]

namespace Outbox

/-! ## Items in messages -/

/-- How many items there are in messages. -/
def itemsAmong (hs : List Handing) : Nat := (hs.flatMap Handing.parcels).length

theorem itemsAmong_append (hs hs' : List Handing) : itemsAmong (hs ++ hs') = itemsAmong hs + itemsAmong hs' := by
  simp [itemsAmong]

theorem itemsAmong_cons (h : Handing) (hs : List Handing) :
    itemsAmong (h :: hs) = h.parcels.length + itemsAmong hs := by
  simp [itemsAmong]

/-- There are no messages without items. -/
theorem itemsAmong_eq_zero_iff {hs : List Handing} (hne : ∀ h ∈ hs, h.parcels ≠ []) :
    itemsAmong hs = 0 ↔ hs = [] := by
  constructor
  · intro hzero
    cases hs with
    | nil => rfl
    | cons h rest =>
      have hfirst := List.length_pos_iff.mpr (hne h List.mem_cons_self)
      rw [itemsAmong_cons] at hzero
      omega
  · rintro rfl
    rfl

/-- A flush that succeeds returns the number of items that it delivered. -/
theorem eq_itemsAmong_of_result {protocol : Wire.Protocol} {answers : Nat → Except GossipError Unit}
    {i n : Nat} {sent : Lru Digest Unit} {batches : List (List Parcel)}
    (h : (sendAll protocol answers i sent batches).result = .ok n) :
    n = itemsAmong (took (handed protocol answers i batches)) := by
  induction batches generalizing i n sent with
  | nil => exact (Except.ok.inj h).symm
  | cons ps rest ih =>
    rw [sendAll] at h
    rw [handed]
    -- A flush that succeeds gets past its first message: that can be made and is taken.
    cases hmessage : messageOf protocol ps with
    | error e =>
      rw [hmessage] at h
      cases h
    | ok message =>
      rw [hmessage] at h
      dsimp only at h ⊢
      cases hanswer : answers i with
      | error e =>
        rw [hanswer] at h
        cases h
      | ok _ =>
        rw [hanswer] at h
        dsimp only at h ⊢
        -- It returns what the rest returns, and the items of the first message on top.
        cases hrest : (sendAll protocol answers (i + 1)
            (ps.foldl (fun m p => m.put p.id ()) sent) rest).result with
        | error e =>
          rw [hrest] at h
          cases h
        | ok k =>
          rw [hrest] at h
          have hk := ih hrest
          have htook : took (⟨ps, message, true⟩ :: handed protocol answers (i + 1) rest)
              = ⟨ps, message, true⟩ :: took (handed protocol answers (i + 1) rest) := rfl
          have hn : k + ps.length = n := Except.ok.inj h
          rw [htook, itemsAmong_cons]
          show n = ps.length + _
          omega

section
variable {ι : Type} [GossipItem ι] {o : Outbox ι} {target : Nat}
  {answers : Nat → Except GossipError Unit} {h : Handing}

/-- No message that is handed over is empty. -/
theorem parcels_ne_nil_of_mem (hh : h ∈ o.handings target answers) : h.parcels ≠ [] := by
  have hbatch : h.parcels ∈ o.batches target :=
    handed_prefix.subset (List.mem_map_of_mem hh)
  exact (o.closedInTime_batches target).ne_nil _ hbatch

end

end Outbox

namespace Gossiper

open Outbox (Handing Spells Window took idsAmong itemsAmong)

variable {σ ι : Type} [GossipItem ι]

/-! ## One flush -/

/-- What a protocol delivers with a flush: the messages that the transport takes. -/
def delivered (g : Gossiper σ ι) (answers : Nat → Except GossipError Unit) : List Handing :=
  took (g.outbox.handings g.settings.targetBytes answers)

/-- What a protocol delivers with a flush that ends early. -/
def uncounted (g : Gossiper σ ι) (answers : Nat → Except GossipError Unit) : List Handing :=
  match (g.push answers).2.2 with
  | .ok _ => []
  | .error _ => g.delivered answers

/-- **What is left of a flush** (`PushGossiper::gossip`). -/
structure Settles (g : Gossiper σ ι) (answers : Nat → Except GossipError Unit) : Prop where
  /-- What goes out are the messages that the transport takes. -/
  given : (g.push answers).2.1 = (g.delivered answers).map Handing.message
  /-- They spell items of the ids that are noted. -/
  spells : ∀ h ∈ g.delivered answers, ∃ xs : List ι, Spells h.message xs ∧
    xs.map GossipItem.gossipId = h.parcels.map Parcel.id
  /-- What is remembered are the ids in these messages, latest first, and then what was remembered
  before, as far as there is room. -/
  keys_eq : (g.push answers).1.outbox.sent.keys =
    ((idsAmong (g.delivered answers)).reverse ++ g.outbox.sent.keys).take (max 1 g.settings.pushedMemory)
  /-- None of these ids was remembered before. -/
  fresh : ∀ id ∈ idsAmong (g.delivered answers), id ∉ g.outbox.sent.keys
  /-- A flush that succeeds says how many items it has delivered. -/
  returned : ∀ n, (g.push answers).2.2 = .ok n → n = itemsAmong (g.delivered answers)

section
variable {g : Gossiper σ ι} {answers : Nat → Except GossipError Unit} {latest : List Digest}

theorem result_push (g : Gossiper σ ι) (answers : Nat → Except GossipError Unit) :
    (g.push answers).2.2 = (g.outbox.flush g.settings.targetBytes answers).2.result := rfl

/-- **The counter after a flush** lacks what a flush that ends early has delivered. -/
theorem pushed_push (g : Gossiper σ ι) (answers : Nat → Except GossipError Unit) :
    (g.push answers).1.counters.pushed + itemsAmong (g.uncounted answers) =
      g.counters.pushed + itemsAmong (g.delivered answers) := by
  have hpushed : (g.push answers).1.counters.pushed = g.counters.pushed +
      match (g.outbox.flush g.settings.targetBytes answers).2.result with
      | .ok n => n
      | .error _ => 0 := rfl
  rw [uncounted, hpushed, result_push]
  -- Either all that was delivered is added to the counter, or nothing is.
  cases hflush : (g.outbox.flush g.settings.targetBytes answers).2.result with
  | ok n =>
    have hn := Outbox.eq_itemsAmong_of_result hflush
    show g.counters.pushed + n + 0 = _
    rw [hn]
    rfl
  | error e => rfl

theorem mem_delivered_of_mem_uncounted {h : Handing} (hh : h ∈ g.uncounted answers) :
    h ∈ g.delivered answers := by
  rw [uncounted] at hh
  split at hh
  · cases hh
  · exact hh

theorem parcels_ne_nil_of_mem_uncounted {h : Handing} (hh : h ∈ g.uncounted answers) :
    h.parcels ≠ [] :=
  Outbox.parcels_ne_nil_of_mem (List.mem_of_mem_filter (mem_delivered_of_mem_uncounted hh))

/-- **A flush settles its messages**, if what is remembered are the last ids sent. -/
theorem settles [Wire.LawfulLayout ι]
    (h : Window (max 1 g.settings.pushedMemory) g.outbox.sent latest) : g.Settles answers where
  given := (g.outbox.flush_spec g.settings.targetBytes answers).1
  spells := by
    intro hd hhd
    obtain ⟨xs, hspells, hids, _⟩ := Outbox.spells_of_mem_handings (List.mem_of_mem_filter hhd)
    exact ⟨xs, hspells, hids⟩
  keys_eq := by
    -- Whether the memory had been full before does not matter.
    rw [h.keys_eq, take_append_take]
    exact h.flush.keys_eq
  fresh := by
    -- What is handed over was looked up in the memory before the flush.
    intro id hid
    obtain ⟨hd, hhd, hid⟩ := List.mem_flatMap.mp hid
    obtain ⟨p, hp, rfl⟩ := List.mem_map.mp hid
    have hparcel := (g.outbox.sublist_handings g.settings.targetBytes answers).subset
      (List.mem_flatMap.mpr ⟨hd, List.mem_of_mem_filter hhd, hp⟩)
    exact (Outbox.of_mem_parcels hparcel).1
  returned := fun _ hresult => Outbox.eq_itemsAmong_of_result hresult

end

/-! ## Runs -/

/-- Something that happens to what a protocol has to announce (`PushGossiper`). -/
inductive Posting (ι : Type) where
  | queue (items : List ι)
  /-- The transport's answer to each message is given by its number. -/
  | flush (answers : Nat → Except GossipError Unit)

/-- The protocol after something happened to what it has to announce. -/
def post (g : Gossiper σ ι) : Posting ι → Gossiper σ ι
  | .queue items => { g with outbox := g.outbox.add items }
  | .flush answers => (g.push answers).1

/-- The protocol after several such things. -/
def postAll (g : Gossiper σ ι) (postings : List (Posting ι)) : Gossiper σ ι := postings.foldl post g

/-- What the flushes of a run come to, one after the other. -/
def overFlushes (what : Gossiper σ ι → (Nat → Except GossipError Unit) → List Handing) :
    Gossiper σ ι → List (Posting ι) → List Handing
  | _, [] => []
  | g, .queue items :: rest => overFlushes what (g.post (.queue items)) rest
  | g, .flush answers :: rest => what g answers ++ overFlushes what (g.post (.flush answers)) rest

/-- What a run delivers. -/
def deliveredIn (g : Gossiper σ ι) (postings : List (Posting ι)) : List Handing :=
  g.overFlushes delivered postings

/-- What a run delivers with flushes that end early. -/
def uncountedIn (g : Gossiper σ ι) (postings : List (Posting ι)) : List Handing :=
  g.overFlushes uncounted postings

/-- **What is counted over a run** (`GossipMetrics::pushed`). -/
structure CountsPushed (g : Gossiper σ ι) (postings : List (Posting ι)) : Prop where
  /-- The counter lacks what was delivered by flushes that ended early. -/
  pushed_add : (g.postAll postings).counters.pushed + itemsAmong (g.uncountedIn postings)
    = itemsAmong (g.deliveredIn postings)
  /-- So it is the number of items that were delivered exactly if none of these flushes delivered
  anything. -/
  pushed_iff : (g.postAll postings).counters.pushed = itemsAmong (g.deliveredIn postings) ↔
    g.uncountedIn postings = []
  /-- What is remembered are the last ids that were delivered, by whatever flush. -/
  keys_eq : (g.postAll postings).outbox.sent.keys =
    (idsAmong (g.deliveredIn postings)).reverse.take (max 1 g.settings.pushedMemory)

theorem pushed_postAll (g : Gossiper σ ι) (postings : List (Posting ι)) :
    (g.postAll postings).counters.pushed + itemsAmong (g.uncountedIn postings)
      = g.counters.pushed + itemsAmong (g.deliveredIn postings) := by
  induction postings generalizing g with
  | nil => rfl
  | cons posting rest ih =>
    have hrest := ih (g.post posting)
    cases posting with
    | queue items => exact hrest
    | flush answers =>
      have hflush := g.pushed_push answers
      have hpost : (g.post (.flush answers)).counters.pushed = (g.push answers).1.counters.pushed := rfl
      rw [hpost] at hrest
      -- What a run lacks is what its first flush lacks and what the rest lacks.
      show ((g.post (.flush answers)).postAll rest).counters.pushed
        + itemsAmong (g.uncounted answers ++ (g.post (.flush answers)).uncountedIn rest)
          = _ + itemsAmong (g.delivered answers ++ (g.post (.flush answers)).deliveredIn rest)
      rw [Outbox.itemsAmong_append, Outbox.itemsAmong_append]
      omega

theorem parcels_ne_nil_of_mem_uncountedIn {g : Gossiper σ ι} {postings : List (Posting ι)} {h : Handing}
    (hh : h ∈ g.uncountedIn postings) : h.parcels ≠ [] := by
  induction postings generalizing g with
  | nil => cases hh
  | cons posting rest ih =>
    cases posting with
    | queue items => exact ih hh
    | flush answers =>
      rcases List.mem_append.mp hh with hh | hh
      · exact parcels_ne_nil_of_mem_uncounted hh
      · exact ih hh

/-- **What is remembered after a run** are the last ids that were sent. -/
theorem window_postAll {g : Gossiper σ ι} {c : Nat} {latest : List Digest}
    (h : Window c g.outbox.sent latest) (postings : List (Posting ι)) :
    Window c (g.postAll postings).outbox.sent ((idsAmong (g.deliveredIn postings)).reverse ++ latest) := by
  induction postings generalizing g latest with
  | nil => exact h
  | cons posting rest ih =>
    cases posting with
    | queue items => exact ih h
    | flush answers =>
      have hrest := ih (g := g.post (.flush answers)) h.flush
      have hids : idsAmong (g.deliveredIn (.flush answers :: rest))
          = idsAmong (g.delivered answers) ++ idsAmong ((g.post (.flush answers)).deliveredIn rest) :=
        List.flatMap_append
      rw [hids, List.reverse_append, List.append_assoc]
      exact hrest

theorem settings_postAll (g : Gossiper σ ι) (postings : List (Posting ι)) :
    (g.postAll postings).settings = g.settings := by
  induction postings generalizing g with
  | nil => rfl
  | cons posting rest ih =>
    refine (ih (g.post posting)).trans ?_
    cases posting with
    | queue items => rfl
    | flush answers => rfl

theorem countsPushed (settings : GossipSettings) (set : σ) (postings : List (Posting ι)) :
    (new settings set : Gossiper σ ι).CountsPushed postings := by
  have hpushed := (new settings set : Gossiper σ ι).pushed_postAll postings
  have hzero : (new settings set : Gossiper σ ι).counters.pushed = 0 := rfl
  have hnone : itemsAmong ((new settings set : Gossiper σ ι).uncountedIn postings) = 0 ↔
      (new settings set : Gossiper σ ι).uncountedIn postings = [] :=
    Outbox.itemsAmong_eq_zero_iff fun _ => parcels_ne_nil_of_mem_uncountedIn
  have hwindow := window_postAll (g := (new settings set : Gossiper σ ι))
    (Outbox.window_new settings.pushedMemory) postings
  refine ⟨by omega, ?_, ?_⟩
  · rw [← hnone]
    omega
  · rw [hwindow.keys_eq, List.append_nil]
    rfl

/-- **After each flush of a run** the counter is the number of items that were delivered by the
flushes that succeeded, and what the flush itself has delivered is remembered, whether it
succeeded or not. -/
theorem counts_and_remembers [Wire.LawfulLayout ι] (settings : GossipSettings) (set : σ)
    (before : List (Posting ι)) (answers : Nat → Except GossipError Unit) :
    (new settings set : Gossiper σ ι).CountsPushed (before ++ [.flush answers]) ∧
      ((new settings set : Gossiper σ ι).postAll before).Settles answers := by
  refine ⟨countsPushed settings set _, ?_⟩
  have hwindow := window_postAll (g := (new settings set : Gossiper σ ι))
    (Outbox.window_new settings.pushedMemory) before
  apply settles
  rw [settings_postAll]
  exact hwindow

/-! ## A link that goes down in the middle of a flush -/

open Mempool (strangers ids_strangers)

/-- The link takes one message and then no more. -/
def downAfterOne (i : Nat) : Except GossipError Unit :=
  if i = 0 then .ok () else .error (.transport "link down")

/-- A target that every item has, so each is sent in a message of its own. -/
def singly : GossipSettings := { GossipSettings.standard with targetBytes := 1 }

/-- Two transfers are queued. -/
def bothQueued : Posting Transfer := .queue [strangers.1, strangers.2]

theorem length_write_strangers : (Wire.Layout.write strangers.1).length = 192 ∧
    (Wire.Layout.write strangers.2).length = 192 :=
  ⟨Wire.length_write_transfer strangers.1, Wire.length_write_transfer strangers.2⟩

/-- Each of the two is put into a message of its own. -/
theorem batches_both (memory : Nat) :
    (⟨[strangers.1, strangers.2], Lru.new memory⟩ : Outbox Transfer).batches 1 =
      [[⟨strangers.1.id, Wire.Layout.write strangers.1⟩], [⟨strangers.2.id, Wire.Layout.write strangers.2⟩]] := by
  obtain ⟨hfirst, hsecond⟩ := length_write_strangers
  have hlimit : 192 ≤ Wire.maxMessageBytes := by decide
  have hlarge : 1 ≤ (Wire.Layout.write strangers.1).length := by omega
  have hlarge' : 1 ≤ (Wire.Layout.write strangers.2).length := by omega
  have hother : GossipItem.gossipId strangers.2 ∉ [GossipItem.gossipId strangers.1] := by
    rw [List.mem_singleton]
    exact ids_strangers.symm
  rw [Outbox.batches_of_large (Outbox.marshal?_of_length_le (by rwa [hfirst])) hlarge,
    Outbox.parcels_cons_of_new List.not_mem_nil hother (Outbox.marshal?_of_length_le (by rwa [hsecond])),
    Outbox.pack_of_large (p := ⟨_, _⟩) hlarge']
  rfl

/-- Only the first of two messages is taken, and the flush ends with the second. -/
theorem sendAll_both (sent : Lru Digest Unit) {p q : Parcel} (hp : Outbox.Fits [p]) (hq : Outbox.Fits [q]) :
    (Outbox.sendAll .transfers downAfterOne 0 sent [[p], [q]]).result = .error (.transport "link down") ∧
      (took (Outbox.handed .transfers downAfterOne 0 [[p], [q]])).map Handing.parcels = [[p]] := by
  simp only [Outbox.sendAll, Outbox.handed, Outbox.messageOf_eq, if_pos hp, if_pos hq, downAfterOne]
  exact ⟨rfl, rfl⟩

/-- **What comes of it**: one item is delivered, and the flush ends in an error. -/
theorem push_both (p : Mempool) :
    (((new singly p).post bothQueued).push downAfterOne).2.2 = .error (.transport "link down") ∧
      (((new singly p).post bothQueued).delivered downAfterOne).map Handing.parcels
        = [[⟨strangers.1.id, Wire.Layout.write strangers.1⟩]] := by
  obtain ⟨hfirst, hsecond⟩ := length_write_strangers
  have hfits : ∀ x : Transfer, (Wire.Layout.write x).length = 192 →
      Outbox.Fits [⟨x.id, Wire.Layout.write x⟩] := by
    intro x hx
    have hweight : Outbox.weight [⟨x.id, Wire.Layout.write x⟩] = 192 := by simp [Outbox.weight, hx]
    have hlimit : 8 + (8 * 1 + 192) ≤ Wire.maxMessageBytes := by decide
    rw [Outbox.Fits, hweight]
    exact hlimit
  have houtbox : ((new singly p).post bothQueued).outbox
      = ⟨[strangers.1, strangers.2], Lru.new singly.pushedMemory⟩ := rfl
  have htarget : ((new singly p).post bothQueued).settings.targetBytes = 1 := rfl
  have hprotocol : GossipItem.protocol Transfer = .transfers := rfl
  rw [result_push, Outbox.flush, delivered, Outbox.handings, houtbox, htarget, batches_both, hprotocol]
  have hcut := sendAll_both (Lru.new singly.pushedMemory) (hfits strangers.1 hfirst) (hfits strangers.2 hsecond)
  exact hcut

/-- Two transfers are queued, and the link goes down while they are sent. -/
def cutOff : List (Posting Transfer) := [bothQueued, .flush downAfterOne]

/-- One of them is delivered, by a flush that ends early. -/
theorem deliveredIn_cutOff (p : Mempool) :
    itemsAmong ((new singly p).deliveredIn cutOff) = 1 ∧
      idsAmong ((new singly p).deliveredIn cutOff) = [strangers.1.id] ∧
      (new singly p).uncountedIn cutOff = (new singly p).deliveredIn cutOff := by
  obtain ⟨hresult, hparcels⟩ := push_both p
  have hdelivered : (new singly p).deliveredIn cutOff
      = ((new singly p).post bothQueued).delivered downAfterOne := List.append_nil _
  have huncounted : (new singly p).uncountedIn cutOff
      = ((new singly p).post bothQueued).uncounted downAfterOne := List.append_nil _
  refine ⟨?_, ?_, ?_⟩
  · rw [hdelivered, itemsAmong, List.flatMap_def, hparcels]
    rfl
  · rw [hdelivered, idsAmong, ← List.map_flatMap, List.flatMap_def, hparcels]
    rfl
  · rw [hdelivered, huncounted, uncounted, hresult]

/-- So it is remembered, and not counted. -/
theorem remembers_cut_off :
    ∃ p : Mempool, Mempool.new .small (fun _ => default) = .ok p ∧
      ((new singly p).post bothQueued).Settles downAfterOne ∧
      ((new singly p).postAll cutOff).outbox.sent.keys = [strangers.1.id] ∧
      ((new singly p).postAll cutOff).counters.pushed ≠ itemsAmong ((new singly p).deliveredIn cutOff) := by
  obtain ⟨p, hp⟩ := Mempool.exists_new_small
  obtain ⟨hitems, hids, huncounted⟩ := deliveredIn_cutOff p
  have hcounts : (new singly p).CountsPushed cutOff := (counts_and_remembers singly p [bothQueued] downAfterOne).1
  refine ⟨p, hp, (counts_and_remembers singly p [bothQueued] downAfterOne).2, ?_, ?_⟩
  · have hkeys := hcounts.keys_eq
    rw [hids] at hkeys
    exact hkeys
  · intro heq
    have hnone := hcounts.pushed_iff.mp heq
    rw [huncounted] at hnone
    rw [hnone] at hitems
    cases hitems

/-- **An item that was delivered** is not counted, if the link goes down afterwards. -/
theorem exists_uncounted :
    ∃ (p : Mempool) (postings : List (Posting Transfer)), Mempool.new .small (fun _ => default) = .ok p ∧
      ((new singly p).postAll postings).counters.pushed = 0 ∧
      itemsAmong ((new singly p).deliveredIn postings) = 1 := by
  obtain ⟨p, hp⟩ := Mempool.exists_new_small
  obtain ⟨hitems, _, huncounted⟩ := deliveredIn_cutOff p
  have hpushed := (new singly p).pushed_postAll cutOff
  have hzero : (new singly p : Gossiper Mempool Transfer).counters.pushed = 0 := rfl
  rw [huncounted, hitems, hzero] at hpushed
  exact ⟨p, cutOff, hp, by omega, hitems⟩

end Gossiper

end TxRelay
