/-
What a response holds.

A request is answered by a visitor to the collection: it is shown one item after the
other, leaves out what the filter of the request reports, and declines to go on once the
bytes that it took reach the target. So a response holds the shortest part of what is
missing, from the front, that reaches the target. For the pool of transfers the front is
what was let in last.
-/
import TxRelay.Proofs.Answer
import TxRelay.Proofs.Arrivals
import TxRelay.Visit

set_option autoImplicit false

namespace TxRelay

namespace Gossiper

open Bloom (BloomFilter)

variable {σ ι ε : Type} [GossipItem ι]

/-! ## Cutting at the target -/

/-- How many bytes items come to. -/
def bytesOf (items : List ι) : Nat := (items.flatMap Wire.Layout.write).length

/-- **A list is cut at the target**, where `size` bytes are there already. -/
structure Cut (target size : Nat) (all cut : List ι) : Prop where
  /-- The cut is from the front, -/
  front : cut <+: all
  /-- no shorter one that holds anything reaches the target, -/
  below : ∀ shorter, shorter <+: cut → shorter ≠ cut → shorter ≠ [] → size + bytesOf shorter < target
  /-- and it does so itself, unless it is all there is. -/
  ends : cut = all ∨ (cut ≠ [] ∧ target ≤ size + bytesOf cut)

section
variable {target size : Nat} {all cut cut' : List ι}

/-- Of two cuts neither ends before the other. -/
theorem Cut.eq_of_front (h : Cut target size all cut) (h' : Cut target size all cut')
    (hfront : cut <+: cut') : cut = cut' := by
  by_contra hne
  rcases h.ends with rfl | ⟨hsome, hreached⟩
  · exact hne (hfront.eq_of_length_le h'.front.length_le)
  · have hbelow := h'.below cut hfront hne hsome
    omega

theorem Cut.unique (h : Cut target size all cut) (h' : Cut target size all cut') : cut = cut' := by
  rcases List.prefix_or_prefix_of_prefix h.front h'.front with hfront | hfront
  · exact h.eq_of_front h' hfront
  · exact (h'.eq_of_front h hfront).symm

theorem Cut.nil : Cut target size ([] : List ι) [] where
  front := List.prefix_rfl
  below _ hfront _ hsome := absurd (List.prefix_nil.mp hfront) hsome
  ends := Or.inl rfl

/-- It ends with the first item if that reaches the target, -/
theorem Cut.singleton {x : ι} (hfull : target ≤ size + (Wire.Layout.write x).length) (rest : List ι) :
    Cut target size (x :: rest) [x] where
  front := ⟨rest, rfl⟩
  below := by
    intro shorter hfront hne hsome
    rcases List.prefix_cons_iff.mp hfront with rfl | ⟨tail, rfl, htail⟩
    · exact absurd rfl hsome
    · rw [List.prefix_nil.mp htail] at hne
      exact absurd rfl hne
  ends := by
    right
    refine ⟨List.cons_ne_nil _ _, ?_⟩
    unfold bytesOf
    rw [List.flatMap_singleton]
    exact hfull

/-- and goes on with a cut of the others if not. -/
theorem Cut.cons {x : ι} (hroom : size + (Wire.Layout.write x).length < target)
    (h : Cut target (size + (Wire.Layout.write x).length) all cut) :
    Cut target size (x :: all) (x :: cut) := by
  have hsize : ∀ items : List ι, size + bytesOf (x :: items)
      = size + (Wire.Layout.write x).length + bytesOf items := by
    intro items
    unfold bytesOf
    rw [List.flatMap_cons, List.length_append, Nat.add_assoc]
  refine ⟨(List.prefix_cons_inj x).mpr h.front, ?_, ?_⟩
  · intro shorter hfront hne hsome
    rcases List.prefix_cons_iff.mp hfront with rfl | ⟨tail, rfl, htail⟩
    · exact absurd rfl hsome
    · rw [hsize]
      by_cases hnil : tail = []
      · rw [hnil]
        exact hroom
      · exact h.below tail htail (fun heq => hne (by rw [heq])) hnil
  · rcases h.ends with heq | ⟨_, hreached⟩
    · left
      rw [heq]
    · right
      rw [hsize]
      exact ⟨List.cons_ne_nil _ _, hreached⟩

/-- **The selection is cut at the target.** -/
theorem cut_upTo (target size : Nat) (all : List ι) : Cut target size all (upTo target size all) := by
  induction all generalizing size with
  | nil => exact Cut.nil
  | cons x rest ih =>
    unfold upTo
    by_cases hroom : size + (Wire.Layout.write x).length < target
    · rw [if_pos hroom]
      exact (ih (size + (Wire.Layout.write x).length)).cons hroom
    · rw [if_neg hroom]
      exact Cut.singleton (Nat.not_lt.mp hroom) rest

/-- There is no other cut. -/
theorem cut_iff : Cut target size all cut ↔ cut = upTo target size all := by
  constructor
  · intro h
    exact h.unique (cut_upTo target size all)
  · rintro rfl
    exact cut_upTo target size all

end

/-! ## The visitor -/

/-- What is noted on a visit: the bytes so far, the items that were taken, and what went wrong
with the one after them (`GossipHandler::respond`). -/
structure Notes where
  size : Nat
  taken : List Bytes
  fault : Option Wire.Fault

/-- **What a request does with an item** of the collection. -/
def note (target : Nat) (filter : BloomFilter) (salt : Bytes) (notes : Notes) (x : ι) : Notes × Bool :=
  if filter.contains (GossipItem.gossipId x).toList salt then (notes, true)
  else
    match Wire.encode x with
    | .error fault => ({ notes with fault := some fault }, false)
    | .ok b =>
      ({ notes with size := notes.size + b.length, taken := notes.taken ++ [b] },
        notes.size + b.length < target)

/-- What the notes come to. -/
def Notes.outcome (notes : Notes) : Except Wire.Fault (List Bytes) :=
  match notes.fault with
  | some fault => .error fault
  | none => .ok notes.taken

/-- **A visit that keeps notes** comes to the items of a response, after what was noted
before. -/
theorem outcome_visit (target : Nat) (filter : BloomFilter) (salt : Bytes) (size : Nat)
    (taken : List Bytes) (items : List ι) :
    (visit (note target filter salt) ⟨size, taken, none⟩ items).1.outcome
      = (taken ++ ·) <$> missing target filter salt size items := by
  induction items generalizing size taken with
  | nil =>
    show Except.ok taken = Except.ok (taken ++ [])
    rw [List.append_nil]
  | cons x rest ih =>
    unfold visit note missing
    by_cases hknown : filter.contains (GossipItem.gossipId x).toList salt = true
    · rw [if_pos hknown, if_pos hknown]
      exact ih size taken
    · rw [if_neg hknown, if_neg hknown]
      cases Wire.encode x with
      | error fault => rfl
      | ok b =>
        dsimp only
        by_cases hroom : size + b.length < target
        · rw [decide_eq_true hroom, if_pos hroom]
          refine (ih (size + b.length) (taken ++ [b])).trans ?_
          rw [← comp_map]
          congr 1
          funext own
          rw [Function.comp_apply, List.append_assoc, List.singleton_append]
        · rw [decide_eq_false hroom, if_neg hroom]
          rfl

/-! ## Responses -/

variable [GossipSet σ ι ε]

/-- **What a response holds**: of the items that the filter of the request does not report, in
the order of the collection, those up to the target, each in its bytes
(`GossipHandler::respond`). -/
structure Responds (g : Gossiper σ ι) (env : ε) (request : Wire.PullRequest) (filter : BloomFilter)
    (items : List ι) (b : Bytes) : Prop where
  cut : Cut g.settings.targetBytes 0
    ((GossipSet.items g.set env).filter fun x =>
      !filter.contains (GossipItem.gossipId x).toList request.salt) items
  /-- That is what is noted on a visit to the collection. -/
  spelled : ∃ message : Wire.PullResponse, Wire.decode b = .ok message ∧
    List.Forall₂ (fun x own => Wire.encode x = .ok own) items message.items ∧
    (visit (note g.settings.targetBytes filter request.salt) ⟨0, [], none⟩
      (GossipSet.items g.set env)).1.outcome = .ok message.items

section
variable {g : Gossiper σ ι} {env : ε} {lookup : ValidatorLookup} {now deadline : Nat} {node : NodeId}
  {payload b : Bytes} {request : Wire.PullRequest} {filter : BloomFilter}

/-- A request is answered if the requester may ask and there is an answer to the payload. -/
theorem snd_respond_eq_ok_iff :
    (g.respond env lookup now deadline node payload).2 = .ok b ↔
      g.Admits lookup now deadline node ∧ g.answerTo env payload = .ok b := by
  unfold respond
  generalize hhandled : g.throttle.handle node now = handled
  obtain ⟨throttle, allowed⟩ := handled
  have hsame : ({ g with throttle } : Gossiper σ ι).answerTo env payload = g.answerTo env payload := rfl
  have hadmits : g.Admits lookup now deadline node ↔
      allowed = true ∧ lookup.admits node = true ∧ now < deadline := by
    constructor
    · rintro ⟨hallowed, hvalidator, htime⟩
      rw [hhandled] at hallowed
      exact ⟨hallowed, hvalidator, htime⟩
    · rintro ⟨hallowed, hvalidator, htime⟩
      exact ⟨by rw [hhandled]; exact hallowed, hvalidator, htime⟩
  rw [hadmits]
  dsimp only
  by_cases hallowed : allowed = true
  · by_cases hvalidator : lookup.admits node = true
    · by_cases htime : deadline ≤ now
      · simp [hallowed, hvalidator, htime, Nat.not_lt.mpr htime]
      · simp [hallowed, hvalidator, htime, Nat.lt_of_not_le htime, hsame]
    · simp [hallowed, hvalidator]
  · simp [hallowed]

/-- What is answered could be read. -/
theorem exists_readable_of_answerTo (hok : g.answerTo env payload = .ok b) :
    ∃ request filter, g.Readable payload request filter := by
  unfold answerTo at hok
  split at hok
  · cases hok
  next request hdecoded =>
  split at hok
  · cases hok
  next hsalt =>
  split at hok
  · cases hok
  next filter hparsed =>
  exact ⟨request, filter, hdecoded, not_not.mp hsalt, hparsed⟩

/-- **An answer to a readable request.** -/
theorem Readable.responds (h : g.Readable payload request filter) (hok : g.answerTo env payload = .ok b) :
    g.Responds env request filter (g.selection env filter request.salt) b := by
  have hencode := (answerTo_eq_ok_iff h).mp hok
  obtain ⟨hfits, rfl⟩ := Wire.encode_eq_ok_iff.mp hencode
  have hmissing : missing g.settings.targetBytes filter request.salt 0 (GossipSet.items g.set env)
      = .ok ((g.selection env filter request.salt).map Wire.Layout.write) :=
    missing_eq_ok_iff.mpr ⟨fun x hx => fits_of_encode_responseOf hencode hx, rfl⟩
  refine ⟨cut_upTo _ _ _, responseOf (g.selection env filter request.salt), Wire.decode_write hfits, ?_, ?_⟩
  · apply List.forall₂_map_right_iff.mpr
    apply List.forall₂_same.mpr
    intro x hx
    exact Wire.encode_eq_ok_iff.mpr ⟨fits_of_encode_responseOf hencode hx, rfl⟩
  · rw [outcome_visit, hmissing]
    rfl

end

/-! ## All of it -/

/-- **What a response holds** and in which order: whatever is gossiped, an answer to a
request holds what the filter of the request misses, in the order in which the collection
lists it and cut at the target, and a pool lists each of its transfers once, the latest
first, whatever was asked of it before and whoever listens to it. -/
theorem responds_in_order :
    (∀ (σ ι ε : Type) [GossipItem ι] [GossipSet σ ι ε] (g : Gossiper σ ι) (env : ε)
      (lookup : ValidatorLookup) (now deadline : Nat) (node : NodeId) (payload b : Bytes),
      (g.respond env lookup now deadline node payload).2 = .ok b →
        ∃ request filter items, g.Readable payload request filter ∧
          g.Responds env request filter items b) ∧
    ∀ (settings : MempoolSettings) (salts : Nat → Salt) (p : Mempool),
      Mempool.new settings salts = .ok p → ∀ (actions : List Mempool.Action) (bus : Bus),
        ({ p.run actions with bus } : Mempool).ListsNewest := by
  constructor
  · intro σ ι ε _ _ g env lookup now deadline node payload b hok
    obtain ⟨_, hanswer⟩ := snd_respond_eq_ok_iff.mp hok
    obtain ⟨request, filter, hreadable⟩ := exists_readable_of_answerTo hanswer
    exact ⟨request, filter, _, hreadable, hreadable.responds hanswer⟩
  · intro settings salts p hnew actions bus
    exact (((Mempool.orderly_new hnew).run actions).with_bus bus).listsNewest

/-- A small pool with two transfers at the disposal of peers responds to somebody who holds
nothing with both of them, the second one first. -/
theorem responds_in_order_of_two :
    ∃ p : Mempool, Mempool.new .small (fun _ => default) = .ok p ∧
      (p.run Mempool.twoOffers).ListsNewest ∧
      let g : Gossiper Mempool Transfer := .new .standard (p.run Mempool.twoOffers)
      ∃ b, (g.respond Mempool.lenient sole 0 1 default (Wire.Layout.write opening)).2 = .ok b ∧
        g.Responds Mempool.lenient opening blank [Mempool.strangers.2, Mempool.strangers.1] b := by
  obtain ⟨p, hnew⟩ := Mempool.exists_new_small
  obtain ⟨hresponds, hlists⟩ := responds_in_order
  refine ⟨p, hnew, hlists _ _ p hnew Mempool.twoOffers (p.run Mempool.twoOffers).bus, ?_⟩
  intro g
  have hparsed : BloomFilter.parse opening.filter GossipSettings.standard.maxFilterBytes = .ok blank :=
    (readable_opening p 0).parsed
  have hreadable : g.Readable (Wire.Layout.write opening) opening blank :=
    ⟨(readable_opening p 0).decoded, (readable_opening p 0).salt, hparsed⟩
  have hadmits : g.Admits sole 0 1 default :=
    { allowed := rfl, validator := (admits_sole p 0).validator, inTime := by decide }
  have hselection : g.selection Mempool.lenient blank opening.salt
      = [Mempool.strangers.2, Mempool.strangers.1] := by
    have hitems : GossipSet.items g.set Mempool.lenient = [Mempool.strangers.2, Mempool.strangers.1] :=
      Mempool.newestFirst_twoOffers hnew
    have hwanted : wanted blank opening.salt [Mempool.strangers.2, Mempool.strangers.1]
        = [Mempool.strangers.2, Mempool.strangers.1] := by
      have hmissed : ∀ x : Transfer, blank.contains (GossipItem.gossipId x).toList opening.salt = false :=
        fun x => BloomFilter.not_contains_new 1 1 _ _
      apply List.filter_eq_self.mpr
      intro x _
      rw [hmissed]
      rfl
    have hsecond : (Wire.Layout.write Mempool.strangers.2).length = 192 :=
      Wire.length_write_transfer Mempool.strangers.2
    have hfirst : (Wire.Layout.write Mempool.strangers.1).length = 192 :=
      Wire.length_write_transfer Mempool.strangers.1
    show upTo 20480 0 (wanted blank opening.salt (GossipSet.items g.set Mempool.lenient)) = _
    rw [hitems, hwanted]
    simp [upTo, hsecond, hfirst]
  have hfits : (Wire.Layout.write (responseOf [Mempool.strangers.2, Mempool.strangers.1])).length
      ≤ Wire.maxMessageBytes := by
    show (Wire.writeList Wire.writeBytes [_, _]).length ≤ _
    simp only [Wire.length_writeList, List.flatMap_cons, List.flatMap_nil, List.length_append,
      Wire.length_writeBytes, Wire.length_write_transfer]
    decide
  have hok : (g.respond Mempool.lenient sole 0 1 default (Wire.Layout.write opening)).2
      = .ok (Wire.Layout.write (responseOf [Mempool.strangers.2, Mempool.strangers.1])) := by
    rw [snd_respond_eq_ok_iff, answerTo_eq_ok_iff hreadable, hselection, Wire.encode_eq_ok_iff]
    exact ⟨hadmits, hfits, rfl⟩
  obtain ⟨request, filter, items, hreadable', hcontent⟩ := hresponds _ _ _ g _ _ _ _ _ _ _ hok
  obtain rfl := Except.ok.inj (hreadable'.decoded.symm.trans hreadable.decoded)
  obtain rfl := Except.ok.inj (hreadable'.parsed.symm.trans hreadable.parsed)
  have hitems : items = g.selection Mempool.lenient blank opening.salt := cut_iff.mp hcontent.cut
  rw [hitems, hselection] at hcontent
  exact ⟨Wire.Layout.write (responseOf [Mempool.strangers.2, Mempool.strangers.1]), hok, hcontent⟩

end Gossiper

end TxRelay
