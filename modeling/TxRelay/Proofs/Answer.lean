/-
When a request is answered, and with what.

The items that a filter misses are selected in the order of the collection, up
to and with the one that brings their bytes to the target. The target is soft:
the last item may be of any size. A message is limited all the same, so a
selection that does not fit is not cut further, and the whole request comes to
nothing. It is answered exactly if the requester is admitted and the selection
fits into a message.
-/
import TxRelay.Gossip.Gossiper
import TxRelay.Gossip.TransferSet
import TxRelay.Proofs.FilterBytes
import TxRelay.Proofs.Ledger
import TxRelay.Proofs.Mempool

set_option autoImplicit false

namespace TxRelay

namespace Gossiper

open Bloom (BloomFilter)

variable {σ ι ε : Type} [GossipItem ι]

/-! ## The selection -/

/-- The items of a list, up to and with the one that brings their bytes to the
target; `size` bytes are there already. -/
def upTo (target : Nat) : Nat → List ι → List ι
  | _, [] => []
  | size, x :: rest =>
    if size + (Wire.Layout.write x).length < target then
      x :: upTo target (size + (Wire.Layout.write x).length) rest
    else [x]

/-- The items that a filter misses under a salt. -/
def wanted (filter : BloomFilter) (salt : Bytes) (items : List ι) : List ι :=
  items.filter fun x => !filter.contains (GossipItem.gossipId x).toList salt

/-- The response that holds the given items. -/
def responseOf (items : List ι) : Wire.PullResponse := ⟨items.map Wire.Layout.write⟩

section
variable {target : Nat} {filter : BloomFilter} {salt : Bytes}

theorem mem_of_mem_upTo {size : Nat} {items : List ι} {x : ι} (hx : x ∈ upTo target size items) :
    x ∈ items := by
  induction items generalizing size with
  | nil => cases hx
  | cons y rest ih =>
    rw [upTo] at hx
    split at hx
    · rcases List.mem_cons.mp hx with rfl | hrest
      · exact List.mem_cons_self
      · exact List.mem_cons_of_mem y (ih hrest)
    · rw [List.mem_singleton.mp hx]
      exact List.mem_cons_self

/-- What is not selected had to make way for the target. -/
theorem mem_upTo_or (target size : Nat) {items : List ι} {x : ι} (hx : x ∈ items) :
    x ∈ upTo target size items ∨
      target ≤ size + ((upTo target size items).flatMap Wire.Layout.write).length := by
  induction items generalizing size with
  | nil => cases hx
  | cons y rest ih =>
    rw [upTo]
    split
    · rcases List.mem_cons.mp hx with rfl | hrest
      · exact Or.inl List.mem_cons_self
      · rcases ih (size + (Wire.Layout.write y).length) hrest with hmem | hfull
        · exact Or.inl (List.mem_cons_of_mem y hmem)
        · refine Or.inr ?_
          rw [List.flatMap_cons, List.length_append, ← Nat.add_assoc]
          exact hfull
    · next hreached =>
      refine Or.inr ?_
      rw [List.flatMap_cons, List.flatMap_nil, List.append_nil]
      exact Nat.le_of_not_lt hreached

/-- **The items of a response** are the selection, and each of them has to fit
into a message. -/
theorem missing_eq_ok_iff {size : Nat} {items : List ι} {bs : List Bytes} :
    missing target filter salt size items = .ok bs ↔
      (∀ x ∈ upTo target size (wanted filter salt items),
        (Wire.Layout.write x).length ≤ Wire.maxMessageBytes) ∧
      (upTo target size (wanted filter salt items)).map Wire.Layout.write = bs := by
  induction items generalizing size bs with
  | nil =>
    rw [missing, Except.ok.injEq]
    exact ⟨fun h => ⟨nofun, h⟩, fun h => h.2⟩
  | cons x rest ih =>
    rw [missing]
    by_cases hknown : filter.contains (GossipItem.gossipId x).toList salt = true
    · have hwanted : wanted filter salt (x :: rest) = wanted filter salt rest := by
        rw [wanted, List.filter_cons_of_neg (by rw [hknown]; nofun)]
        rfl
      rw [if_pos hknown, ih, hwanted]
    · have hwanted : wanted filter salt (x :: rest) = x :: wanted filter salt rest := by
        rw [wanted, List.filter_cons_of_pos (by simpa using hknown)]
        rfl
      rw [if_neg hknown, hwanted, upTo]
      by_cases hfits : (Wire.Layout.write x).length ≤ Wire.maxMessageBytes
      · have hencode : Wire.encode x = .ok (Wire.Layout.write x) := if_pos hfits
        rw [hencode]
        dsimp only
        split
        · cases hrest : missing target filter salt (size + (Wire.Layout.write x).length) rest with
          | error fault =>
            -- Nothing comes of the rest, so not all of it fits.
            refine ⟨nofun, fun h => ?_⟩
            have hok := ih.mpr ⟨fun y hy => h.1 y (List.mem_cons_of_mem x hy), rfl⟩
            rw [hrest] at hok
            cases hok
          | ok own =>
            obtain ⟨hall, rfl⟩ := ih.mp hrest
            rw [List.map_cons]
            constructor
            · intro h
              exact ⟨List.forall_mem_cons.mpr ⟨hfits, hall⟩, Except.ok.inj h⟩
            · rintro ⟨_, rfl⟩
              rfl
        · rw [List.forall_mem_singleton, List.map_singleton, Except.ok.injEq]
          exact ⟨fun h => ⟨hfits, h⟩, fun h => h.2⟩
      · have hencode : Wire.encode x = .error .sizeLimit := if_neg hfits
        rw [hencode]
        refine ⟨nofun, fun h => absurd (h.1 x ?_) hfits⟩
        split
        · exact List.mem_cons_self
        · exact List.mem_cons_self

end

/-! ## Answering -/

variable [GossipSet σ ι ε]

/-- **The items that a filter is answered with.** -/
def selection (g : Gossiper σ ι) (env : ε) (filter : BloomFilter) (salt : Bytes) : List ι :=
  upTo g.settings.targetBytes 0 (wanted filter salt (GossipSet.items g.set env))

/-- A payload spells a request with a filter that may be queried and a salt of the right size
(`GossipHandler::respond`). -/
structure Readable (g : Gossiper σ ι) (payload : Bytes) (request : Wire.PullRequest)
    (filter : BloomFilter) : Prop where
  decoded : Wire.decode payload = .ok request
  salt : request.salt.length = saltBytes
  parsed : BloomFilter.parse request.filter g.settings.maxFilterBytes = .ok filter

/-- A node may ask now: it does not ask too often, it is a validator, and the time of the
request is not over (`GossipHandler::respond`). -/
structure Admits (g : Gossiper σ ι) (lookup : ValidatorLookup) (now deadline : Nat) (node : NodeId) :
    Prop where
  allowed : (g.throttle.handle node now).2 = true
  validator : lookup.admits node = true
  inTime : now < deadline

variable {g : Gossiper σ ι} {env : ε} {payload : Bytes} {request : Wire.PullRequest}
  {filter : BloomFilter}

/-- If a response fits into a message then so does each of its items. -/
theorem fits_of_encode_responseOf {items : List ι} {b : Bytes}
    (hencode : Wire.encode (responseOf items) = .ok b) {x : ι} (hx : x ∈ items) :
    (Wire.Layout.write x).length ≤ Wire.maxMessageBytes := by
  have hfits : (Wire.writeList Wire.writeBytes (items.map Wire.Layout.write)).length
      ≤ Wire.maxMessageBytes := (Wire.encode_eq_ok_iff.mp hencode).1
  have hitem := Wire.length_le_flatMap Wire.writeBytes
    (List.mem_map_of_mem (f := Wire.Layout.write) hx)
  rw [Wire.length_writeList] at hfits
  rw [Wire.length_writeBytes] at hitem
  omega

theorem answerTo_eq_ok_iff (h : g.Readable payload request filter) {b : Bytes} :
    g.answerTo env payload = .ok b ↔
      Wire.encode (responseOf (g.selection env filter request.salt)) = .ok b := by
  rw [answerTo, h.decoded]
  dsimp only
  rw [if_neg (not_not_intro h.salt), h.parsed]
  dsimp only
  cases hmissing : missing g.settings.targetBytes filter request.salt 0 (GossipSet.items g.set env) with
  | error fault =>
    refine ⟨nofun, fun hencode => ?_⟩
    have hok := missing_eq_ok_iff.mpr
      ⟨fun x hx => fits_of_encode_responseOf hencode hx, rfl⟩
    rw [hmissing] at hok
    cases hok
  | ok items =>
    obtain ⟨_, rfl⟩ := missing_eq_ok_iff.mp hmissing
    dsimp only
    rw [responseOf, selection]
    split
    · next fault hencode =>
      rw [hencode]
      exact ⟨nofun, nofun⟩
    · next b' hencode => rw [hencode, Except.ok.injEq, Except.ok.injEq]

/-- A request is answered exactly if the requester may ask and there is an answer
to the payload. -/
theorem snd_handleRequest_eq_some_iff {lookup : ValidatorLookup} {now deadline : Nat} {node : NodeId}
    {b : Bytes} :
    (g.handleRequest env lookup now deadline node payload).2 = some b ↔
      g.Admits lookup now deadline node ∧ g.answerTo env payload = .ok b := by
  -- The answer does not depend on what is counted.
  have hsame : ∀ (throttle : Throttle NodeId) (counters : GossipCounters),
      ({ g with throttle, counters } : Gossiper σ ι).answerTo env payload = g.answerTo env payload :=
    fun _ _ => rfl
  rw [handleRequest]
  dsimp only
  rw [respond]
  generalize hhandled : g.throttle.handle node now = handled
  obtain ⟨throttle, allowed⟩ := handled
  dsimp only
  cases allowed with
  | false =>
    refine ⟨nofun, fun hanswer => ?_⟩
    have hallowed := hanswer.1.allowed
    rw [hhandled] at hallowed
    cases hallowed
  | true =>
    rw [Bool.not_true, if_neg Bool.false_ne_true]
    cases hvalidator : lookup.admits node with
    | false =>
      refine ⟨nofun, fun hanswer => ?_⟩
      rw [hanswer.1.validator] at hvalidator
      cases hvalidator
    | true =>
      rw [Bool.not_true, if_neg Bool.false_ne_true]
      by_cases htime : deadline ≤ now
      · rw [if_pos htime]
        exact ⟨nofun, fun hanswer => absurd hanswer.1.inTime (Nat.not_lt.mpr htime)⟩
      · rw [if_neg htime, hsame]
        have hadmits : g.Admits lookup now deadline node :=
          ⟨by rw [hhandled], hvalidator, Nat.lt_of_not_le htime⟩
        cases g.answerTo env payload with
        | error e => exact ⟨nofun, nofun⟩
        | ok b' =>
          rw [Option.some.injEq, Except.ok.injEq]
          exact ⟨fun hb => ⟨hadmits, hb⟩, fun hanswer => hanswer.2⟩

/-- **A request is answered** exactly if the requester is admitted and the
selection fits into a message. -/
theorem handleRequest_eq_some_iff (h : g.Readable payload request filter) {lookup : ValidatorLookup}
    {now deadline : Nat} {node : NodeId} {b : Bytes} :
    (g.handleRequest env lookup now deadline node payload).2 = some b ↔
      g.Admits lookup now deadline node ∧
        Wire.encode (responseOf (g.selection env filter request.salt)) = .ok b := by
  rw [← answerTo_eq_ok_iff h]
  exact snd_handleRequest_eq_some_iff

/-- **A readable request of a node that may ask** is answered, with the selection
and in a form that can be read, exactly if the response fits into a message. -/
theorem answered_iff_fits (h : g.Readable payload request filter) {lookup : ValidatorLookup}
    {now deadline : Nat} {node : NodeId} (hadmits : g.Admits lookup now deadline node) :
    (∃ b, (g.handleRequest env lookup now deadline node payload).2 = some b ∧
        Wire.decode b = .ok (responseOf (g.selection env filter request.salt))) ↔
      (Wire.Layout.write (responseOf (g.selection env filter request.salt))).length
        ≤ Wire.maxMessageBytes := by
  constructor
  · rintro ⟨b, hanswer, _⟩
    exact (Wire.encode_eq_ok_iff.mp ((handleRequest_eq_some_iff h).mp hanswer).2).1
  · intro hfits
    refine ⟨_, (handleRequest_eq_some_iff h).mpr ⟨hadmits, ?_⟩, Wire.decode_write hfits⟩
    exact Wire.encode_eq_ok_iff.mpr ⟨hfits, rfl⟩

/-! ## One large item -/

/-- A filter without insertions. -/
def blank : BloomFilter := .new 1 1

/-- A request of somebody who holds nothing. -/
def opening : Wire.PullRequest := ⟨blank.toBytes, (default : Salt).toList⟩

/-- There is one validator. -/
def sole : ValidatorLookup := .ok ((∅ : ValidatorSet).insert default 1)

/-- An inbound transfer that spends one input so many times. -/
def spending (count : Nat) : Transfer :=
  { (default : Transfer) with
    destination := Vector.replicate 32 1, amount := 1000, fee := 10
    inputs := List.replicate count default }

/-- A pool at the disposal of peers, after it was offered such a transfer. -/
def serving (p : Mempool) (count : Nat) : Gossiper Mempool Transfer :=
  .new .standard (p.run [.add (Ledger.new 1 0).transferBackend (spending count) true])

theorem readable_opening (p : Mempool) (count : Nat) :
    (serving p count).Readable (Wire.Layout.write opening) opening blank where
  decoded := Wire.decode_write (by decide +kernel)
  salt := Vector.length_toList
  parsed :=
    have hshort : blank.toBytes.length ≤ GossipSettings.standard.maxFilterBytes := by decide
    BloomFilter.parse_toBytes (BloomFilter.sound_new (by decide) 1) hshort

theorem admits_sole (p : Mempool) (count : Nat) : (serving p count).Admits sole 0 1 default where
  allowed := rfl
  validator := by
    show decide (0 < ((∅ : ValidatorSet).insert default 1).getD default 0) = true
    rw [Std.ExtTreeMap.getD_insert_self]
    rfl
  inTime := by decide

theorem validate_spending {count : Nat} (hcount : count ≠ 0) :
    (Ledger.new 1 0).transferBackend.validate (spending count) = .ok () := by
  refine Ledger.validateTransfer_eq_ok_iff.mpr (Ledger.transferFault?_eq_none_iff.mpr ⟨?_, rfl⟩)
  have hdirection : (default : Digest) ≠ Vector.replicate 32 1 := by decide
  have hfee : ¬((10 : UInt64) = 0 ∨ (1000 : UInt64) ≤ 10) := by decide
  exact ⟨fun hnil => hcount ((List.replicate_eq_nil_iff _).mp hnil), hdirection, hfee,
    fun input _ => Std.ExtTreeSet.contains_empty⟩

variable {p : Mempool} {count : Nat}

/-- The transfer is what everybody who asks is missing. -/
theorem selection_serving (hp : Mempool.new .small (fun _ => default) = .ok p) (hcount : count ≠ 0)
    (b : TransferBackend) : (serving p count).selection b blank opening.salt = [spending count] := by
  have hitems : GossipSet.items (serving p count).set b = [spending count] :=
    Mempool.newestFirst_add_of_new hp (validate_spending hcount) UInt64.not_lt_zero true
  have hmissed : blank.contains (GossipItem.gossipId (spending count)).toList opening.salt = false :=
    BloomFilter.not_contains_new 1 1 _ _
  rw [selection, hitems, wanted, List.filter_cons, hmissed, Bool.not_false, if_pos rfl, List.filter_nil,
    upTo, upTo]
  split
  · rfl
  · rfl

theorem length_response_serving (hp : Mempool.new .small (fun _ => default) = .ok p)
    (hcount : count ≠ 0) (b : TransferBackend) :
    (Wire.Layout.write (responseOf ((serving p count).selection b blank opening.salt))).length
      = 208 + 32 * count := by
  rw [selection_serving hp hcount]
  show (Wire.writeList Wire.writeBytes [Wire.Layout.write (spending count)]).length = _
  rw [Wire.length_writeList, List.flatMap_cons, List.flatMap_nil, List.append_nil,
    Wire.length_writeBytes, Wire.length_write_transfer]
  have hinputs : (spending count).inputs.length = count := List.length_replicate
  omega

/-- A pool with a transfer of one input answers. -/
theorem answered_of_one_input :
    ∃ p, Mempool.new .small (fun _ => default) = .ok p ∧
      ∃ b, ((serving p 1).handleRequest (Ledger.new 1 0).transferBackend sole 0 1 default
          (Wire.Layout.write opening)).2 = some b ∧
        Wire.decode b = .ok (responseOf [spending 1]) := by
  obtain ⟨p, hp⟩ := Mempool.exists_new_small
  refine ⟨p, hp, ?_⟩
  rw [← selection_serving hp Nat.one_ne_zero (Ledger.new 1 0).transferBackend]
  refine (answered_iff_fits (readable_opening p 1) (admits_sole p 1)).mpr ?_
  rw [length_response_serving hp Nat.one_ne_zero]
  decide

/-- A pool with a transfer that does not fit into a message answers nobody who
misses the transfer. -/
theorem exists_unanswered :
    ∃ p, Mempool.new .small (fun _ => default) = .ok p ∧
      (serving p 65536).Readable (Wire.Layout.write opening) opening blank ∧
      (serving p 65536).Admits sole 0 1 default ∧
      ((serving p 65536).handleRequest (Ledger.new 1 0).transferBackend sole 0 1 default
        (Wire.Layout.write opening)).2 = none := by
  obtain ⟨p, hp⟩ := Mempool.exists_new_small
  have hreadable := readable_opening p 65536
  refine ⟨p, hp, hreadable, admits_sole p 65536, Option.eq_none_iff_forall_ne_some.mpr fun b hb => ?_⟩
  have hfits := (Wire.encode_eq_ok_iff.mp ((handleRequest_eq_some_iff hreadable).mp hb).2).1
  rw [length_response_serving hp (by decide)] at hfits
  exact absurd hfits (by decide)

end Gossiper

end TxRelay
