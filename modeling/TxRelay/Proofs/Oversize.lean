/-
What is too long for a message is read all the same.

The limit of a message is looked at when a value is written, and nowhere else. A
value that takes up more cannot be sent by this library, but bytes that spell it
are read like any others, and what they hold is handed on: a push, or an answer,
of any length brings in its items, and each of them may itself be longer than
any message. Such an item is held from then on and cannot be passed on.
-/
import TxRelay.Gossip.PoolSet
import TxRelay.Proofs.Answer
import TxRelay.Proofs.Canonical

set_option autoImplicit false

namespace TxRelay

namespace Wire

/-- **The limit holds** for some bytes: if they are too long then they are not read. -/
def LimitHolds (α : Type) [Layout α] (b : Bytes) : Prop :=
  maxMessageBytes < b.length → ∃ fault, (decode b : Except Fault α) = .error fault

/-- The limit holds for what a value is written as exactly if that is not too long. -/
theorem limitHolds_write_iff {α : Type} [Layout α] [LawfulLayout α] {x : α}
    (hx : (Layout.write x).length < UInt64.size) :
    LimitHolds α (Layout.write x) ↔ (Layout.write x).length ≤ maxMessageBytes := by
  have hdecode := decode_write_of_lt hx
  constructor
  · intro hholds
    by_cases hshort : (Layout.write x).length ≤ maxMessageBytes
    · exact hshort
    · obtain ⟨fault, hfault⟩ := hholds (Nat.lt_of_not_le hshort)
      rw [hdecode] at hfault
      cases hfault
  · intro hshort hlong
    omega

/-- **The limit of a message is on writing**, and not on reading: it holds for bytes that spell
nothing, and for those that are not too long, but for no others (`encode`, `decode`). -/
structure LimitedInWriting (α : Type) [Layout α] (b : Bytes) : Prop where
  encode_ne : maxMessageBytes < b.length → ∀ x : α, encode x ≠ .ok b
  holds_iff : b.length < UInt64.size →
    (LimitHolds α b ↔ b.length ≤ maxMessageBytes ∨ ∀ x : α, Layout.write x ≠ b)

theorem limitedInWriting (α : Type) [Layout α] [LawfulLayout α] [CanonicalLayout α] (b : Bytes) :
    LimitedInWriting α b where
  encode_ne := by
    intro hlong x hencode
    have hshort := (encode_eq_ok_iff_decode.mp hencode).1
    omega
  holds_iff := by
    intro hb
    constructor
    · intro hholds
      by_cases hspelled : ∃ x : α, Layout.write x = b
      · obtain ⟨x, rfl⟩ := hspelled
        exact Or.inl ((limitHolds_write_iff hb).mp hholds)
      · exact Or.inr (not_exists.mp hspelled)
    · rintro (hshort | hspelled)
      · intro hlong
        omega
      · intro hlong
        cases hdecode : (decode b : Except Fault α) with
        | error fault => exact ⟨fault, rfl⟩
        | ok x => exact absurd (write_of_decode hdecode) (hspelled x)

end Wire

namespace Gossiper

variable {σ ι ε : Type} [GossipItem ι] [GossipSet σ ι ε]

/-- A collection after it was offered items, one after the other. -/
def offered (env : ε) (s : σ) (items : List ι) : σ :=
  items.foldl (fun s x => (GossipSet.add s env x).1) s

/-- Items that were written are offered to a collection, refused or not. -/
theorem takeIn_write [Wire.LawfulLayout ι] (env : ε) (s : σ) {items : List ι}
    (hitems : ∀ x ∈ items, (Wire.Layout.write x).length < UInt64.size) :
    (takeIn env s (items.map Wire.Layout.write)).1 = offered env s items := by
  induction items generalizing s with
  | nil => rfl
  | cons x rest ih =>
    obtain ⟨hx, hrest⟩ := List.forall_mem_cons.mp hitems
    have hdecode : (Wire.decode (Wire.Layout.write x) : Except Wire.Fault ι) = .ok x :=
      Wire.decode_write_of_lt hx
    have hoffered : offered env s (x :: rest) = offered env (GossipSet.add s env x).1 rest := rfl
    rw [List.map_cons, takeIn, hdecode, hoffered]
    dsimp only
    generalize GossipSet.add s env x = added
    obtain ⟨s', r⟩ := added
    cases r with
    | error e => exact ih s' hrest
    | ok _ => exact ih s' hrest

/-- Nothing in a message is longer than the message. -/
theorem length_write_lt {items : List ι}
    (h : (Wire.writeList Wire.writeBytes (items.map Wire.Layout.write)).length < UInt64.size) :
    ∀ x ∈ items, (Wire.Layout.write x).length < UInt64.size := by
  intro x hx
  have hitem := Wire.length_le_flatMap Wire.writeBytes
    (List.mem_map_of_mem (f := Wire.Layout.write) hx)
  rw [Wire.length_writeBytes] at hitem
  rw [Wire.length_writeList] at h
  omega

/-- The announcement that holds the given items. -/
def announcementOf (items : List ι) : Wire.PushMessage := ⟨items.map Wire.Layout.write⟩

/-- **A message brings in its items**, whatever its length and theirs. -/
structure BringsIn (g : Gossiper σ ι) (env : ε) (items : List ι) : Prop where
  /-- The announcement of the items offers all of them to the collection. -/
  pushed : (Wire.Layout.write (announcementOf items)).length < UInt64.size →
    (g.handlePush env (Wire.Layout.write (announcementOf items))).set = offered env g.set items
  /-- So does the answer to a request. -/
  pulled : (Wire.Layout.write (responseOf items)).length < UInt64.size →
    (g.handleEnding env (.ok (Wire.Layout.write (responseOf items)))).1.set = offered env g.set items

theorem bringsIn [Wire.LawfulLayout ι] (g : Gossiper σ ι) (env : ε) (items : List ι) :
    g.BringsIn env items where
  pushed h := by
    rw [handlePush, Wire.decode_write_of_lt h]
    exact takeIn_write env g.set (length_write_lt h)
  pulled h := by
    rw [handleEnding, Wire.decode_write_of_lt h]
    exact takeIn_write env g.set (length_write_lt h)

/-- **Nothing is too long to be read**, nor to be handed to a pool, although it
may be too long to be written. -/
theorem limited_in_writing_only (b : Bytes) (tx : Transaction)
    (g : Gossiper PoolSet Transaction) (views : PoolSet.Views) (txs : List Transaction)
    (g' : Gossiper Mempool Transfer) (backend : TransferBackend) (ts : List Transfer) :
    Wire.LimitedInWriting Wire.PullRequest b ∧ Wire.LimitedInWriting Wire.PullResponse b ∧
      Wire.LimitedInWriting Wire.PushMessage b ∧ Wire.LimitedInWriting Transfer b ∧
      ((Wire.Layout.write tx).length < UInt64.size →
        (Wire.LimitHolds Transaction (Wire.Layout.write tx) ↔
          (Wire.Layout.write tx).length ≤ Wire.maxMessageBytes)) ∧
      g.BringsIn views txs ∧ g'.BringsIn backend ts := by
  refine ⟨Wire.limitedInWriting _ b, Wire.limitedInWriting _ b, Wire.limitedInWriting _ b,
    Wire.limitedInWriting _ b, ?_, bringsIn g views txs, bringsIn g' backend ts⟩
  intro htx
  exact Wire.limitHolds_write_iff htx

/-! ## A transfer that is too long for a message -/

theorem length_write_spending (count : Nat) :
    (Wire.Layout.write (spending count)).length = 192 + 32 * count := by
  rw [Wire.length_write_transfer]
  simp [spending]

theorem length_announcementOf_spending (count : Nat) :
    (Wire.Layout.write (announcementOf [spending count])).length = 208 + 32 * count := by
  show (Wire.writeList Wire.writeBytes [Wire.Layout.write (spending count)]).length = _
  rw [Wire.length_writeList, List.flatMap_singleton, Wire.length_writeBytes, length_write_spending]
  omega

/-- A pool that was offered a valid transfer holds it. -/
theorem newestFirst_offered {p : Mempool} {count : Nat}
    (hp : Mempool.new .small (fun _ => default) = .ok p) (hcount : count ≠ 0) :
    (offered (Ledger.new 1 0).transferBackend p [spending count]).newestFirst = [spending count] := by
  show ((p.takeRemote (Ledger.new 1 0).transferBackend (spending count)).1).newestFirst = _
  rw [Mempool.fst_takeRemote]
  exact Mempool.newestFirst_add_of_new hp (validate_spending hcount) UInt64.not_lt_zero false

/-- An announcement, or an answer, that is longer than any message brings in a
transfer that is longer than any message. -/
theorem exists_oversized :
    ∃ p, Mempool.new .small (fun _ => default) = .ok p ∧
      Wire.maxMessageBytes < (Wire.Layout.write (spending 65536)).length ∧
      Wire.maxMessageBytes < (Wire.Layout.write (announcementOf [spending 65536])).length ∧
      Wire.decode (Wire.Layout.write (announcementOf [spending 65536]))
        = .ok (announcementOf [spending 65536]) ∧
      ((Gossiper.new .standard p).handlePush (Ledger.new 1 0).transferBackend
        (Wire.Layout.write (announcementOf [spending 65536]))).set.newestFirst = [spending 65536] ∧
      ((Gossiper.new .standard p).handleEnding (Ledger.new 1 0).transferBackend
        (.ok (Wire.Layout.write (responseOf [spending 65536])))).1.set.newestFirst
          = [spending 65536] := by
  obtain ⟨p, hp⟩ := Mempool.exists_new_small
  have hitem := length_write_spending 65536
  have hmessage := length_announcementOf_spending 65536
  have hlimit : Wire.maxMessageBytes = 2097152 := rfl
  have hcounted : (Wire.Layout.write (announcementOf [spending 65536])).length < UInt64.size := by
    rw [hmessage]
    decide
  have hbrings := bringsIn (Gossiper.new .standard p) (Ledger.new 1 0).transferBackend [spending 65536]
  refine ⟨p, hp, by omega, by omega, Wire.decode_write_of_lt hcounted, ?_, ?_⟩
  · rw [hbrings.pushed hcounted]
    exact newestFirst_offered hp (by decide)
  · rw [hbrings.pulled hcounted]
    exact newestFirst_offered hp (by decide)

end Gossiper

end TxRelay
