/-
Every message has one spelling.

What a reader takes off the front is what its value is written as, byte for
byte: numbers have a fixed width, a sequence, a text and a signature carry their
own length, a choice is one of the indices that are written, and nothing may be
left over. So bytes that spell a value at all are the message of that value, and
no value has two messages.

Ordinary transactions are left out because of their amounts: the text of an
amount may have leading zeros, upper-case digits and blanks, and may lack the
mark in front.
-/
import TxRelay.Proofs.RoundTrip

set_option autoImplicit false

namespace TxRelay.Wire

open Reader

/-! ## Readers that succeed -/

section
variable {α β : Type} {b rest : Bytes}

/-- A sequence of two readers succeeds exactly if both do. -/
theorem Reader.bind_eq_ok_iff {r : Reader α} {f : α → Reader β} {y : β} :
    (r >>= f) b = .ok (y, rest) ↔ ∃ x between, r b = .ok (x, between) ∧ f x between = .ok (y, rest) := by
  have hbind : (r >>= f) b = (r b >>= fun p => f p.1 p.2) := rfl
  rw [hbind]
  constructor
  · intro h
    cases hr : r b with
    | error fault =>
      rw [hr] at h
      exact absurd h nofun
    | ok taken =>
      rw [hr] at h
      exact ⟨taken.1, taken.2, rfl, h⟩
  · rintro ⟨x, between, hr, hf⟩
    rw [hr]
    exact hf

theorem Reader.pure_eq_ok_iff {x y : α} :
    (pure x : Reader α) b = .ok (y, rest) ↔ x = y ∧ b = rest := by
  show Except.ok (x, b) = .ok (y, rest) ↔ _
  simp

theorem Reader.map_eq_ok_iff {r : Reader α} {f : α → β} {y : β} :
    (f <$> r) b = .ok (y, rest) ↔ ∃ x, r b = .ok (x, rest) ∧ f x = y := by
  rw [map_eq_pure_bind, Reader.bind_eq_ok_iff]
  simp only [Reader.pure_eq_ok_iff]
  constructor
  · rintro ⟨x, between, hr, hx, rfl⟩
    exact ⟨x, hr, hx⟩
  · rintro ⟨x, hr, hx⟩
    exact ⟨x, rest, hr, hx, rfl⟩

theorem Reader.fail_ne_ok (fault : Fault) (x : α) : (fail fault : Reader α) b ≠ .ok (x, rest) := nofun

end

theorem takeOr_eq_ok_iff {fault : Fault} {n : Nat} {b front rest : Bytes} :
    takeOr fault n b = .ok (front, rest) ↔ front.length = n ∧ b = front ++ rest := by
  constructor
  · intro h
    unfold takeOr at h
    by_cases henough : (b.take n).length = n
    · rw [if_pos henough] at h
      obtain ⟨rfl, rfl⟩ := Prod.mk.inj (Except.ok.inj h)
      exact ⟨henough, (List.take_append_drop n b).symm⟩
    · rw [if_neg henough] at h
      exact absurd h nofun
  · rintro ⟨hlength, rfl⟩
    exact takes_takeOr fault hlength rest

/-! ## Exact readers -/

/-- **A reader is exact**: the bytes that it took off the front are what the value
is written as. -/
def Reader.Exact {α : Type} (r : Reader α) (write : α → Bytes) : Prop :=
  ∀ (b : Bytes) (x : α) (rest : Bytes), r b = .ok (x, rest) → b = write x ++ rest

/-- Bytes that were read as a number of their own length are what the number is
written as. -/
theorem eq_ofNatLE_of_length {width : Nat} {b : Bytes} (h : b.length = width) :
    b = Bytes.ofNatLE width (Bytes.toNatLE b) := by
  rw [← h, Bytes.ofNatLE_toNatLE]

theorem toNatLE_lt_of_length {width : Nat} {b : Bytes} (h : b.length = width) :
    Bytes.toNatLE b < Nat.pow 256 width := by
  rw [← h]
  exact Bytes.toNatLE_lt b

theorem exact_block (n : Nat) : (block n).Exact Vector.toList := by
  intro b v rest h
  obtain ⟨front, between, htake, hv⟩ := Reader.bind_eq_ok_iff.mp h
  obtain ⟨hlength, rfl⟩ := takeOr_eq_ok_iff.mp htake
  have hblock : Bytes.toBlock? n front = some ⟨front.toArray, by simpa using hlength⟩ := dif_pos hlength
  rw [hblock] at hv
  obtain ⟨rfl, rfl⟩ := Reader.pure_eq_ok_iff.mp hv
  simp [Vector.toList]

theorem exact_word : word.Exact Bytes.ofWord := by
  intro b w rest h
  obtain ⟨front, between, htake, hw⟩ := Reader.bind_eq_ok_iff.mp h
  obtain ⟨hlength, rfl⟩ := takeOr_eq_ok_iff.mp htake
  obtain ⟨rfl, rfl⟩ := Reader.pure_eq_ok_iff.mp hw
  have hsmall : Bytes.toNatLE front < UInt64.size := toNatLE_lt_of_length hlength
  have hword : (UInt64.ofNat (Bytes.toNatLE front)).toNat = Bytes.toNatLE front :=
    UInt64.toNat_ofNat_of_lt' hsmall
  rw [Bytes.ofWord, hword, ← eq_ofNatLE_of_length hlength]

theorem exact_length : length.Exact writeLength := by
  intro b n rest h
  obtain ⟨front, between, htake, hn⟩ := Reader.bind_eq_ok_iff.mp h
  obtain ⟨hlength, rfl⟩ := takeOr_eq_ok_iff.mp htake
  obtain ⟨rfl, rfl⟩ := Reader.pure_eq_ok_iff.mp hn
  rw [writeLength, ← eq_ofNatLE_of_length hlength]

/-- An index is exact, and one of those that there are. -/
theorem variant_eq_ok {count index : Nat} {b rest : Bytes} (h : variant count b = .ok (index, rest)) :
    index < count ∧ b = writeVariant index ++ rest := by
  obtain ⟨front, between, htake, hindex⟩ := Reader.bind_eq_ok_iff.mp h
  obtain ⟨hlength, rfl⟩ := takeOr_eq_ok_iff.mp htake
  by_cases hsmall : Bytes.toNatLE front < count
  · rw [if_pos hsmall] at hindex
    obtain ⟨rfl, rfl⟩ := Reader.pure_eq_ok_iff.mp hindex
    rw [writeVariant, ← eq_ofNatLE_of_length hlength]
    exact ⟨hsmall, rfl⟩
  · rw [if_neg hsmall] at hindex
    exact absurd hindex (Reader.fail_ne_ok _ _)

theorem exact_bytes : bytes.Exact writeBytes := by
  intro b content rest h
  obtain ⟨n, between, hn, htake⟩ := Reader.bind_eq_ok_iff.mp h
  obtain ⟨rfl, rfl⟩ := takeOr_eq_ok_iff.mp htake
  rw [exact_length b _ _ hn, writeBytes, List.append_assoc]

theorem exact_signature : signature.Exact fun s => writeBytes s.toList := by
  intro b s rest h
  obtain ⟨n, between, hn, h⟩ := Reader.bind_eq_ok_iff.mp h
  obtain ⟨content, between', htake, hs⟩ := Reader.bind_eq_ok_iff.mp h
  obtain ⟨rfl, rfl⟩ := takeOr_eq_ok_iff.mp htake
  by_cases hlength : content.length = 64
  · have hblock : Bytes.toBlock? 64 content = some ⟨content.toArray, by simpa using hlength⟩ :=
      dif_pos hlength
    rw [hblock] at hs
    obtain ⟨rfl, rfl⟩ := Reader.pure_eq_ok_iff.mp hs
    rw [exact_length b _ _ hn]
    simp [writeBytes, Vector.toList]
  · have hnone : Bytes.toBlock? 64 content = none := dif_neg hlength
    rw [hnone] at hs
    exact absurd hs (Reader.fail_ne_ok _ _)

section
variable {α : Type} {write : α → Bytes} {r : Reader α}

/-- Values one after the other: as many as were asked for. -/
theorem times_eq_ok (hr : r.Exact write) {n : Nat} {b rest : Bytes} {xs : List α}
    (h : times r n b = .ok (xs, rest)) : xs.length = n ∧ b = xs.flatMap write ++ rest := by
  induction n generalizing b xs with
  | zero =>
    obtain ⟨rfl, rfl⟩ := Reader.pure_eq_ok_iff.mp h
    simp
  | succ n ih =>
    obtain ⟨x, between, hx, h⟩ := Reader.bind_eq_ok_iff.mp h
    obtain ⟨tail, between', htail, h⟩ := Reader.bind_eq_ok_iff.mp h
    obtain ⟨rfl, rfl⟩ := Reader.pure_eq_ok_iff.mp h
    obtain ⟨hlength, hbetween⟩ := ih htail
    rw [hr b x between hx, hbetween]
    simp [hlength]

theorem exact_list (hr : r.Exact write) : (list r).Exact (writeList write) := by
  intro b xs rest h
  obtain ⟨n, between, hn, htimes⟩ := Reader.bind_eq_ok_iff.mp h
  obtain ⟨rfl, rfl⟩ := times_eq_ok hr htimes
  rw [exact_length b _ _ hn, writeList, List.append_assoc]

end

/-! ## Layouts with one spelling -/

/-- **A layout with one spelling for each value.** -/
class CanonicalLayout (α : Type) [Layout α] : Prop where
  exact_read : (Layout.read : Reader α).Exact Layout.write

instance : CanonicalLayout PullRequest where
  exact_read b m rest h := by
    obtain ⟨filter, between, hfilter, h⟩ := Reader.bind_eq_ok_iff.mp h
    obtain ⟨salt, between', hsalt, h⟩ := Reader.bind_eq_ok_iff.mp h
    obtain ⟨rfl, rfl⟩ := Reader.pure_eq_ok_iff.mp h
    rw [exact_bytes b _ _ hfilter, exact_bytes between _ _ hsalt, ← List.append_assoc]
    rfl

instance : CanonicalLayout PullResponse where
  exact_read b m rest h := by
    obtain ⟨items, hitems, rfl⟩ := Reader.map_eq_ok_iff.mp h
    exact exact_list exact_bytes b items rest hitems

instance : CanonicalLayout PushMessage where
  exact_read b m rest h := by
    obtain ⟨items, hitems, rfl⟩ := Reader.map_eq_ok_iff.mp h
    exact exact_list exact_bytes b items rest hitems

theorem directionIndex_directionOfIndex {index : Nat} (h : index < 2) :
    directionIndex (directionOfIndex index) = index := by
  match index with
  | 0 => rfl
  | 1 => rfl

instance : CanonicalLayout Transfer where
  exact_read b t rest h := by
    obtain ⟨index, b₁, hindex, h⟩ := Reader.bind_eq_ok_iff.mp h
    obtain ⟨source, b₂, hsource, h⟩ := Reader.bind_eq_ok_iff.mp h
    obtain ⟨destination, b₃, hdestination, h⟩ := Reader.bind_eq_ok_iff.mp h
    obtain ⟨account, b₄, haccount, h⟩ := Reader.bind_eq_ok_iff.mp h
    obtain ⟨nonce, b₅, hnonce, h⟩ := Reader.bind_eq_ok_iff.mp h
    obtain ⟨amount, b₆, hamount, h⟩ := Reader.bind_eq_ok_iff.mp h
    obtain ⟨fee, b₇, hfee, h⟩ := Reader.bind_eq_ok_iff.mp h
    obtain ⟨inputs, b₈, hinputs, h⟩ := Reader.bind_eq_ok_iff.mp h
    obtain ⟨signature, b₉, hsignature, h⟩ := Reader.bind_eq_ok_iff.mp h
    obtain ⟨rfl, rfl⟩ := Reader.pure_eq_ok_iff.mp h
    obtain ⟨hsmall, hdirection⟩ := variant_eq_ok hindex
    -- The fields in the order in which they were read.
    rw [hdirection, exact_block 32 _ _ _ hsource, exact_block 32 _ _ _ hdestination,
      exact_block 20 _ _ _ haccount, exact_word _ _ _ hnonce, exact_word _ _ _ hamount,
      exact_word _ _ _ hfee, exact_list (exact_block 32) _ _ _ hinputs, exact_signature _ _ _ hsignature]
    simp only [Layout.write, directionIndex_directionOfIndex hsmall, List.append_assoc]

/-! ## Messages and their spellings -/

section
variable {α : Type} [Layout α] [CanonicalLayout α] {x : α} {b b' : Bytes}

/-- **What spells a value** is what the value is written as. -/
theorem write_of_decode (h : decode b = .ok x) : Layout.write x = b := by
  have hexact := CanonicalLayout.exact_read b x [] (decode_eq_ok_iff.mp h)
  rw [hexact, List.append_nil]

/-- **The message of a value** is what spells it and is not too long. -/
theorem encode_eq_ok_iff_decode [LawfulLayout α] :
    encode x = .ok b ↔ b.length ≤ maxMessageBytes ∧ decode b = .ok x := by
  rw [encode_eq_ok_iff]
  constructor
  · rintro ⟨hfits, rfl⟩
    exact ⟨hfits, decode_write hfits⟩
  · rintro ⟨hfits, hdecode⟩
    rw [write_of_decode hdecode]
    exact ⟨hfits, rfl⟩

end

/-- **One spelling for each value of a kind** (`encode`). -/
structure OneSpelling (α : Type) [Layout α] : Prop where
  /-- Bytes that are not too long spell a value exactly if they are its message. -/
  encode_iff : ∀ (x : α) (b : Bytes),
    encode x = .ok b ↔ b.length ≤ maxMessageBytes ∧ decode b = .ok x
  /-- Whatever their length, different bytes spell different values. -/
  unique : ∀ (x : α) (b b' : Bytes), decode b = .ok x → decode b' = .ok x → b = b'

theorem oneSpelling {α : Type} [Layout α] [LawfulLayout α] [CanonicalLayout α] : OneSpelling α where
  encode_iff _ _ := encode_eq_ok_iff_decode
  unique x b b' h h' := by rw [← write_of_decode h, ← write_of_decode h']

/-- **Requests, responses, announcements and transfers have one spelling each**,
whatever bytes somebody comes up with. -/
theorem messages_have_one_spelling :
    OneSpelling PullRequest ∧ OneSpelling PullResponse ∧ OneSpelling PushMessage ∧ OneSpelling Transfer :=
  ⟨oneSpelling, oneSpelling, oneSpelling, oneSpelling⟩

/-- A transaction, spelled with the text of its value left open. -/
def spelledWith (value : Bytes) : Bytes :=
  writeVariant 0 ++ Bytes.ofWord 0 ++ List.replicate 20 0 ++ [0] ++ writeBytes value ++ Bytes.ofWord 0 ++
    writeBytes [48] ++ Bytes.ofWord 0 ++ writeBytes [] ++ writeBytes (List.replicate 64 0)

/-- **Ordinary transactions have several**: `0` and `00` are the same amount. -/
theorem not_oneSpelling_transaction : ¬OneSpelling Transaction := by
  intro h
  have hshort : decode (spelledWith [48]) = .ok (default : Transaction) := by rfl
  have hlong : decode (spelledWith [48, 48]) = .ok (default : Transaction) := by rfl
  have hsame := h.unique _ _ _ hshort hlong
  revert hsame
  decide +kernel

end TxRelay.Wire
