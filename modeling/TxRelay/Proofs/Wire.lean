/-
What was written can be read.

A reader takes a value off the bytes that it was written to and leaves what
follows. Readers with this property can be put one after the other, so a
record is read back field by field, in the order in which it was written. The
lengths in front of sequences are the one thing that could go wrong: they have
eight bytes, so there must not be more than eight bytes can count, as there are
not in anything that fits into a message.
-/
import TxRelay.Wire.Message

set_option autoImplicit false

namespace TxRelay

/-- A number comes back without what does not fit in the width. -/
theorem Bytes.toNatLE_ofNatLE_mod (width v : Nat) :
    toNatLE (ofNatLE width v) = v % Nat.pow 256 width := by
  induction width generalizing v with
  | zero => exact (Nat.mod_one v).symm
  | succ w ih =>
    have hpow : Nat.pow 256 (w + 1) = 256 * Nat.pow 256 w := Nat.mul_comm _ _
    rw [ofNatLE, toNatLE, ih, UInt8.toNat_ofNat', hpow, Nat.mod_mul]

namespace Wire

open Reader

/-! ## Readers in sequence -/

/-- **A reader takes a value off the front**: from these bytes, whatever follows
them, and leaves the rest. -/
def Reader.Takes {α : Type} (r : Reader α) (b : Bytes) (x : α) : Prop :=
  ∀ rest : Bytes, r (b ++ rest) = .ok (x, rest)

section
variable {α β : Type} {r : Reader α} {b b' : Bytes} {x : α} {y : β}

theorem Reader.Takes.pure (x : α) : Reader.Takes (Pure.pure x) [] x := fun _ => rfl

/-- One reader after the other. -/
theorem Reader.Takes.bind {f : α → Reader β} (h : r.Takes b x) (h' : (f x).Takes b' y) :
    (r >>= f).Takes (b ++ b') y := by
  intro rest
  have hfirst : r (b ++ (b' ++ rest)) = .ok (x, b' ++ rest) := h _
  rw [List.append_assoc]
  show (r (b ++ (b' ++ rest)) >>= fun p => f p.1 p.2) = _
  rw [hfirst]
  exact h' rest

theorem Reader.Takes.map (h : r.Takes b x) (f : α → β) : (f <$> r).Takes b (f x) := by
  intro rest
  show (r (b ++ rest) >>= fun p => Pure.pure (f p.1, p.2)) = _
  rw [h rest]
  rfl

/-- A reader whose value only has to be looked at. -/
theorem Reader.Takes.bind_nil {f : α → Reader β} (h : r.Takes b x) (h' : (f x).Takes [] y) :
    (r >>= f).Takes b y := by
  have hall := h.bind h'
  rwa [List.append_nil] at hall

end

/-! ## Parts -/

theorem takes_takeOr (fault : Fault) {n : Nat} {b : Bytes} (hn : b.length = n) :
    (takeOr fault n).Takes b b := by
  intro rest
  have hfront : (b ++ rest).take n = b := List.take_left' hn
  have hrest : (b ++ rest).drop n = rest := List.drop_left' hn
  show (if ((b ++ rest).take n).length = n then Except.ok ((b ++ rest).take n, (b ++ rest).drop n)
    else .error fault) = _
  rw [hfront, hrest, if_pos hn]

theorem takes_take {n : Nat} {b : Bytes} (hn : b.length = n) : (take n).Takes b b :=
  takes_takeOr .unexpectedEnd hn

theorem takes_block {n : Nat} (v : Vector UInt8 n) : (block n).Takes v.toList v := by
  refine (takes_take (by simp)).bind_nil ?_
  rw [Bytes.toBlock?_toList]
  exact .pure v

theorem takes_word (w : UInt64) : word.Takes (Bytes.ofWord w) w := by
  refine (takes_take (by simp)).bind_nil ?_
  have hback : UInt64.ofNat (Bytes.toNatLE (Bytes.ofWord w)) = w := by
    rw [Bytes.ofWord, Bytes.toNatLE_ofNatLE w.toNat_lt, UInt64.ofNat_toNat]
  rw [hback]
  exact .pure w

/-- A length comes back without what does not fit in eight bytes. -/
theorem takes_length_mod (n : Nat) : length.Takes (writeLength n) (n % UInt64.size) := by
  refine (takes_take (by simp [writeLength])).bind_nil ?_
  rw [writeLength, Bytes.toNatLE_ofNatLE_mod]
  exact .pure _

theorem takes_length {n : Nat} (hn : n < UInt64.size) : length.Takes (writeLength n) n := by
  have hmod := takes_length_mod n
  rwa [Nat.mod_eq_of_lt hn] at hmod

theorem takes_variant {count index : Nat} (hindex : index < count) (hcount : count ≤ 256) :
    (variant count).Takes (writeVariant index) index := by
  refine (takes_take (by simp [writeVariant])).bind_nil ?_
  have hsmall : index < Nat.pow 256 4 := Nat.lt_of_lt_of_le hindex (Nat.le_trans hcount (by decide))
  rw [writeVariant, Bytes.toNatLE_ofNatLE hsmall, if_pos hindex]
  exact .pure index

theorem takes_bytes {b : Bytes} (hb : b.length < UInt64.size) : bytes.Takes (writeBytes b) b :=
  (takes_length hb).bind (takes_take rfl)

theorem takes_signature (s : Signature) : signature.Takes (writeBytes s.toList) s := by
  refine (takes_length (by simp; decide)).bind ((takes_takeOr .shortBlock rfl).bind_nil ?_)
  rw [Bytes.toBlock?_toList]
  exact .pure s

/-! ## Sequences -/

section
variable {α : Type} {write : α → Bytes} {r : Reader α} {xs : List α}

theorem takes_times (hr : ∀ x ∈ xs, r.Takes (write x) x) :
    (times r xs.length).Takes (xs.flatMap write) xs := by
  induction xs with
  | nil => exact .pure []
  | cons x rest ih =>
    have hrest := ih fun y hy => hr y (List.mem_cons_of_mem x hy)
    exact (hr x List.mem_cons_self).bind (hrest.bind_nil (.pure (x :: rest)))

theorem takes_list (hlen : xs.length < UInt64.size) (hr : ∀ x ∈ xs, r.Takes (write x) x) :
    (list r).Takes (writeList write xs) xs :=
  (takes_length hlen).bind (takes_times hr)

theorem length_writeList (write : α → Bytes) (xs : List α) :
    (writeList write xs).length = 8 + (xs.flatMap write).length := by
  simp [writeList, writeLength]

theorem length_le_flatMap (write : α → Bytes) {x : α} (hx : x ∈ xs) :
    (write x).length ≤ (xs.flatMap write).length := by
  obtain ⟨before, after, rfl⟩ := List.append_of_mem hx
  rw [List.flatMap_append, List.flatMap_cons, List.length_append, List.length_append]
  omega

/-- Of things that take up space there are no more than there is space. -/
theorem length_le_length_flatMap (hsome : ∀ x ∈ xs, 0 < (write x).length) :
    xs.length ≤ (xs.flatMap write).length := by
  induction xs with
  | nil => exact Nat.zero_le _
  | cons x rest ih =>
    have hfirst := hsome x List.mem_cons_self
    have hrest := ih fun y hy => hsome y (List.mem_cons_of_mem x hy)
    rw [List.flatMap_cons, List.length_append, List.length_cons]
    omega

end

theorem length_writeBytes (b : Bytes) : (writeBytes b).length = 8 + b.length := by
  simp [writeBytes, writeLength]

/-! ## Messages -/

/-- **A layout without loss**: a value is taken off the bytes that it was written
to, if there are not more than can be counted in eight bytes. -/
class LawfulLayout (α : Type) [Layout α] : Prop where
  takes_write : ∀ x : α, (Layout.write x).length < UInt64.size →
    (Layout.read : Reader α).Takes (Layout.write x) x

theorem maxMessageBytes_lt : maxMessageBytes < UInt64.size := by decide

section
variable {α : Type} [Layout α] [LawfulLayout α] {x : α}

/-- **What was written is read back**, however long it is. -/
theorem decode_write_of_lt (hx : (Layout.write x).length < UInt64.size) :
    decode (Layout.write x) = .ok x := by
  have hread : (Layout.read : Reader α) (Layout.write x ++ []) = .ok (x, []) :=
    LawfulLayout.takes_write x hx []
  rw [List.append_nil] at hread
  rw [decode, hread]

/-- **A message is read back.** -/
theorem decode_write (hx : (Layout.write x).length ≤ maxMessageBytes) :
    decode (Layout.write x) = .ok x :=
  decode_write_of_lt (Nat.lt_of_le_of_lt hx maxMessageBytes_lt)

end

theorem encode_eq_ok_iff {α : Type} [Layout α] {x : α} {b : Bytes} :
    encode x = .ok b ↔ (Layout.write x).length ≤ maxMessageBytes ∧ Layout.write x = b := by
  rw [encode]
  split
  · next hfits => simp [hfits]
  · next hlong => simp [hlong]

instance : LawfulLayout PullRequest where
  takes_write m hm := by
    have hparts : (Layout.write m).length = (8 + m.filter.length) + (8 + m.salt.length) := by
      show (writeBytes m.filter ++ writeBytes m.salt).length = _
      rw [List.length_append, length_writeBytes, length_writeBytes]
    exact (takes_bytes (by omega)).bind ((takes_bytes (by omega)).bind_nil (.pure m))

/-- Byte strings one after the other. -/
theorem takes_listOfBytes {items : List Bytes}
    (hitems : (writeList writeBytes items).length < UInt64.size) :
    (list bytes).Takes (writeList writeBytes items) items := by
  rw [length_writeList] at hitems
  have hcount : items.length ≤ (items.flatMap writeBytes).length :=
    length_le_length_flatMap fun b _ => by rw [length_writeBytes]; omega
  refine takes_list (by omega) fun b hb => takes_bytes ?_
  have hitem := length_le_flatMap writeBytes hb
  rw [length_writeBytes] at hitem
  omega

instance : LawfulLayout PullResponse where
  takes_write m hm := (@takes_listOfBytes m.items hm).map PullResponse.mk

theorem directionOfIndex_directionIndex (d : Direction) :
    directionOfIndex (directionIndex d) = d := by
  cases d <;> rfl

instance : LawfulLayout Transfer where
  takes_write t ht := by
    have hwrite : Layout.write t = writeVariant (directionIndex t.direction) ++ (t.source.toList ++
        (t.destination.toList ++ (t.account.toList ++ (Bytes.ofWord t.nonce ++
          (Bytes.ofWord t.amount ++ (Bytes.ofWord t.fee ++
            (writeList Vector.toList t.inputs ++ writeBytes t.signature.toList))))))) := by
      simp only [Layout.write, List.append_assoc]
    have hinputs : (writeList Vector.toList t.inputs).length < UInt64.size := by
      refine Nat.lt_of_le_of_lt ?_ ht
      rw [hwrite]
      simp only [List.length_append]
      omega
    have hcount : t.inputs.length < UInt64.size := by
      have hcount : t.inputs.length ≤ (t.inputs.flatMap Vector.toList).length :=
        length_le_length_flatMap (by simp)
      rw [length_writeList] at hinputs
      omega
    have hdirection : directionIndex t.direction < 2 := by cases t.direction <;> decide
    rw [hwrite]
    refine (takes_variant hdirection (by decide)).bind ?_
    rw [directionOfIndex_directionIndex]
    -- The fields in the order in which they are written.
    exact (takes_block t.source).bind <| (takes_block t.destination).bind <|
      (takes_block t.account).bind <| (takes_word t.nonce).bind <| (takes_word t.amount).bind <|
      (takes_word t.fee).bind <| (takes_list hcount fun v _ => takes_block v).bind <|
      (takes_signature t.signature).bind_nil (.pure t)

/-- A transfer takes up 32 bytes for each of its inputs, and 192 for all else. -/
theorem length_write_transfer (t : Transfer) :
    (Layout.write t).length = 192 + 32 * t.inputs.length := by
  have hinputs : (t.inputs.flatMap Vector.toList).length = 32 * t.inputs.length := by
    induction t.inputs with
    | nil => rfl
    | cons input rest ih =>
      rw [List.flatMap_cons, List.length_append, ih, Vector.length_toList, List.length_cons]
      omega
  simp only [Layout.write, writeVariant, List.length_append, Bytes.length_ofNatLE,
    Bytes.length_ofWord, Vector.length_toList, length_writeList, length_writeBytes, hinputs]
  omega

end Wire

end TxRelay
