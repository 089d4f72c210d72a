/-
A message stands for one value, and for nothing else.

Two things are true of every reader of a layout. It takes a value off the bytes
that the value was written to, and it is steady: what it has taken off the front
does not change when more bytes follow. From the first, a message is read back,
and bytes behind it are noticed. From the second, a message that is cut short is
no message: if it were, then the whole one would stand for the same value with
bytes left over.

Amounts are the one field that is written as text. Its digits are those of the
number to the base sixteen, the highest first, and the reader puts them together
two by two; a text with an odd number of digits begins with half a byte.
-/
import TxRelay.Gossip.Item
import TxRelay.Proofs.Wire

set_option autoImplicit false

namespace TxRelay.Wire

open Reader

/-! ## Steady readers -/

/-- **A reader is steady**: what it takes off the front, and what it makes of it,
does not depend on what follows. -/
def Reader.Steady {α : Type} (r : Reader α) : Prop :=
  ∀ (b : Bytes) (x : α) (rest : Bytes), r b = .ok (x, rest) →
    ∀ more : Bytes, r (b ++ more) = .ok (x, rest ++ more)

section
variable {α β : Type} {r : Reader α}

theorem Reader.Steady.pure (x : α) : Reader.Steady (Pure.pure x) := by
  intro b y rest h more
  obtain ⟨rfl, rfl⟩ := Prod.mk.inj (Except.ok.inj h)
  rfl

theorem Reader.Steady.fail (fault : Fault) : Reader.Steady (fail fault : Reader α) := by
  intro b x rest h
  cases h

/-- One reader after the other. -/
theorem Reader.Steady.bind {f : α → Reader β} (h : r.Steady) (h' : ∀ x, (f x).Steady) :
    (r >>= f).Steady := by
  intro b y rest hb more
  have hb : (r b >>= fun p => f p.1 p.2) = .ok (y, rest) := hb
  show (r (b ++ more) >>= fun p => f p.1 p.2) = .ok (y, rest ++ more)
  -- The second reader starts where the first one stopped, before what follows.
  cases hr : r b with
  | error fault =>
    rw [hr] at hb
    cases hb
  | ok taken =>
    obtain ⟨x, between⟩ := taken
    rw [hr] at hb
    rw [h b x between hr more]
    exact h' x between y rest hb more

theorem Reader.Steady.map (h : r.Steady) (f : α → β) : (f <$> r).Steady := by
  rw [map_eq_pure_bind]
  exact h.bind fun x => .pure (f x)

end

theorem steady_takeOr (fault : Fault) (n : Nat) : (takeOr fault n).Steady := by
  intro b x rest h more
  have h : (if (b.take n).length = n then Except.ok (b.take n, b.drop n) else .error fault)
      = .ok (x, rest) := h
  split at h
  · next henough =>
    obtain ⟨rfl, rfl⟩ := Prod.mk.inj (Except.ok.inj h)
    rw [List.length_take] at henough
    have hle : n ≤ b.length := by omega
    have hfront : (b ++ more).take n = b.take n := List.take_append_of_le_length hle
    show (if ((b ++ more).take n).length = n then Except.ok ((b ++ more).take n, (b ++ more).drop n)
      else .error fault) = _
    rw [hfront, if_pos (by rw [List.length_take]; omega), List.drop_append_of_le_length hle]
  · cases h

theorem steady_take (n : Nat) : (take n).Steady := steady_takeOr _ n

theorem steady_block (n : Nat) : (block n).Steady := by
  refine (steady_take n).bind fun b => ?_
  split
  · exact .pure _
  · exact .fail _

theorem steady_byte : byte.Steady := by
  refine (steady_take 1).bind fun b => ?_
  split
  · exact .pure _
  · exact .fail _

theorem steady_word : word.Steady := (steady_take 8).bind fun _ => .pure _

theorem steady_length : length.Steady := (steady_take 8).bind fun _ => .pure _

theorem steady_variant (count : Nat) : (variant count).Steady := by
  refine (steady_take 4).bind fun b => ?_
  dsimp only
  split
  · exact .pure _
  · exact .fail _

theorem steady_bytes : bytes.Steady := steady_length.bind steady_take

theorem steady_signature : signature.Steady := by
  refine steady_length.bind fun n => (steady_takeOr _ n).bind fun b => ?_
  split
  · exact .pure _
  · exact .fail _

theorem steady_amount : amount.Steady := by
  refine steady_length.bind fun n => (steady_takeOr _ n).bind fun text => ?_
  split
  · exact .fail _
  · split
    · exact .pure _
    · exact .fail _

section
variable {α : Type} {r : Reader α}

theorem steady_optional (h : r.Steady) : (optional r).Steady := by
  refine steady_byte.bind fun tag => ?_
  split
  · exact .pure _
  · exact h.map _
  · exact .fail _

theorem steady_times (h : r.Steady) (n : Nat) : (times r n).Steady := by
  induction n with
  | zero => exact .pure []
  | succ n ih => exact h.bind fun x => ih.bind fun xs => .pure (x :: xs)

theorem steady_list (h : r.Steady) : (list r).Steady := steady_length.bind (steady_times h)

end

/-! ## Amounts as text -/

/-- The number that hexadecimal digits spell, the highest first, behind others
that spell `n`. -/
def spelled (n : Nat) (ds : List Nat) : Nat := ds.foldl (fun n d => 16 * n + d) n

/-- **Digits two by two** are the same number as digits one by one. -/
theorem pairUp_eq_spelled (n : Nat) (ds : List Nat) (heven : ds.length % 2 = 0) :
    pairUp n ds = spelled n ds := by
  induction n, ds using pairUp.induct with
  | case1 n high low rest ih =>
    have hrest : rest.length % 2 = 0 := by
      rw [List.length_cons, List.length_cons] at heven
      omega
    have hbyte : n * 256 + high * 16 + low = 16 * (16 * n + high) + low := by omega
    rw [pairUp, ih hrest, hbyte]
    rfl
  | case2 ds n hshort =>
    match ds with
    | [] => rfl
    | [d] => simp at heven
    | high :: low :: rest => exact absurd rfl (hshort high low rest)

/-- **The digits of a number** spell it. -/
theorem exists_digits (n : Nat) :
    ∃ ds : List Nat, Nat.toDigits 16 n = ds.map Nat.digitChar ∧ (∀ d ∈ ds, d < 16) ∧
      spelled 0 ds = n := by
  induction n using Nat.strongRecOn with
  | ind n ih =>
    rw [Nat.toDigits_eq_if (by decide)]
    split
    · next hsmall =>
      refine ⟨[n], rfl, fun d hd => ?_, ?_⟩
      · rw [List.mem_singleton.mp hd]
        exact hsmall
      · show 16 * 0 + n = n
        omega
    · next hlarge =>
      -- The last digit is what is left when the others are taken off.
      obtain ⟨ds, hchars, hdigits, hspelled⟩ := ih (n / 16) (by omega)
      refine ⟨ds ++ [n % 16], ?_, fun d hd => ?_, ?_⟩
      · rw [hchars, List.map_append]
        rfl
      · rcases List.mem_append.mp hd with hin | hlast
        · exact hdigits d hin
        · rw [List.mem_singleton.mp hlast]
          omega
      · have hlast : spelled 0 (ds ++ [n % 16]) = 16 * spelled 0 ds + n % 16 := List.foldl_append
        rw [hlast, hspelled]
        omega

theorem digitValue?_digitChar :
    ∀ d < 16, digitValue? (UInt8.ofNat (Nat.digitChar d).toNat) = some d := by
  decide

theorem digitChar_lt : ∀ d < 16, UInt8.ofNat (Nat.digitChar d).toNat < 0x80 := by
  decide

/-- Digits are read for what they are, wherever they stand. -/
theorem amountDigits_map (index : Nat) {ds : List Nat} (hdigits : ∀ d ∈ ds, d < 16) :
    amountDigits index (ds.map fun d => UInt8.ofNat (Nat.digitChar d).toNat) = .ok ds := by
  induction ds generalizing index with
  | nil => rfl
  | cons d rest ih =>
    obtain ⟨hd, hrest⟩ := List.forall_mem_cons.mp hdigits
    rw [List.map_cons, amountDigits, digitValue?_digitChar d hd]
    dsimp only
    rw [ih _ hrest]
    rfl

/-- Every byte below 128 is a character. -/
theorem checkText_of_ascii (index : Nat) {b : Bytes} (hascii : ∀ x ∈ b, x < 0x80) :
    checkText index 0 b = none := by
  induction b generalizing index with
  | nil => rfl
  | cons x rest ih =>
    obtain ⟨hx, hrest⟩ := List.forall_mem_cons.mp hascii
    have hwidth : leadWidth x = 1 := if_pos hx
    have hlone : checkRest index x 1 rest = none := by
      cases rest <;> rfl
    rw [checkText, hwidth, hlone]
    exact ih (index + 1) hrest

/-- What an amount is written as, digit by digit. -/
theorem exists_amountText (a : Amount) :
    ∃ ds : List Nat,
      amountText a = 48 :: 120 :: ds.map (fun d => UInt8.ofNat (Nat.digitChar d).toNat) ∧
      (∀ d ∈ ds, d < 16) ∧ spelled 0 ds = a.toNat ∧ 0 < ds.length ∧ ds.length ≤ 64 := by
  obtain ⟨ds, hchars, hdigits, hspelled⟩ := exists_digits a.toNat
  have hlength : ds.length = (Nat.toDigits 16 a.toNat).length := by
    rw [hchars, List.length_map]
  refine ⟨ds, ?_, hdigits, hspelled, ?_, ?_⟩
  · rw [amountText, hchars, List.map_map]
    rfl
  · rw [hlength]
    exact Nat.length_toDigits_pos
  · rw [hlength, Nat.length_toDigits_le_iff (by decide) (by decide)]
    exact a.isLt

/-- **An amount is read back from its text.** -/
theorem amountOfText_amountText (a : Amount) : amountOfText (amountText a) = .ok a := by
  obtain ⟨ds, htext, hdigits, hspelled, hpos, hle⟩ := exists_amountText a
  have hsize : ¬((ds.map fun d => UInt8.ofNat (Nat.digitChar d).toNat).length = 0 ||
      64 < (ds.map fun d => UInt8.ofNat (Nat.digitChar d).toNat).length) = true := by
    rw [List.length_map]
    simp only [Bool.or_eq_true, decide_eq_true_eq, not_or]
    omega
  -- With half a byte in front, if need be, the digits make whole bytes.
  have hpaired : pairUp 0 (if ds.length % 2 = 1 then 0 :: ds else ds) = a.toNat := by
    split
    · next hodd =>
      rw [pairUp_eq_spelled 0 (0 :: ds) (by rw [List.length_cons]; omega), ← hspelled]
      rfl
    · next hodd => rw [pairUp_eq_spelled 0 ds (by omega), hspelled]
  rw [htext, amountOfText, stripMark]
  dsimp only
  rw [if_neg hsize, amountDigits_map 2 hdigits, List.length_map]
  show Except.ok (Amount.ofNat (pairUp 0 (if ds.length % 2 = 1 then 0 :: ds else ds))) = _
  rw [hpaired, Amount.ofNat, dif_pos a.isLt]

theorem textFault?_amountText (a : Amount) : textFault? (amountText a) = none := by
  obtain ⟨ds, htext, hdigits, _⟩ := exists_amountText a
  rw [htext]
  refine checkText_of_ascii 0 fun x hx => ?_
  rcases List.mem_cons.mp hx with rfl | hx
  · decide
  rcases List.mem_cons.mp hx with rfl | hx
  · decide
  obtain ⟨d, hd, rfl⟩ := List.mem_map.mp hx
  exact digitChar_lt d (hdigits d hd)

theorem length_amountText_le (a : Amount) : (amountText a).length ≤ 66 := by
  obtain ⟨ds, htext, _, _, _, hle⟩ := exists_amountText a
  rw [htext, List.length_cons, List.length_cons, List.length_map]
  omega

theorem takes_amount (a : Amount) : amount.Takes (writeAmount a) a := by
  have hlength : (amountText a).length < UInt64.size :=
    Nat.lt_of_le_of_lt (length_amountText_le a) (by decide)
  refine (takes_length hlength).bind ((takes_takeOr .shortBlock rfl).bind_nil ?_)
  rw [textFault?_amountText]
  dsimp only
  rw [amountOfText_amountText]
  exact .pure a

/-! ## The other messages -/

theorem takes_byte (b : UInt8) : byte.Takes [b] b := (takes_take (b := [b]) rfl).bind_nil (.pure b)

theorem takes_optional {α : Type} {r : Reader α} {write : α → Bytes} (o : Option α)
    (hr : ∀ x ∈ o, r.Takes (write x) x) : (optional r).Takes (writeOption write o) o := by
  cases o with
  | none => exact (takes_byte 0).bind_nil (.pure none)
  | some x => exact (takes_byte 1).bind ((hr x rfl).map some)

theorem kindOfIndex_kindIndex (k : TxKind) : kindOfIndex (kindIndex k) = k := by
  cases k <;> rfl

instance : LawfulLayout PushMessage where
  takes_write m hm := (@takes_listOfBytes m.items hm).map PushMessage.mk

instance : LawfulLayout Transaction where
  takes_write t ht := by
    have hwrite : Layout.write t = writeVariant (kindIndex t.kind) ++ (Bytes.ofWord t.chainId ++
        (t.sender.toList ++ (writeOption Vector.toList t.recipient ++ (writeAmount t.value ++
          (Bytes.ofWord t.nonce ++ (writeAmount t.gasPrice ++ (Bytes.ofWord t.gasLimit ++
            (writeBytes t.data ++ writeBytes t.signature.toList)))))))) := by
      simp only [Layout.write, List.append_assoc]
    have hdata : t.data.length < UInt64.size := by
      have hpart : (writeBytes t.data).length ≤ (Layout.write t).length := by
        rw [hwrite]
        simp only [List.length_append]
        omega
      rw [length_writeBytes] at hpart
      omega
    have hkind : kindIndex t.kind < 3 := by cases t.kind <;> decide
    rw [hwrite]
    refine (takes_variant hkind (by decide)).bind ?_
    rw [kindOfIndex_kindIndex]
    -- The fields in the order in which they are written.
    exact (takes_word t.chainId).bind <| (takes_block t.sender).bind <|
      (takes_optional t.recipient fun v _ => takes_block v).bind <| (takes_amount t.value).bind <|
      (takes_word t.nonce).bind <| (takes_amount t.gasPrice).bind <| (takes_word t.gasLimit).bind <|
      (takes_bytes hdata).bind <| (takes_signature t.signature).bind_nil (.pure t)

/-- A layout that is read the same whatever follows. -/
class SteadyLayout (α : Type) [Layout α] : Prop where
  steady_read : (Layout.read : Reader α).Steady

instance : SteadyLayout PullRequest where
  steady_read := steady_bytes.bind fun _ => steady_bytes.bind fun _ => .pure _

instance : SteadyLayout PullResponse where
  steady_read := (steady_list steady_bytes).map PullResponse.mk

instance : SteadyLayout PushMessage where
  steady_read := (steady_list steady_bytes).map PushMessage.mk

instance : SteadyLayout Transaction where
  steady_read :=
    (steady_variant 3).bind fun _ => steady_word.bind fun _ => (steady_block 20).bind fun _ =>
      (steady_optional (steady_block 20)).bind fun _ => steady_amount.bind fun _ =>
      steady_word.bind fun _ => steady_amount.bind fun _ => steady_word.bind fun _ =>
      steady_bytes.bind fun _ => steady_signature.bind fun _ => .pure _

instance : SteadyLayout Transfer where
  steady_read :=
    (steady_variant 2).bind fun _ => (steady_block 32).bind fun _ => (steady_block 32).bind fun _ =>
      (steady_block 20).bind fun _ => steady_word.bind fun _ => steady_word.bind fun _ =>
      steady_word.bind fun _ => (steady_list (steady_block 32)).bind fun _ =>
      steady_signature.bind fun _ => .pure _

/-! ## Messages and their values -/

section
variable {α : Type} [Layout α]

theorem decode_eq_ok_iff {b : Bytes} {x : α} :
    decode b = .ok x ↔ (Layout.read : Reader α) b = .ok (x, []) := by
  rw [decode]
  split
  · next y heq => simp [heq]
  · next y head tail heq => simp [heq]
  · next fault heq => simp [heq]

/-- **A value and its message** (`encode`, `decode`). -/
structure RoundTrip (x : α) : Prop where
  /-- There is a message if and only if it is not too long. -/
  encodes_iff : (∃ b, encode x = .ok b) ↔ (Layout.write x).length ≤ maxMessageBytes
  /-- It is what the value is laid out as, and spells the value. -/
  decode_eq : ∀ b, encode x = .ok b → b = Layout.write x ∧ decode b = .ok x
  /-- Cut short it spells nothing. -/
  cut_fails : ∀ b, encode x = .ok b → ∀ part lost : Bytes, part ++ lost = b → lost ≠ [] →
    ∃ fault, (decode part : Except Fault α) = .error fault
  /-- With more behind it, it spells nothing either. -/
  overrun_fails : ∀ b, encode x = .ok b → ∀ more : Bytes, more ≠ [] →
    (decode (b ++ more) : Except Fault α) = .error .trailingBytes

variable [LawfulLayout α]

/-- Bytes behind a message are noticed. -/
theorem decode_write_append {x : α} (hx : (Layout.write x).length ≤ maxMessageBytes)
    {more : Bytes} (hmore : more ≠ []) :
    (decode (Layout.write x ++ more) : Except Fault α) = .error .trailingBytes := by
  obtain ⟨first, rest, rfl⟩ := List.exists_cons_of_ne_nil hmore
  rw [decode, LawfulLayout.takes_write x (Nat.lt_of_le_of_lt hx maxMessageBytes_lt) (first :: rest)]

/-- **A message that is cut short** is no message: whatever it spelled, the whole
one would spell it too and have bytes left over. -/
theorem decode_cut [SteadyLayout α] {x : α} (hx : (Layout.write x).length ≤ maxMessageBytes)
    {part lost : Bytes} (hwhole : part ++ lost = Layout.write x) (hlost : lost ≠ []) :
    ∃ fault, (decode part : Except Fault α) = .error fault := by
  cases hpart : (decode part : Except Fault α) with
  | error fault => exact ⟨fault, rfl⟩
  | ok y =>
    have hsteady := SteadyLayout.steady_read part y [] (decode_eq_ok_iff.mp hpart) lost
    have hread := decode_eq_ok_iff.mp (decode_write hx)
    rw [hwhole, hread] at hsteady
    exact absurd (Prod.mk.inj (Except.ok.inj hsteady)).2.symm hlost

theorem roundTrip [SteadyLayout α] (x : α) : RoundTrip x where
  encodes_iff := by
    constructor
    · rintro ⟨b, hb⟩
      exact (encode_eq_ok_iff.mp hb).1
    · exact fun hfits => ⟨_, encode_eq_ok_iff.mpr ⟨hfits, rfl⟩⟩
  decode_eq b hb := by
    obtain ⟨hfits, rfl⟩ := encode_eq_ok_iff.mp hb
    exact ⟨rfl, decode_write hfits⟩
  cut_fails b hb part lost hwhole hlost := by
    obtain ⟨hfits, rfl⟩ := encode_eq_ok_iff.mp hb
    exact decode_cut hfits hwhole hlost
  overrun_fails b hb more hmore := by
    obtain ⟨hfits, rfl⟩ := encode_eq_ok_iff.mp hb
    exact decode_write_append hfits hmore

end

/-- What is known of an item by its id is known of it after a message. -/
theorem gossipId_decode {ι : Type} [GossipItem ι] [LawfulLayout ι] {x : ι} {b : Bytes}
    (hb : encode x = .ok b) :
    (decode b : Except Fault ι).map GossipItem.gossipId = .ok (GossipItem.gossipId x) := by
  obtain ⟨hfits, rfl⟩ := encode_eq_ok_iff.mp hb
  rw [decode_write hfits]
  rfl

/-- **Messages stand for their values**, whatever they are about: requests,
responses and announcements, and the items in them, which keep their ids. -/
theorem messages_round_trip :
    (∀ m : PullRequest, RoundTrip m) ∧ (∀ m : PullResponse, RoundTrip m) ∧
      (∀ m : PushMessage, RoundTrip m) ∧
      (∀ tx : Transaction, RoundTrip tx ∧ ∀ b, encode tx = .ok b →
        (decode b : Except Fault Transaction).map GossipItem.gossipId = .ok (GossipItem.gossipId tx)) ∧
      ∀ t : Transfer, RoundTrip t ∧ ∀ b, encode t = .ok b →
        (decode b : Except Fault Transfer).map GossipItem.gossipId = .ok (GossipItem.gossipId t) :=
  ⟨roundTrip, roundTrip, roundTrip, fun tx => ⟨roundTrip tx, fun _ => gossipId_decode⟩,
    fun t => ⟨roundTrip t, fun _ => gossipId_decode⟩⟩

end TxRelay.Wire
