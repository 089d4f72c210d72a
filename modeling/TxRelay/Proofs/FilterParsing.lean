/-
Filters that strangers send.

The bytes of a filter say four things that need not agree: how many bytes of bits
follow, how many bits there are, how many positions an element has, and how many bits
there should be. The length is cut to what the bytes hold, what the bytes hold is cut to
the length, and whatever is left after the number of insertions is ignored. A filter is
accepted if the number of positions is in range and the length that remains is the
declared size.

So an accepted filter is sound like one that was made here. It has no more bits than its
bytes held, every position of every element is one of these bits, and its own bytes are no
more than those it was read from and are read to the same filter again.
-/
import TxRelay.Proofs.Canonical
import TxRelay.Proofs.FilterBytes
import TxRelay.Proofs.FilterContents

set_option autoImplicit false

namespace TxRelay.Bloom

open Wire

/-! ## Bits -/

namespace Bits

/-- A bit, if it is there. -/
def get? (b : Bits) (i : Nat) : Option Bool :=
  if i < b.length then b.bytes[i / 8]?.map (bitOf · (i % 8)) else none

/-- Whether all of some bits are set, and how many were looked at: the first that is not set
ends the search. There is no answer if one is looked at that is not there. -/
def lookUp (b : Bits) : List Nat → Option (Bool × Nat)
  | [] => some (true, 0)
  | i :: rest => do
    let isSet ← b.get? i
    if isSet then
      let (all, n) ← b.lookUp rest
      return (all, n + 1)
    else return (false, 1)

variable {b : Bits} {i : Nat}

/-- There is a byte for each bit. -/
theorem div_lt_size (hi : i < b.length) : i / 8 < b.bytes.size := by
  have hsize := b.size_eq
  rw [byteCount] at hsize
  omega

/-- Within the length there is nothing that a look could miss. -/
theorem get?_eq_some (hi : i < b.length) : b.get? i = some (b.get i) := by
  have hbyte := div_lt_size hi
  rw [get?, if_pos hi, get, decide_eq_true hi, Bool.true_and]
  simp [Array.getD, hbyte]

/-- Bits that are there are found, at one look each. -/
theorem lookUp_eq_some {ps : List Nat} (hps : ∀ i ∈ ps, i < b.length) :
    ∃ n ≤ ps.length, b.lookUp ps = some (ps.all b.get, n) := by
  induction ps with
  | nil => exact ⟨0, Nat.le_refl 0, rfl⟩
  | cons i rest ih =>
    obtain ⟨n, hn, hrest⟩ := ih fun j hj => hps j (List.mem_cons_of_mem i hj)
    have hfirst := get?_eq_some (hps i List.mem_cons_self)
    by_cases hset : b.get i = true
    · refine ⟨n + 1, Nat.succ_le_succ hn, ?_⟩
      simp [lookUp, hfirst, hset, hrest]
    · refine ⟨1, Nat.le_add_left 1 _, ?_⟩
      simp [lookUp, hfirst, hset]

section
variable {n : Nat} {content : Bytes}

theorem length_ofBytes (n : Nat) (content : Bytes) :
    (ofBytes n content).length = min n (8 * content.length) := rfl

/-- No more bytes are kept than there were. -/
theorem size_ofBytes_le (n : Nat) (content : Bytes) :
    (ofBytes n content).bytes.size ≤ content.length := by
  rw [size_eq, length_ofBytes, byteCount]
  omega

/-- The bits are those of the bytes, in their order. -/
theorem get_ofBytes (hi : i < (ofBytes n content).length) :
    ∃ x, content[i / 8]? = some x ∧ (ofBytes n content).get i = bitOf x (i % 8) := by
  rw [length_ofBytes] at hi
  have hinside : i / 8 < content.length := by omega
  have hkept : i / 8 < byteCount (min n (8 * content.length)) := by
    rw [byteCount]
    omega
  refine ⟨content[i / 8], List.getElem?_eq_getElem hinside, ?_⟩
  have hbyte : (ofBytes n content).bytes.getD (i / 8) 0 = content[i / 8] := by
    simp only [ofBytes, Array.getD_eq_getD_getElem?, List.getElem?_toArray]
    rw [List.getElem?_take_of_lt hkept, List.getElem?_eq_getElem hinside, Option.getD_some]
  rw [get, hbyte, length_ofBytes, decide_eq_true hi, Bool.true_and]

end

end Bits

/-- An element has as many positions as the filter says. -/
theorem length_positions {m : Nat} (hm : 0 < m) (element salt : Bytes) (k : Nat) :
    (positions element salt k m).length = k := by
  rw [positions, if_neg (Nat.ne_of_gt hm), List.length_map, List.length_range]

namespace BloomFilter

/-! ## What is read -/

/-- A length that was read is a word. -/
theorem length_lt {b rest : Bytes} {n : Nat} (h : Reader.length b = .ok (n, rest)) : n < UInt64.size := by
  obtain ⟨front, between, htake, hn⟩ := Reader.bind_eq_ok_iff.mp h
  obtain ⟨hlength, -⟩ := takeOr_eq_ok_iff.mp htake
  obtain ⟨rfl, -⟩ := Reader.pure_eq_ok_iff.mp hn
  exact toNatLE_lt_of_length hlength

/-- **Bytes that spell a filter**: as many bytes of bits as they say, and four numbers. The
bits are as many as the first of these, or as there are. -/
theorem read_eq_ok {b rest : Bytes} {f : BloomFilter} (h : read b = .ok (f, rest)) :
    ∃ content length after, b = writeLength content.length ++ (content ++ after) ∧ 32 ≤ after.length ∧
      f.bits = Bits.ofBytes length content ∧ f.m < UInt64.size ∧ f.n < UInt64.size := by
  obtain ⟨content, b₁, hcontent, h⟩ := Reader.bind_eq_ok_iff.mp h
  obtain ⟨length, b₂, hlength, h⟩ := Reader.bind_eq_ok_iff.mp h
  obtain ⟨k, b₃, hk, h⟩ := Reader.bind_eq_ok_iff.mp h
  obtain ⟨m, b₄, hm, h⟩ := Reader.bind_eq_ok_iff.mp h
  obtain ⟨n, b₅, hn, h⟩ := Reader.bind_eq_ok_iff.mp h
  obtain ⟨rfl, rfl⟩ := Reader.pure_eq_ok_iff.mp h
  refine ⟨content, length, b₁, ?_, ?_, rfl, length_lt hm, length_lt hn⟩
  · rw [exact_bytes b _ _ hcontent, writeBytes, List.append_assoc]
  · -- Four numbers of eight bytes each.
    rw [exact_length b₁ _ _ hlength, exact_length b₂ _ _ hk, exact_length b₃ _ _ hm,
      exact_length b₄ _ _ hn]
    simp only [writeLength, List.length_append, Bytes.length_ofNatLE]
    omega

/-- The content comes after the eight bytes of its length. -/
theorem getElem?_content {content after : Bytes} {j : Nat} (hj : j < content.length) :
    (writeLength content.length ++ (content ++ after))[8 + j]? = content[j]? := by
  have hfront : (writeLength content.length).length = 8 := by simp [writeLength]
  rw [List.getElem?_append_right (by omega), hfront, Nat.add_sub_cancel_left, List.getElem?_append_left hj]

/-- **What is accepted**: a filter in few enough bytes, with positions in range and with as many
bits as it declares. -/
theorem parse_eq_ok_iff {b : Bytes} {max : Nat} {f : BloomFilter} :
    parse b max = .ok f ↔ b.length ≤ max ∧ (∃ rest, read b = .ok (f, rest)) ∧
      (0 < f.k ∧ f.k ≤ maxHashCount) ∧ 0 < f.m ∧ f.Fits := by
  rw [parse]
  by_cases hmax : max < b.length
  · rw [if_pos hmax]
    have hnot : ¬b.length ≤ max := Nat.not_le.mpr hmax
    simp [hnot]
  · rw [if_neg hmax]
    have hle : b.length ≤ max := Nat.le_of_not_lt hmax
    cases hread : read b with
    | error fault => simp
    | ok taken =>
      obtain ⟨g, rest⟩ := taken
      dsimp only
      split
      · next hk =>
        simp only [reduceCtorEq, Except.ok.injEq, Prod.mk.injEq, false_iff]
        rintro ⟨-, ⟨_, rfl, -⟩, hpos, -⟩
        omega
      · next hk =>
        split
        · next hm =>
          simp only [reduceCtorEq, Except.ok.injEq, Prod.mk.injEq, false_iff]
          rintro ⟨-, ⟨_, rfl, -⟩, -, hpos, hfits⟩
          rw [Fits] at hfits
          omega
        · next hm =>
          simp only [Except.ok.injEq, Prod.mk.injEq, Fits]
          constructor
          · rintro rfl
            refine ⟨hle, ⟨rest, rfl, rfl⟩, ?_⟩
            omega
          · rintro ⟨-, ⟨_, rfl, -⟩, -⟩
            rfl

section
variable {b : Bytes} {max : Nat} {f : BloomFilter}

/-- **What a stranger is believed is sound.** -/
theorem sound_of_parse (h : parse b max = .ok f) : f.Sound := by
  obtain ⟨-, ⟨rest, hread⟩, ⟨hk_pos, hk_le⟩, hm_pos, hfits⟩ := parse_eq_ok_iff.mp h
  obtain ⟨_, _, _, -, -, -, hm_lt, -⟩ := read_eq_ok hread
  exact ⟨hfits, hk_pos, hk_le, hm_pos, hm_lt⟩

theorem Sound.clear (h : f.Sound) : f.clear.Sound := ⟨h.fits, h.k_pos, h.k_le, h.m_pos, h.m_lt⟩

theorem Sound.undergo (h : f.Sound) (d : Operation) : (f.undergo d).Sound := by
  cases d with
  | insert element salt => exact h.insert element salt
  | clear => exact h.clear

/-! ## Filters that come back -/

/-- The bytes of a filter: those of its bits and five numbers. -/
theorem length_toBytes (f : BloomFilter) : f.toBytes.length = 40 + f.bits.bytes.size := by
  simp only [toBytes, writeLength, List.length_append, length_writeBytes, Bytes.length_ofNatLE,
    Array.length_toList]
  omega

/-- A filter that was accepted has no more bytes than it was read from. -/
theorem length_toBytes_le (h : parse b max = .ok f) : f.toBytes.length ≤ b.length := by
  obtain ⟨-, ⟨rest, hread⟩, -⟩ := parse_eq_ok_iff.mp h
  obtain ⟨content, length, after, rfl, hafter, hbits, -⟩ := read_eq_ok hread
  have hsize := Bits.size_ofBytes_le length content
  rw [← hbits] at hsize
  simp only [length_toBytes, writeLength, List.length_append, Bytes.length_ofNatLE]
  omega

/-- A filter that somebody has: it was made empty or accepted from a stranger, and whatever was
done to it since. -/
inductive Obtained : BloomFilter → Prop where
  | new (m k : Nat) (hm : m < UInt64.size) : Obtained (new m k)
  | sized (elements : Nat) (rate : Float) : Obtained (sized elements rate)
  | accepted (b : Bytes) (max : Nat) (f : BloomFilter) (h : parse b max = .ok f) : Obtained f
  | undergone (f : BloomFilter) (d : Operation) (h : Obtained f) : Obtained (f.undergo d)

/-- **Nobody has an unsound filter.** -/
theorem Obtained.sound (h : Obtained f) : f.Sound := by
  induction h with
  | new m k hm => exact sound_new hm k
  | sized elements rate => exact sound_sized elements rate
  | accepted b max f hparse => exact sound_of_parse hparse
  | undergone f d _ ih => exact ih.undergo d

/-- **A filter comes back** from its bytes to whoever accepts so many (`BloomFilter::parse`). -/
structure ComesBack (f : BloomFilter) : Prop where
  accepted_iff : ∀ max, (∃ g, parse f.toBytes max = .ok g) ↔ f.toBytes.length ≤ max
  /-- Who does not says so. -/
  refused : ∀ max, ¬f.toBytes.length ≤ max →
    parse f.toBytes max = .error (.tooLarge f.toBytes.length max)
  same : ∀ max g, parse f.toBytes max = .ok g →
    g.bits = f.bits ∧ g.k = f.k ∧ g.m = f.m ∧ g.n = f.n
  /-- So whatever is asked under whatever salt, the answers agree. -/
  answers : ∀ max g, parse f.toBytes max = .ok g →
    ∀ element salt, g.contains element salt = f.contains element salt

/-- The number of insertions is the one thing that could be too large to be written. -/
theorem Sound.parse_toBytes_of_lt (h : f.Sound) (hn : f.n < UInt64.size) (hmax : f.toBytes.length ≤ max) :
    parse f.toBytes max = .ok f := by
  rw [parse_toBytes h hmax, Nat.mod_eq_of_lt hn]

theorem parse_eq_tooLarge (hmax : ¬b.length ≤ max) : parse b max = .error (.tooLarge b.length max) :=
  if_pos (Nat.lt_of_not_le hmax)

theorem Sound.comesBack (h : f.Sound) (hn : f.n < UInt64.size) : f.ComesBack := by
  -- Who reads the bytes at all reads the filter itself.
  have hself : ∀ max g, parse f.toBytes max = .ok g → g = f := by
    intro max g hg
    have hmax := (parse_eq_ok_iff.mp hg).1
    exact Except.ok.inj (hg.symm.trans (h.parse_toBytes_of_lt hn hmax))
  constructor
  case accepted_iff =>
    intro max
    constructor
    · rintro ⟨g, hg⟩
      exact (parse_eq_ok_iff.mp hg).1
    · intro hmax
      exact ⟨f, h.parse_toBytes_of_lt hn hmax⟩
  case refused =>
    intro max hmax
    exact parse_eq_tooLarge hmax
  case same =>
    intro max g hg
    rw [hself max g hg]
    exact ⟨rfl, rfl, rfl, rfl⟩
  case answers =>
    intro max g hg element salt
    rw [hself max g hg]

/-- **What was accepted is accepted again** in its own bytes. -/
theorem parse_toBytes_of_parse (h : parse b max = .ok f) : parse f.toBytes max = .ok f := by
  obtain ⟨hmax, ⟨rest, hread⟩, -⟩ := parse_eq_ok_iff.mp h
  obtain ⟨_, _, _, -, -, -, -, hn⟩ := read_eq_ok hread
  exact (sound_of_parse h).parse_toBytes_of_lt hn (Nat.le_trans (length_toBytes_le h) hmax)

end

/-- **Filters come back.** However a filter was made and whatever was done to it, its bytes are
read to the same filter by whoever accepts so many, and by nobody else; and whatever bytes a
stranger sent, the filter that was accepted takes up no more and is read to itself. -/
theorem obtained_comesBack :
    (∀ f : BloomFilter, f.Obtained → f.n < UInt64.size → f.ComesBack) ∧
      ∀ (b : Bytes) (max : Nat) (f : BloomFilter), parse b max = .ok f →
        f.toBytes.length ≤ b.length ∧ parse f.toBytes max = .ok f := by
  constructor
  · intro f hf hn
    exact hf.sound.comesBack hn
  · intro b max f h
    exact ⟨length_toBytes_le h, parse_toBytes_of_parse h⟩

/-- Thirteen bits in four bytes: bits beyond the length in the second byte, two bytes that are
not needed, and three that follow. -/
def untidy : Bytes :=
  writeBytes [0x01, 0xf0, 0xff, 0xff] ++ writeLength 13 ++ writeLength 2 ++ writeLength 13 ++ writeLength 5 ++
    [7, 7, 7]

/-- The filter in these bytes. The bits beyond the length are kept, the other bytes are not. -/
def tidied : BloomFilter := ⟨⟨13, #[0x01, 0xf0], rfl⟩, 2, 13, 5⟩

/-- With two bytes to spare the untidy filter is accepted, and so is what is made of it. -/
theorem comesBack_tidied :
    (tidied.clear.insert [1] [2]).ComesBack ∧ tidied.toBytes.length ≤ untidy.length ∧
      parse tidied.toBytes 49 = .ok tidied := by
  have hparse : parse untidy 49 = .ok tidied := by rfl
  have hobtained : (tidied.clear.insert [1] [2]).Obtained :=
    .undergone _ (.insert [1] [2]) (.undergone _ .clear (.accepted untidy 49 tidied hparse))
  exact ⟨obtained_comesBack.1 _ hobtained (by decide), obtained_comesBack.2 untidy 49 tidied hparse⟩

/-! ## Filters that are safe to query -/

/-- **A filter that is safe to query**, out of some bytes (`BloomFilter::parse`). -/
structure SafeToQuery (b : Bytes) (f : BloomFilter) : Prop where
  k_pos : 1 ≤ f.k
  k_le : f.k ≤ 32
  m_pos : 1 ≤ f.m
  /-- The declared size is the number of bits that are carried. -/
  length_eq : f.bits.length = f.m
  /-- For these there is room in the bytes, besides the five numbers. -/
  m_le : f.m + 8 * 40 ≤ 8 * b.length
  /-- Each is a bit of the bytes, at its place after the first number. -/
  carried : ∀ i < f.m, ∃ x, b[8 + i / 8]? = some x ∧ f.bits.get i = Bits.bitOf x (i % 8)
  /-- Whatever is asked under whatever salt, only bits are looked at that are carried. -/
  within : ∀ element salt, ∀ i ∈ positions element salt f.k f.m, i < f.bits.length
  /-- So the answer is found, in at most 32 looks. -/
  found : ∀ element salt, ∃ n ≤ 32,
    f.bits.lookUp (positions element salt f.k f.m) = some (f.contains element salt, n)

section
variable {b : Bytes} {max : Nat} {f : BloomFilter}

theorem Sound.within (h : f.Sound) (element salt : Bytes) :
    ∀ i ∈ positions element salt f.k f.m, i < f.bits.length := by
  intro i hi
  rw [h.fits]
  exact lt_of_mem_positions hi

/-- **An answer takes as many looks as there are positions**, or fewer. -/
theorem Sound.found (h : f.Sound) (element salt : Bytes) :
    ∃ n ≤ 32, f.bits.lookUp (positions element salt f.k f.m) = some (f.contains element salt, n) := by
  obtain ⟨n, hn, hfound⟩ := Bits.lookUp_eq_some (h.within element salt)
  rw [length_positions h.m_pos] at hn
  exact ⟨n, Nat.le_trans hn h.k_le, hfound⟩

/-- **What is accepted is within its limit and safe to query**, whatever bytes somebody sends:
the four numbers in them may contradict each other and the bytes at will. -/
theorem safeToQuery_of_parse (h : parse b max = .ok f) : b.length ≤ max ∧ f.SafeToQuery b := by
  have hsound := sound_of_parse h
  obtain ⟨hmax, ⟨rest, hread⟩, -⟩ := parse_eq_ok_iff.mp h
  obtain ⟨content, length, after, rfl, hafter, hbits, -⟩ := read_eq_ok hread
  have hlength : f.bits.length = min length (8 * content.length) := by
    rw [hbits, Bits.length_ofBytes]
  have hfits : f.bits.length = f.m := hsound.fits
  refine ⟨hmax, ?_⟩
  constructor
  case k_pos => exact hsound.k_pos
  case k_le => exact hsound.k_le
  case m_pos => exact hsound.m_pos
  case length_eq => exact hfits
  case m_le =>
    simp only [writeLength, List.length_append, Bytes.length_ofNatLE]
    omega
  case carried =>
    intro i hi
    rw [← hfits, hbits] at hi
    obtain ⟨x, hx, hbit⟩ := Bits.get_ofBytes hi
    refine ⟨x, ?_, by rw [hbits, hbit]⟩
    have hinside : i / 8 < content.length := (List.getElem?_eq_some_iff.mp hx).1
    rw [getElem?_content hinside, hx]
  case within => exact hsound.within
  case found => exact hsound.found

end

/-- The untidy filter is safe to query. -/
theorem safeToQuery_tidied : untidy.length ≤ 49 ∧ tidied.SafeToQuery untidy :=
  safeToQuery_of_parse (by rfl)

end BloomFilter

end TxRelay.Bloom
