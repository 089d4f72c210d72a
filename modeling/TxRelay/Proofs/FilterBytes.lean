/-
A filter keeps its word with a stranger.

The bytes of a filter are read back to the same bits, the same number of
positions and the same declared size, and what was built here passes every
check that a reader makes of a stranger's filter, whatever the formulas for its
size came to. So whoever is sent a filter along with its salt is told of
everything that was inserted under that salt.
-/
import TxRelay.Proofs.Bloom
import TxRelay.Proofs.Wire

set_option autoImplicit false

namespace TxRelay.Bloom

open Wire

/-! ## Sizes -/

/-- A count is a word. -/
theorem Sizing.count_lt (x : Float) : count x < UInt64.size := x.toUInt64.toNat_lt

theorem Sizing.bits_optimal_lt (n : Nat) (rate : Float) : (optimal n rate).bits < UInt64.size := by
  rw [optimal]
  split
  · decide
  · exact Nat.max_lt.mpr ⟨by decide, count_lt _⟩

/-! ## Bits -/

/-- Bits come back from the bytes that hold them. -/
theorem Bits.ofBytes_toList (b : Bits) : ofBytes b.length b.bytes.toList = b := by
  have hsize : b.bytes.toList.length = byteCount b.length := by
    rw [Array.length_toList, b.size_eq]
  have hlength : min b.length (8 * b.bytes.toList.length) = b.length := by
    rw [hsize, byteCount]
    omega
  have hbytes : (b.bytes.toList.take (byteCount b.length)).toArray = b.bytes := by
    rw [List.take_of_length_le (Nat.le_of_eq hsize), Array.toArray_toList]
  cases b with
  | mk length bytes size_eq =>
    simp only [ofBytes] at hlength hbytes ⊢
    simp only [hlength, hbytes]

/-! ## Filters -/

namespace BloomFilter

/-- **A filter that a stranger accepts**, if it has few enough bytes. -/
structure Sound (f : BloomFilter) : Prop where
  fits : f.Fits
  /-- An element has positions, and not too many. -/
  k_pos : 0 < f.k
  k_le : f.k ≤ maxHashCount
  /-- There are bits, and their number is a word. -/
  m_pos : 0 < f.m
  m_lt : f.m < UInt64.size

theorem sound_new {m : Nat} (hm : m < UInt64.size) (k : Nat) : (new m k).Sound where
  fits := fits_new m k
  k_pos := by
    show 0 < min maxHashCount (max 1 k)
    have hmax : maxHashCount = 32 := rfl
    omega
  k_le := Nat.min_le_left _ _
  m_pos := Nat.lt_of_lt_of_le Nat.one_pos (Nat.le_max_left _ _)
  m_lt := Nat.max_lt.mpr ⟨by decide, hm⟩

/-- Whatever the elements and the rate, a filter for them is sound. -/
theorem sound_sized (elements : Nat) (rate : Float) : (sized elements rate).Sound :=
  sound_new (Sizing.bits_optimal_lt elements rate) _

variable {f : BloomFilter}

theorem Sound.insert (h : f.Sound) (element salt : Bytes) : (f.insert element salt).Sound :=
  ⟨h.fits.insert element salt, h.k_pos, h.k_le, h.m_pos, h.m_lt⟩

/-- What is inserted one after the other is reported, and so is what was
reported before. -/
theorem Sound.foldl_insert {α : Type} (h : f.Sound) (key : α → Bytes) (salt : Bytes) (xs : List α) :
    (xs.foldl (fun f x => f.insert (key x) salt) f).Sound ∧
      ∀ element, element ∈ xs.map key ∨ f.contains element salt = true →
        (xs.foldl (fun f x => f.insert (key x) salt) f).contains element salt = true := by
  induction xs generalizing f with
  | nil => exact ⟨h, fun _ helement => helement.resolve_left List.not_mem_nil⟩
  | cons x rest ih =>
    obtain ⟨hsound, hcontains⟩ := ih (h.insert (key x) salt)
    refine ⟨hsound, fun element helement => hcontains element ?_⟩
    rw [List.map_cons, List.mem_cons] at helement
    rcases helement with (rfl | hrest) | hbefore
    · exact Or.inr (contains_insert_self h.fits)
    · exact Or.inl hrest
    · exact Or.inr (contains_insert_of_contains hbefore)

/-- The bytes of a filter are read back, but for a number of insertions that is
no word. -/
theorem takes_toBytes (h : f.Sound) :
    read.Takes f.toBytes { f with n := f.n % UInt64.size } := by
  have hfits : f.bits.length = f.m := h.fits
  have hm := h.m_lt
  have hk := h.k_le
  have hmax : maxHashCount < UInt64.size := by decide
  have hbytes : f.bits.bytes.toList.length < UInt64.size := by
    rw [Array.length_toList, f.bits.size_eq, byteCount]
    omega
  have hwrite : f.toBytes = writeBytes f.bits.bytes.toList ++ (writeLength f.bits.length ++
      (writeLength f.k ++ (writeLength f.m ++ writeLength f.n))) := by
    simp only [toBytes, List.append_assoc]
  have hback : ({ bits := Bits.ofBytes f.bits.length f.bits.bytes.toList, k := f.k, m := f.m
                  n := f.n % UInt64.size } : BloomFilter) = { f with n := f.n % UInt64.size } := by
    rw [Bits.ofBytes_toList]
  rw [hwrite, ← hback]
  exact (takes_bytes hbytes).bind <| (takes_length (by omega)).bind <|
    (takes_length (by omega)).bind <| (takes_length hm).bind <|
    (takes_length_mod f.n).bind_nil (.pure _)

/-- **A filter is accepted by a stranger** who accepts so many bytes. -/
theorem parse_toBytes (h : f.Sound) {max : Nat} (hmax : f.toBytes.length ≤ max) :
    parse f.toBytes max = .ok { f with n := f.n % UInt64.size } := by
  have hread := takes_toBytes h []
  rw [List.append_nil] at hread
  have hfits : f.bits.length = f.m := h.fits
  rw [parse, if_neg (Nat.not_lt.mpr hmax), hread]
  dsimp only
  rw [if_neg, if_neg]
  · rintro (hzero | hne)
    · exact absurd hzero (Nat.ne_of_gt h.m_pos)
    · exact hne hfits
  · rintro (hzero | hmany)
    · exact absurd hzero (Nat.ne_of_gt h.k_pos)
    · exact absurd hmany (Nat.not_lt.mpr h.k_le)

end BloomFilter

/-- **A filter and its salt, as they are sent, report an id** to everybody who
accepts so many bytes. -/
def Reports (sent : Bytes × Salt) (id : Digest) : Prop :=
  ∀ max : Nat, sent.1.length ≤ max →
    ∃ f, BloomFilter.parse sent.1 max = .ok f ∧ f.contains id.toList sent.2.toList = true

theorem BloomFilter.Sound.reports_iff {f : BloomFilter} (h : f.Sound) {id : Digest} {salt : Salt} :
    Reports (f.toBytes, salt) id ↔ f.contains id.toList salt.toList = true := by
  constructor
  · intro hreports
    obtain ⟨f', hparse, hid⟩ := hreports f.toBytes.length (Nat.le_refl _)
    have hparse' := parse_toBytes h (Nat.le_refl f.toBytes.length)
    rw [← Except.ok.inj (hparse'.symm.trans hparse)] at hid
    exact hid
  · exact fun hid _ hmax => ⟨_, parse_toBytes h hmax, hid⟩

/-! ## Filters that are rebuilt -/

namespace RollingFilter

/-- The current filter is sound. -/
def Sound (f : RollingFilter) : Prop := f.filter.Sound

theorem sound_start (s : Settings) (salts : Nat → Salt) : (start s salts).Sound :=
  BloomFilter.sound_new (Sizing.bits_optimal_lt _ _) _

theorem sound_reset (f : RollingFilter) (elements : Nat) : (f.reset elements).Sound :=
  BloomFilter.sound_new (Sizing.bits_optimal_lt _ _) _

variable {f : RollingFilter}

theorem Sound.add (h : f.Sound) (id : Bytes) : (f.add id).Sound := BloomFilter.Sound.insert h id _

theorem Sound.foldl_add (h : f.Sound) (ids : List Digest) :
    (ids.foldl (fun f id => f.add id.toList) f).Sound := by
  induction ids generalizing f with
  | nil => exact h
  | cons id rest ih => exact ih (h.add id.toList)

theorem Sound.refresh (h : f.Sound) (elements : Nat) (ids : List Digest) :
    (f.refresh elements ids).Sound := by
  rw [RollingFilter.refresh]
  split
  · exact (f.sound_reset elements).foldl_add ids
  · exact h

/-- What a filter reports it also reports to strangers, and nothing else. -/
theorem Sound.reports_iff (h : f.Sound) {id : Digest} :
    Reports f.marshal id ↔ f.has id.toList = true :=
  BloomFilter.Sound.reports_iff h

end RollingFilter

end TxRelay.Bloom
