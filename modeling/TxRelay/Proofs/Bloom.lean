/-
A bloom filter does not forget.

Setting a bit leaves every other bit as it is, so what an insertion set stays
set. The positions of an element lie within the declared size, and as long as
that is the number of bits carried, each of them is a bit that was set.
-/
import TxRelay.Bloom.Rolling

set_option autoImplicit false

namespace TxRelay.Bloom

/-! ## Bits -/

namespace Bits

/-- Setting a bit of a byte shows in that bit only. -/
theorem bitOf_withBit (b : UInt8) {i j : Nat} (hi : i < 8) :
    bitOf (withBit b i) j = (decide (i = j) || bitOf b j) := by
  have hb : b.toNat < 2 ^ 8 := b.toNat_lt
  have hbit : 1 <<< i < 2 ^ 8 := by
    rw [Nat.one_shiftLeft]
    exact Nat.pow_lt_pow_right (by omega) hi
  have hor : b.toNat ||| 1 <<< i < 2 ^ 8 := Nat.or_lt_two_pow hb hbit
  rw [bitOf, withBit, UInt8.toNat_ofNat', Nat.mod_eq_of_lt hor, Nat.testBit_or, Nat.one_shiftLeft,
    Nat.testBit_two_pow, Bool.or_comm]
  rfl

/-- Bit `i` of the bytes, also where it is beyond the length. -/
def bitAt (b : Bits) (i : Nat) : Bool := bitOf (b.bytes.getD (i / 8) 0) (i % 8)

theorem get_eq_bitAt (b : Bits) (i : Nat) : b.get i = (decide (i < b.length) && b.bitAt i) := rfl

theorem bitAt_zeros (n i : Nat) : (zeros n).bitAt i = false := by
  have hbyte : (zeros n).bytes.getD (i / 8) 0 = 0 := by
    rw [zeros, Array.getD_eq_getD_getElem?, Array.getElem?_replicate]
    split <;> rfl
  rw [bitAt, hbyte, bitOf, UInt8.toNat_zero, Nat.zero_testBit]

theorem get_zeros (n i : Nat) : (zeros n).get i = false := by
  rw [get_eq_bitAt, bitAt_zeros, Bool.and_false]

@[simp] theorem length_set (b : Bits) (i : Nat) : (b.set i).length = b.length := rfl

/-- **Setting a bit** shows in that bit only, and only if the array has it. -/
theorem bitAt_set (b : Bits) (i j : Nat) :
    (b.set i).bitAt j = ((decide (i = j) && decide (j < b.length)) || b.bitAt j) := by
  by_cases hi : i < b.length
  · have hsize : i / 8 < b.bytes.size := by
      rw [b.size_eq, byteCount]
      omega
    have hbytes : (b.set i).bytes = b.bytes.modify (i / 8) (withBit · (i % 8)) := if_pos hi
    have hbyte : (b.set i).bytes.getD (j / 8) 0
        = if i / 8 = j / 8 then withBit (b.bytes.getD (j / 8) 0) (i % 8)
          else b.bytes.getD (j / 8) 0 := by
      rw [Array.getD_eq_getD_getElem?, Array.getD_eq_getD_getElem?, hbytes, Array.getElem?_modify]
      by_cases hsame : i / 8 = j / 8
      · rw [if_pos hsame, if_pos hsame, ← hsame, Array.getElem?_eq_getElem hsize]
        rfl
      · rw [if_neg hsame, if_neg hsame]
    rw [bitAt, bitAt, hbyte]
    -- In another byte nothing changes; in the same byte it is a matter of the bit.
    by_cases hsame : i / 8 = j / 8
    · have hbit : (decide (i % 8 = j % 8)) = (decide (i = j) && decide (j < b.length)) := by
        rw [← Bool.decide_and, decide_eq_decide]
        omega
      rw [if_pos hsame, bitOf_withBit _ (Nat.mod_lt i (by omega)), hbit]
    · have hne : i ≠ j := fun heq => hsame (by rw [heq])
      rw [if_neg hsame, decide_eq_false hne, Bool.false_and, Bool.false_or]
  · have hset : b.set i = b := by
      rw [set]
      simp only [if_neg hi]
    have hnot : ¬(i = j ∧ j < b.length) := by omega
    rw [hset, ← Bool.decide_and, decide_eq_false hnot, Bool.false_or]

theorem length_foldl_set (b : Bits) (ps : List Nat) : (ps.foldl set b).length = b.length := by
  induction ps generalizing b with
  | nil => rfl
  | cons i rest ih => exact (ih (b.set i)).trans (length_set b i)

/-- Setting several bits. -/
theorem bitAt_foldl_set (b : Bits) (ps : List Nat) (j : Nat) :
    (ps.foldl set b).bitAt j = ((decide (j ∈ ps) && decide (j < b.length)) || b.bitAt j) := by
  induction ps generalizing b with
  | nil => simp
  | cons i rest ih =>
    rw [List.foldl_cons, ih, bitAt_set, length_set]
    by_cases hij : i = j
    · subst hij
      cases decide (i < b.length) <;> simp
    · simp [hij, Ne.symm hij]

theorem get_foldl_set (b : Bits) (ps : List Nat) (j : Nat) :
    (ps.foldl set b).get j = ((decide (j ∈ ps) && decide (j < b.length)) || b.get j) := by
  rw [get_eq_bitAt, get_eq_bitAt, length_foldl_set, bitAt_foldl_set]
  cases decide (j < b.length) <;> simp

end Bits

/-! ## Filters -/

/-- The positions of an element lie within the declared size. -/
theorem lt_of_mem_positions {element salt : Bytes} {k m i : Nat}
    (hi : i ∈ positions element salt k m) : i < m := by
  rw [positions] at hi
  split at hi
  · cases hi
  · next hm =>
    obtain ⟨j, _, rfl⟩ := List.mem_map.mp hi
    exact Nat.mod_lt _ (Nat.pos_of_ne_zero hm)

namespace BloomFilter

/-- The declared size is the number of bits carried. -/
def Fits (f : BloomFilter) : Prop := f.bits.length = f.m

theorem fits_new (m k : Nat) : (new m k).Fits := rfl

theorem contains_iff {f : BloomFilter} {element salt : Bytes} :
    f.contains element salt = true ↔
      ∀ i ∈ positions element salt f.k f.m, f.bits.get i = true := by
  rw [contains, List.all_eq_true]

/-- Nothing is reported by a filter without insertions. -/
theorem not_contains_new (m k : Nat) (element salt : Bytes) :
    (new m k).contains element salt = false := by
  rw [Bool.eq_false_iff, Ne, contains_iff]
  intro hall
  have hm : (new m k).m ≠ 0 := Nat.ne_of_gt (Nat.lt_of_lt_of_le Nat.one_pos (Nat.le_max_left 1 m))
  have hk : 0 < (new m k).k := by
    show 0 < min maxHashCount (max 1 k)
    have hmax : maxHashCount = 32 := rfl
    omega
  -- There is a position, and its bit is not set.
  rw [positions, if_neg hm] at hall
  have hbit := hall _ (List.mem_map.mpr ⟨0, List.mem_range.mpr hk, rfl⟩)
  have hzero : ∀ i, (Bits.zeros (max 1 m)).get i = false := Bits.get_zeros (max 1 m)
  exact absurd (hbit.symm.trans (hzero _)) (by decide)

variable {f : BloomFilter} {element other salt salt' : Bytes}

theorem Fits.insert (h : f.Fits) (element salt : Bytes) : (f.insert element salt).Fits :=
  (Bits.length_foldl_set f.bits _).trans h

/-- What was inserted is reported. -/
theorem contains_insert_self (h : f.Fits) : (f.insert element salt).contains element salt = true := by
  rw [contains_iff]
  intro i hi
  have hlt : i < f.bits.length := by
    rw [h]
    exact lt_of_mem_positions hi
  have hmem : i ∈ positions element salt f.k f.m := hi
  show ((positions element salt f.k f.m).foldl Bits.set f.bits).get i = true
  rw [Bits.get_foldl_set, decide_eq_true hmem, decide_eq_true hlt]
  rfl

/-- What is reported is still reported after an insertion. -/
theorem contains_insert_of_contains (h : f.contains element salt = true) :
    (f.insert other salt').contains element salt = true := by
  rw [contains_iff] at h ⊢
  intro i hi
  show ((positions other salt' f.k f.m).foldl Bits.set f.bits).get i = true
  rw [Bits.get_foldl_set, h i hi, Bool.or_true]

end BloomFilter

/-! ## Filters that are rebuilt -/

namespace RollingFilter

/-- The declared size of the current filter is the number of bits carried. -/
def Fits (f : RollingFilter) : Prop := f.filter.Fits

variable {f : RollingFilter}

theorem fits_start (s : Settings) (salts : Nat → Salt) : (start s salts).Fits :=
  BloomFilter.fits_new _ _

theorem fits_reset (f : RollingFilter) (elements : Nat) : (f.reset elements).Fits :=
  BloomFilter.fits_new _ _

theorem Fits.add (h : f.Fits) (id : Bytes) : (f.add id).Fits := BloomFilter.Fits.insert h id _

theorem has_add_self (h : f.Fits) (id : Bytes) : (f.add id).has id = true :=
  BloomFilter.contains_insert_self h

theorem has_add_of_has {id other : Bytes} (h : f.has id = true) : (f.add other).has id = true :=
  BloomFilter.contains_insert_of_contains h

/-- After insertions everything is reported that was inserted, or was reported
before. -/
theorem has_foldl_add (h : f.Fits) (ids : List Digest) :
    (ids.foldl (fun f id => f.add id.toList) f).Fits ∧
      ∀ id : Digest, id ∈ ids ∨ f.has id.toList = true →
        (ids.foldl (fun f id => f.add id.toList) f).has id.toList = true := by
  induction ids generalizing f with
  | nil =>
    refine ⟨h, fun id hid => ?_⟩
    rcases hid with hmem | hhas
    · cases hmem
    · exact hhas
  | cons first rest ih =>
    -- Once an id is in, the insertions after it only have to keep it.
    obtain ⟨hfits, hhas⟩ := ih (h.add first.toList)
    refine ⟨hfits, fun id hid => hhas id ?_⟩
    rcases hid with hmem | hbefore
    · rcases List.mem_cons.mp hmem with rfl | hrest
      · exact Or.inr (has_add_self h _)
      · exact Or.inl hrest
    · exact Or.inr (has_add_of_has hbefore)

/-- Insertions do not begin another generation. -/
theorem resets_foldl_add (f : RollingFilter) (ids : List Digest) :
    (ids.foldl (fun f id => f.add id.toList) f).resets = f.resets := by
  induction ids generalizing f with
  | nil => rfl
  | cons id rest ih => exact ih (f.add id.toList)

/-- A filter goes on, or the next generation is begun with the given ids. -/
theorem refresh_or (f : RollingFilter) (elements : Nat) (ids : List Digest) :
    f.refresh elements ids = f ∨
      (f.refresh elements ids).resets = f.resets + 1 ∧
        ∀ id ∈ ids, (f.refresh elements ids).has id.toList = true := by
  rw [RollingFilter.refresh]
  split
  · refine Or.inr ⟨resets_foldl_add (f.reset elements) ids, fun id hid => ?_⟩
    exact (has_foldl_add (f.fits_reset elements) ids).2 id (Or.inl hid)
  · exact Or.inl rfl

/-- **Refreshing** a filter that reports the given ids, whether it is rebuilt
from them or goes on. -/
theorem Fits.refresh (h : f.Fits) (elements : Nat) {ids : List Digest}
    (hids : ∀ id ∈ ids, f.has id.toList = true) :
    (f.refresh elements ids).Fits ∧ ∀ id ∈ ids, (f.refresh elements ids).has id.toList = true := by
  rw [RollingFilter.refresh]
  split
  · obtain ⟨hfits, hhas⟩ := has_foldl_add (f.fits_reset elements) ids
    exact ⟨hfits, fun id hid => hhas id (Or.inl hid)⟩
  · exact ⟨h, hids⟩

end RollingFilter

end TxRelay.Bloom
