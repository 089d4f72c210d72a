/-
What a filter reports.

A filter holds what was inserted since it was last emptied, in the sense that the
positions of these insertions are the bits that are set, and no others. This is what an
insertion and an emptying preserve, and it says all there is to know: an element is
reported exactly if each of its positions is a position of something inserted, whatever
was inserted and under whatever salts.

The bits of the last byte that lie beyond the length are never set either. So two filters
of one size with the same insertions are equal byte for byte, in whatever order these
were made.
-/
import Mathlib.Data.List.Dedup
import TxRelay.Proofs.Bloom

set_option autoImplicit false

namespace TxRelay.Bloom

/-! ## Bits -/

namespace Bits

/-- Dropping the lowest bits leaves the others. -/
theorem bitOf_dropLow (x : UInt8) (n j : Nat) :
    bitOf (dropLow x n) j = (decide (n ≤ j) && bitOf x j) := by
  have hle : x.toNat >>> n <<< n ≤ x.toNat := by
    rw [Nat.shiftLeft_eq, Nat.shiftRight_eq_div_pow]
    exact Nat.div_mul_le_self _ _
  have hlt : x.toNat >>> n <<< n < 2 ^ 8 := Nat.lt_of_le_of_lt hle x.toNat_lt
  rw [bitOf, dropLow, UInt8.toNat_ofNat', Nat.mod_eq_of_lt hlt, Nat.testBit_shiftLeft, Nat.testBit_shiftRight]
  by_cases hn : n ≤ j
  · rw [Nat.add_sub_cancel' hn]
    rfl
  · simp [hn]

/-- Emptying leaves what lies beyond the length. -/
theorem bitAt_clear (b : Bits) (i : Nat) : b.clear.bitAt i = (decide (b.length ≤ i) && b.bitAt i) := by
  have hbyte : b.clear.bytes[i / 8]? = b.bytes[i / 8]?.map fun x => dropLow x (min 8 (b.length - 8 * (i / 8))) :=
    Array.getElem?_mapIdx
  rw [bitAt, bitAt, Array.getD_eq_getD_getElem?, Array.getD_eq_getD_getElem?, hbyte]
  cases b.bytes[i / 8]? with
  | none => simp [bitOf]
  | some x =>
    have hlow : min 8 (b.length - 8 * (i / 8)) ≤ i % 8 ↔ b.length ≤ i := by omega
    rw [Option.map_some, Option.getD_some, Option.getD_some, bitOf_dropLow,
      decide_eq_decide.mpr hlow]

/-- A byte is its eight bits. -/
theorem eq_of_bitOf {x y : UInt8} (h : ∀ j < 8, bitOf x j = bitOf y j) : x = y := by
  apply UInt8.toNat_inj.mp
  apply Nat.eq_of_testBit_eq
  intro j
  by_cases hj : j < 8
  · exact h j hj
  · have hbeyond : ∀ z : UInt8, z.toNat.testBit j = false := by
      intro z
      apply Nat.testBit_lt_two_pow
      exact Nat.lt_of_lt_of_le z.toNat_lt (Nat.pow_le_pow_right (by omega) (Nat.le_of_not_lt hj))
    rw [hbeyond, hbeyond]

/-- **An array is its bits**, with those beyond its length. -/
theorem eq_of_bitAt {b c : Bits} (hlength : b.length = c.length) (hbits : ∀ i, b.bitAt i = c.bitAt i) :
    b = c := by
  have hbytes : b.bytes = c.bytes := by
    apply Array.ext
    · rw [b.size_eq, c.size_eq, hlength]
    · intro i hb hc
      apply eq_of_bitOf
      intro j hj
      have hbit := hbits (8 * i + j)
      have hbyte : (8 * i + j) / 8 = i := by omega
      have hplace : (8 * i + j) % 8 = j := by omega
      rw [bitAt, bitAt, hbyte, hplace] at hbit
      simpa [Array.getD, hb, hc] using hbit
  cases b
  cases c
  cases hlength
  cases hbytes
  rfl

/-- How many bits are set, if it is known which. -/
theorem count_eq {b : Bits} {ps : List Nat} (hps : ∀ i ∈ ps, i < b.length)
    (hbits : ∀ i, b.bitAt i = decide (i ∈ ps)) : b.count = ps.dedup.length := by
  rw [count, List.countP_eq_length_filter]
  -- Both lists have no repetitions and the same members.
  apply List.Perm.length_eq
  apply (List.perm_ext_iff_of_nodup (List.nodup_range.filter _) ps.nodup_dedup).mpr
  intro i
  have hlt : i ∈ ps → i < b.length := hps i
  simp only [List.mem_filter, List.mem_range, get_eq_bitAt, hbits, List.mem_dedup, Bool.and_eq_true,
    decide_eq_true_eq]
  tauto

end Bits

namespace BloomFilter

/-! ## What is in a filter -/

/-- Something that is done to a filter (`BloomFilter`). -/
inductive Operation where
  | insert (element salt : Bytes)
  | clear

/-- The filter after something was done to it. -/
def undergo (f : BloomFilter) : Operation → BloomFilter
  | .insert element salt => f.insert element salt
  | .clear => f.clear

/-- The filter after several such things. -/
def run (f : BloomFilter) (operations : List Operation) : BloomFilter := operations.foldl undergo f

/-- An element, and the salt under which it was inserted. -/
structure Insertion where
  element : Bytes
  salt : Bytes

/-- What was inserted since a filter was last emptied, if something more is done to it. -/
def since (inserted : List Insertion) : Operation → List Insertion
  | .insert element salt => inserted ++ [⟨element, salt⟩]
  | .clear => []

/-- **What is in a filter**: what was inserted since it was last emptied. -/
def contents (operations : List Operation) : List Insertion := operations.foldl since []

/-- The positions of what was inserted into a filter. -/
def occupied (f : BloomFilter) (inserted : List Insertion) : List Nat :=
  inserted.flatMap fun p => positions p.element p.salt f.k f.m

/-- **A filter holds** some insertions: their positions are the bits that are set. -/
structure Holds (f : BloomFilter) (inserted : List Insertion) : Prop where
  fits : f.Fits
  n_eq : f.n = inserted.length
  bitAt_eq : ∀ i, f.bits.bitAt i = decide (i ∈ f.occupied inserted)

section
variable {f g : BloomFilter} {inserted inserted' : List Insertion} {element salt : Bytes}

theorem mem_occupied_iff {i : Nat} :
    i ∈ f.occupied inserted ↔ ∃ p ∈ inserted, i ∈ positions p.element p.salt f.k f.m := List.mem_flatMap

theorem holds_new (m k : Nat) : (new m k).Holds [] where
  fits := fits_new m k
  n_eq := rfl
  bitAt_eq := Bits.bitAt_zeros (max 1 m)

theorem Holds.lt_length (h : f.Holds inserted) {i : Nat} (hi : i ∈ positions element salt f.k f.m) :
    i < f.bits.length := by
  rw [h.fits]
  exact lt_of_mem_positions hi

theorem Holds.insert (h : f.Holds inserted) (element salt : Bytes) :
    (f.insert element salt).Holds (inserted ++ [⟨element, salt⟩]) where
  fits := h.fits.insert element salt
  n_eq := by
    show f.n + 1 = _
    rw [h.n_eq, List.length_append, List.length_singleton]
  bitAt_eq := by
    intro i
    have hoccupied : (f.insert element salt).occupied (inserted ++ [⟨element, salt⟩])
        = f.occupied inserted ++ positions element salt f.k f.m := by simp [occupied, BloomFilter.insert]
    have hlt : i ∈ positions element salt f.k f.m → i < f.bits.length := h.lt_length
    rw [hoccupied]
    show ((positions element salt f.k f.m).foldl Bits.set f.bits).bitAt i = _
    rw [Bits.bitAt_foldl_set, h.bitAt_eq, ← Bool.decide_and, ← Bool.decide_or, decide_eq_decide, List.mem_append]
    tauto

/-- What lies beyond the length was not set, so emptying leaves no bit set. -/
theorem Holds.clear (h : f.Holds inserted) : f.clear.Holds [] where
  fits := h.fits
  n_eq := rfl
  bitAt_eq := by
    intro i
    show f.bits.clear.bitAt i = false
    rw [Bits.bitAt_clear, h.bitAt_eq, ← Bool.decide_and]
    apply decide_eq_false
    rintro ⟨hbeyond, hmem⟩
    obtain ⟨p, _, hi⟩ := mem_occupied_iff.mp hmem
    exact absurd (h.lt_length hi) (Nat.not_lt.mpr hbeyond)

theorem Holds.undergo (h : f.Holds inserted) (d : Operation) :
    (f.undergo d).Holds (since inserted d) := by
  cases d with
  | insert element salt => exact h.insert element salt
  | clear => exact h.clear

/-- **A filter holds its contents**, whatever is done to it. -/
theorem Holds.run (h : f.Holds inserted) (operations : List Operation) :
    (f.run operations).Holds (operations.foldl since inserted) := by
  induction operations generalizing f inserted with
  | nil => exact h
  | cons d rest ih => exact ih (h.undergo d)

theorem shape_run (f : BloomFilter) (operations : List Operation) :
    (f.run operations).k = f.k ∧ (f.run operations).m = f.m := by
  induction operations generalizing f with
  | nil => exact ⟨rfl, rfl⟩
  | cons d rest ih =>
    cases d with
    | insert element salt => exact ih (f.insert element salt)
    | clear => exact ih f.clear

/-- **Filters of one shape** that hold the same are equal. -/
theorem Holds.eq_of_perm (hf : f.Holds inserted) (hg : g.Holds inserted') (hk : f.k = g.k) (hm : f.m = g.m)
    (hperm : inserted.Perm inserted') : f = g := by
  have hbits : f.bits = g.bits := by
    apply Bits.eq_of_bitAt
    · rw [hf.fits, hg.fits, hm]
    · -- Which positions are occupied does not depend on the order.
      intro i
      have hsame : i ∈ f.occupied inserted ↔ i ∈ g.occupied inserted' := by
        rw [mem_occupied_iff, mem_occupied_iff, hk, hm]
        simp only [hperm.mem_iff]
      rw [hf.bitAt_eq, hg.bitAt_eq, decide_eq_decide.mpr hsame]
  have hn : f.n = g.n := by rw [hf.n_eq, hg.n_eq, hperm.length_eq]
  cases f
  cases g
  cases hbits
  cases hk
  cases hm
  cases hn
  rfl

/-! ## What a filter reports -/

/-- **What a filter answers**, if some insertions are in it (`BloomFilter::contains`). -/
structure AnswersFor (f : BloomFilter) (inserted : List Insertion) : Prop where
  /-- An element is reported exactly if each of its positions is one of something inserted. -/
  contains_iff : ∀ element salt, f.contains element salt = true ↔
    ∀ i ∈ positions element salt f.k f.m, ∃ p ∈ inserted, i ∈ positions p.element p.salt f.k f.m
  /-- So what was inserted is reported. -/
  contains_of_mem : ∀ p ∈ inserted, f.contains p.element p.salt = true
  /-- What is reported is still reported if more is inserted. -/
  contains_run : ∀ (more : List Insertion) element salt, f.contains element salt = true →
    (f.run (more.map fun p => .insert p.element p.salt)).contains element salt = true
  /-- As many bits are set as there are different positions. -/
  count_eq : f.bits.count = (f.occupied inserted).dedup.length
  /-- Whatever is looked up or inserted lies within the array and its bytes. -/
  within : ∀ element salt, ∀ i ∈ positions element salt f.k f.m,
    i < f.bits.length ∧ i / 8 < f.bits.bytes.size

theorem contains_insertions (more : List Insertion) (h : f.contains element salt = true) :
    (f.run (more.map fun p => .insert p.element p.salt)).contains element salt = true := by
  induction more generalizing f with
  | nil => exact h
  | cons p rest ih => exact ih (contains_insert_of_contains h)

theorem Holds.contains_iff (h : f.Holds inserted) (element salt : Bytes) :
    f.contains element salt = true ↔ ∀ i ∈ positions element salt f.k f.m, i ∈ f.occupied inserted := by
  rw [BloomFilter.contains_iff]
  apply forall_congr'
  intro i
  apply forall_congr'
  intro hi
  rw [Bits.get_eq_bitAt, h.bitAt_eq, decide_eq_true (h.lt_length hi), Bool.true_and, decide_eq_true_iff]

theorem Holds.answersFor (h : f.Holds inserted) : f.AnswersFor inserted where
  contains_iff := by
    intro element salt
    simp only [h.contains_iff, mem_occupied_iff]
  contains_of_mem := by
    intro p hp
    rw [h.contains_iff]
    intro i hi
    exact mem_occupied_iff.mpr ⟨p, hp, hi⟩
  contains_run := fun more _ _ hcontains => contains_insertions more hcontains
  count_eq := by
    apply Bits.count_eq _ h.bitAt_eq
    intro i hi
    obtain ⟨p, _, hi⟩ := mem_occupied_iff.mp hi
    exact h.lt_length hi
  within := by
    intro element salt i hi
    have hlt := h.lt_length hi
    have hsize := f.bits.size_eq
    rw [byteCount] at hsize
    exact ⟨hlt, by omega⟩

end

/-- **What a filter reports** is determined by what was inserted since it was last emptied, for
any size and any number of positions, and so is the whole filter, whatever the order. -/
theorem answers_for_contents (m k : Nat) (operations : List Operation) :
    ((new m k).run operations).k = min maxHashCount (max 1 k) ∧ ((new m k).run operations).m = max 1 m ∧
      ((new m k).run operations).n = (contents operations).length ∧
      ((new m k).run operations).AnswersFor (contents operations) ∧
      ∀ operations', (contents operations').Perm (contents operations) →
        (new m k).run operations' = (new m k).run operations := by
  obtain ⟨hk, hm⟩ := shape_run (new m k) operations
  have hholds := (holds_new m k).run operations
  refine ⟨hk, hm, hholds.n_eq, hholds.answersFor, ?_⟩
  intro operations' hperm
  obtain ⟨hk', hm'⟩ := shape_run (new m k) operations'
  exact ((holds_new m k).run operations').eq_of_perm hholds (hk'.trans hk.symm) (hm'.trans hm.symm) hperm

end BloomFilter

end TxRelay.Bloom
