/-
What it costs to take the place of a transaction.

The price asked for is so many percent above the price that is there, and in
any case above it. It is worked out in amounts, which end at 2^256 - 1. A
product that does not fit becomes the largest amount before it is divided by
100, so the percentage comes out right as long as the result stays within a
hundredth of the largest amount. Beyond that only one more is asked for, and
for the largest amount itself nothing: there the price asked for is the price
that is there.
-/
import TxRelay.Pool.NoncePool

set_option autoImplicit false

namespace TxRelay

/-- A price with so many percent added, rounded down. There is no limit to it. -/
def Amount.raised (price : Amount) (bump : Nat) : Nat := price.toNat * (100 + bump) / 100

theorem Amount.toNat_max : Amount.max.toNat = Amount.size - 1 := rfl

theorem Amount.le_max (price : Amount) : price.toNat ≤ Amount.max.toNat :=
  Nat.le_sub_one_of_lt price.isLt

section
variable {bump : Nat} {old new : Amount}

/-- A raised price is not below the price, and well above it if it is large. -/
theorem Amount.le_raised (price : Amount) (bump : Nat) : price.toNat ≤ price.raised bump := by
  rw [Amount.raised, Nat.le_div_iff_mul_le (by decide)]
  exact Nat.mul_le_mul_left _ (Nat.le_add_right 100 bump)

theorem Amount.raised_zero (price : Amount) : price.raised 0 = price.toNat :=
  Nat.mul_div_cancel price.toNat (by decide)

theorem Amount.add_le_raised (price : Amount) (hbump : 0 < bump) :
    price.toNat + price.toNat / 100 ≤ price.raised bump := by
  have hpercent : price.toNat ≤ price.toNat * bump := Nat.le_mul_of_pos_right _ hbump
  rw [Amount.raised, Nat.mul_add]
  omega

/-- **The percentage, as far as it can be worked out.** -/
theorem toNat_bumped (hfits : 100 + bump < UInt64.size) (old : Amount) :
    ((old.mul (Amount.ofNat (100 + bump))).div 100).toNat
      = min (old.raised bump) (Amount.max.toNat / 100) := by
  have hpercent : (Amount.ofNat (100 + bump)).toNat = 100 + bump := by
    have hsize : UInt64.size ≤ Amount.size - 1 := by decide
    rw [Amount.toNat_ofNat]
    exact Nat.min_eq_left (Nat.le_trans (Nat.le_of_lt hfits) hsize)
  rw [Amount.toNat_div, Amount.toNat_mul, hpercent, Amount.raised, Amount.toNat_max]
  -- Rounding down is monotone, so it does not matter which of the two comes first.
  rcases Nat.le_total (old.toNat * (100 + bump)) (Amount.size - 1) with hle | hle
  · rw [Nat.min_eq_left hle, Nat.min_eq_left (Nat.div_le_div_right hle)]
  · rw [Nat.min_eq_right hle, Nat.min_eq_right (Nat.div_le_div_right hle)]

/-- **The price asked for.** -/
theorem toNat_replacementPrice (hfits : 100 + bump < UInt64.size) (old : Amount) :
    (replacementPrice old bump).toNat
      = if old.toNat < min (old.raised bump) (Amount.max.toNat / 100) then
          min (old.raised bump) (Amount.max.toNat / 100)
        else min (old.toNat + 1) Amount.max.toNat := by
  have hbumped := toNat_bumped hfits old
  rw [replacementPrice]
  by_cases hlt : old < (old.mul (Amount.ofNat (100 + bump))).div 100
  · rw [if_pos hlt, hbumped, if_pos (hbumped ▸ Amount.lt_iff.mp hlt)]
  · rw [if_neg hlt, if_neg (hbumped ▸ fun hlt' => hlt (Amount.lt_iff.mpr hlt')), Amount.toNat_add]
    rfl

/-- More is asked for, unless there is no more. -/
theorem lt_replacementPrice_iff (hfits : 100 + bump < UInt64.size) :
    old < replacementPrice old bump ↔ old < Amount.max := by
  have hmax := old.le_max
  rw [Amount.lt_iff, Amount.lt_iff, toNat_replacementPrice hfits]
  split
  · next hlt => exact ⟨fun _ => by omega, fun _ => hlt⟩
  · omega

/-- As much as the percentage says is asked for exactly if that is within a
hundredth of the largest amount, or if there is nothing to add. -/
theorem raised_le_replacementPrice_iff (hfits : 100 + bump < UInt64.size) :
    old.raised bump ≤ (replacementPrice old bump).toNat ↔
      old.raised bump ≤ Amount.max.toNat / 100 ∨ bump = 0 := by
  have hmax := old.le_max
  have hraised := old.le_raised bump
  rw [toNat_replacementPrice hfits]
  constructor
  · intro hle
    refine Classical.or_iff_not_imp_right.mpr fun hbump => Nat.le_of_not_lt fun hlarge => ?_
    rw [Nat.min_eq_right (Nat.le_of_lt hlarge)] at hle
    -- Past the hundredth part one percent is more than one.
    have hone := old.add_le_raised (Nat.pos_of_ne_zero hbump)
    have hsize : Amount.max.toNat / 100 / 100 > 1 := by decide
    split at hle
    · omega
    · next hge =>
      have hpercent : Amount.max.toNat / 100 / 100 ≤ old.toNat / 100 :=
        Nat.div_le_div_right (Nat.le_of_not_lt hge)
      omega
  · rintro (hsmall | rfl)
    · rw [Nat.min_eq_left hsmall]
      split
      · exact Nat.le_refl _
      · omega
    · rw [old.raised_zero]
      split
      · omega
      · omega

/-- **What a replacement pays**: what is asked for; so more than what was there unless that was
the largest amount, and so many percent more where the percentage can be worked out
(`replacement_threshold`). -/
structure Outbids (bump : Nat) (old new : Amount) : Prop where
  asked : replacementPrice old bump ≤ new
  more : old < Amount.max → old < new
  percent : old.raised bump ≤ Amount.max.toNat / 100 ∨ bump = 0 → old.raised bump ≤ new.toNat

theorem Outbids.of_asked (hfits : 100 + bump < UInt64.size) (hasked : replacementPrice old bump ≤ new) :
    Outbids bump old new := by
  refine ⟨hasked, fun hlt => ?_, fun hpercent => ?_⟩
  · exact Nat.lt_of_lt_of_le ((lt_replacementPrice_iff hfits).mpr hlt) hasked
  · exact Nat.le_trans ((raised_le_replacementPrice_iff hfits).mpr hpercent) hasked

/-- **A replacement pays more** than what was there, or both pay the largest price. -/
theorem Outbids.lt_or_max (h : Outbids bump old new) (hfits : 100 + bump < UInt64.size) :
    old < new ∨ (old = Amount.max ∧ new = Amount.max) := by
  by_cases hlt : old < Amount.max
  · exact Or.inl (h.more hlt)
  · have hold : old.toNat = Amount.max.toNat := Nat.le_antisymm old.le_max (Nat.le_of_not_lt hlt)
    have hasked : (replacementPrice old bump).toNat ≤ new.toNat := h.asked
    -- Nothing is above the largest price, so the price asked for is that price.
    rw [toNat_replacementPrice hfits, if_neg (by omega), hold,
      Nat.min_eq_right (Nat.le_succ _)] at hasked
    exact Or.inr ⟨Amount.ext hold, Amount.ext (Nat.le_antisymm new.le_max hasked)⟩

/-- Two replacements in a row. -/
theorem lt_or_max_trans {mid : Amount} (h : old < mid ∨ (old = Amount.max ∧ mid = Amount.max))
    (h' : mid < new ∨ (mid = Amount.max ∧ new = Amount.max)) :
    old < new ∨ (old = Amount.max ∧ new = Amount.max) := by
  rcases h' with hless | ⟨hmid, hnew⟩
  · rcases h with hmore | ⟨_, hmid⟩
    · exact Or.inl (Nat.lt_trans hmore hless)
    · rw [hmid] at hless
      exact absurd new.le_max (Nat.not_le_of_lt hless)
  · rwa [hnew.trans hmid.symm]

/-- **How far the price asked for reaches.** Whoever pays it pays more than what
was there if that was not the largest amount, and only then; and pays so many
percent more if the percentage can be worked out, and only then. -/
theorem forall_asked_iff (hfits : 100 + bump < UInt64.size) (old : Amount) :
    ((∀ new, replacementPrice old bump ≤ new → old < new) ↔ old < Amount.max) ∧
      ((∀ new, replacementPrice old bump ≤ new → old.raised bump ≤ new.toNat) ↔
        old.raised bump ≤ Amount.max.toNat / 100 ∨ bump = 0) := by
  refine ⟨⟨fun hall => ?_, fun hlt new hnew => ?_⟩, ⟨fun hall => ?_, fun hpercent new hnew => ?_⟩⟩
  · exact (lt_replacementPrice_iff hfits).mp (hall _ (Nat.le_refl _))
  · exact (Outbids.of_asked hfits hnew).more hlt
  · exact (raised_le_replacementPrice_iff hfits).mp (hall _ (Nat.le_refl _))
  · exact (Outbids.of_asked hfits hnew).percent hpercent

end

end TxRelay
