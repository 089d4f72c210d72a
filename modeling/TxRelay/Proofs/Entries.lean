/-
Maps as lists of entries.

A map lists its values in the order of its keys. The library knows the list of
entries well and the list of values not at all, so the values are the second
components of the entries here, and everything else is read off from that. Keys
that compare equal are equal in all maps here, so look-ups go by equality.

Several pools keep entries under their ids and find them by something else as
well, such as the time of arrival. What keeps such an index in step is the same
everywhere.
-/
import Std.Data.ExtTreeMap
import Std.Data.ExtTreeMap.Lemmas

set_option autoImplicit false

namespace TxRelay.Entries

/-- There are so many of a kind. -/
def Counts {α : Type} (P : α → Prop) (k : Nat) : Prop :=
  ∃ all : List α, all.Nodup ∧ (∀ a, a ∈ all ↔ P a) ∧ all.length = k

section
variable {α β : Type}

/-- A look-up among one thing more, however membership is decided. -/
theorem ite_mem_cons {k a : α} {rest : List α} {x y : β} [Decidable (a ∈ rest)] [Decidable (k = a)]
    [Decidable (a ∈ k :: rest)] :
    (if a ∈ rest then x else if k = a then x else y) = if a ∈ k :: rest then x else y := by
  by_cases hrest : a ∈ rest
  · rw [if_pos hrest, if_pos (List.mem_cons_of_mem k hrest)]
  · rw [if_neg hrest]
    by_cases hk : k = a
    · rw [if_pos hk, if_pos (by rw [hk]; exact List.mem_cons_self)]
    · rw [if_neg hk, if_neg (by simpa [hrest] using Ne.symm hk)]

variable {cmp : α → α → Ordering} [Std.TransCmp cmp]

section
variable [Std.LawfulEqCmp cmp] [DecidableEq α]

/-- A look-up after an insertion, by equality of keys. -/
theorem getElem?_insert (m : Std.ExtTreeMap α β cmp) (k a : α) (v : β) :
    (m.insert k v)[a]? = if k = a then some v else m[a]? := by
  simp only [Std.ExtTreeMap.getElem?_insert, Std.LawfulEqCmp.compare_eq_iff_eq]

/-- A look-up after a removal, by equality of keys. -/
theorem getElem?_erase (m : Std.ExtTreeMap α β cmp) (k a : α) :
    (m.erase k)[a]? = if k = a then none else m[a]? := by
  simp only [Std.ExtTreeMap.getElem?_erase, Std.LawfulEqCmp.compare_eq_iff_eq]

omit [Std.LawfulEqCmp cmp] [DecidableEq α] in
/-- The library tells of a map, on its way through many removals, that it came about
by removals. -/
theorem foldl_erase_val {p : Std.ExtDTreeMap α (fun _ => β) cmp → Prop}
    {f : { t // p t } → α → { t // p t }} (hf : ∀ t k, (f t k).1 = t.1.erase k) (t : { t // p t })
    (ks : List α) :
    (ks.foldl f t).1 = (ks.foldl (fun m k => m.erase k) (⟨t.1⟩ : Std.ExtTreeMap α β cmp)).inner := by
  induction ks generalizing t with
  | nil => rfl
  | cons k rest ih =>
    rw [List.foldl_cons, List.foldl_cons, ih, hf]
    rfl

omit [Std.LawfulEqCmp cmp] [DecidableEq α] in
theorem eraseMany_eq_foldl (m : Std.ExtTreeMap α β cmp) (ks : List α) :
    m.eraseMany ks = ks.foldl (fun m k => m.erase k) m := by
  unfold Std.ExtTreeMap.eraseMany Std.ExtDTreeMap.eraseMany
  simp only [List.forIn_pure_yield_eq_foldl, Id.run_pure, pure_bind]
  exact congrArg Std.ExtTreeMap.mk (foldl_erase_val (fun _ _ => rfl) _ ks)

/-- A look-up after many removals. -/
theorem getElem?_eraseMany (m : Std.ExtTreeMap α β cmp) (ks : List α) (a : α) :
    (m.eraseMany ks)[a]? = if a ∈ ks then none else m[a]? := by
  rw [eraseMany_eq_foldl]
  induction ks generalizing m with
  | nil => rw [if_neg List.not_mem_nil, List.foldl_nil]
  | cons k rest ih => rw [List.foldl_cons, ih, getElem?_erase, ite_mem_cons]

end

/-- The values of a map are those of its entries, in the order of the keys. -/
theorem values_eq_map_toList (m : Std.ExtTreeMap α β cmp) : m.values = m.toList.map Prod.snd := by
  obtain ⟨m⟩ := m
  induction m with
  | mk t =>
    show t.inner.values = (Std.DTreeMap.Internal.Impl.Const.toList t.inner).map Prod.snd
    rw [Std.DTreeMap.Internal.Impl.values_eq_map_snd,
      Std.DTreeMap.Internal.Impl.Const.toList_eq_toListModel_map]
    simp

/-- A map has a value exactly if it has it under some key. -/
theorem mem_values [Std.LawfulEqCmp cmp] {m : Std.ExtTreeMap α β cmp} {v : β} :
    v ∈ m.values ↔ ∃ k : α, m[k]? = some v := by
  rw [values_eq_map_toList, List.mem_map]
  constructor
  · rintro ⟨⟨k, w⟩, hmem, rfl⟩
    exact ⟨k, Std.ExtTreeMap.mem_toList_iff_getElem?_eq_some.mp hmem⟩
  · rintro ⟨k, hk⟩
    exact ⟨(k, v), Std.ExtTreeMap.mem_toList_iff_getElem?_eq_some.mpr hk, rfl⟩

/-! ## How many there are -/

theorem length_values (m : Std.ExtTreeMap α β cmp) : m.values.length = m.size := by
  rw [values_eq_map_toList, List.length_map, Std.ExtTreeMap.length_toList]

/-- One more under a new key. -/
theorem size_insert {m : Std.ExtTreeMap α β cmp} {k : α} (hnew : m[k]? = none) (v : β) :
    (m.insert k v).size = m.size + 1 := by
  rw [Std.ExtTreeMap.size_insert, Std.ExtTreeMap.contains_eq_isSome_getElem?, hnew]
  rfl

/-- One less under a key that is taken. -/
theorem size_erase {m : Std.ExtTreeMap α β cmp} {k : α} {v : β} (hk : m[k]? = some v) :
    (m.erase k).size + 1 = m.size := by
  have hcontains : m.contains k = true := by
    rw [Std.ExtTreeMap.contains_eq_isSome_getElem?, hk]
    rfl
  have hpos : m.size ≠ 0 := by
    intro hzero
    rw [Std.ExtTreeMap.eq_empty_iff_size_eq_zero.mpr hzero] at hk
    cases hk
  rw [Std.ExtTreeMap.size_erase, if_pos hcontains]
  omega

/-- As many as there are keys. -/
theorem size_congr {γ : Type} [Std.LawfulEqCmp cmp] {m : Std.ExtTreeMap α β cmp}
    {m' : Std.ExtTreeMap α γ cmp} (h : ∀ k : α, m[k]?.isSome = m'[k]?.isSome) : m.size = m'.size := by
  have hperm : m.keys.Perm m'.keys := by
    apply (List.perm_ext_iff_of_nodup Std.ExtTreeMap.nodup_keys Std.ExtTreeMap.nodup_keys).mpr
    intro k
    rw [Std.ExtTreeMap.mem_keys, Std.ExtTreeMap.mem_keys, Std.ExtTreeMap.mem_iff_isSome_getElem?,
      Std.ExtTreeMap.mem_iff_isSome_getElem?, h]
  rw [← Std.ExtTreeMap.length_keys, ← Std.ExtTreeMap.length_keys, hperm.length_eq]

/-- Taking out what was just put in under a new key. -/
theorem erase_insert [Std.LawfulEqCmp cmp] [DecidableEq α] {m : Std.ExtTreeMap α β cmp} {k : α}
    (hnew : m[k]? = none) (v : β) : (m.insert k v).erase k = m := by
  apply Std.ExtTreeMap.ext_getElem?
  intro a
  rw [getElem?_erase, getElem?_insert]
  split
  · next heq => rw [← heq, hnew]
  · rfl

end

/-! ## Indices -/

section
variable {κ α ε : Type} {cmp : κ → κ → Ordering} {cmp' : α → α → Ordering}
  [Std.TransCmp cmp] [Std.TransCmp cmp'] [Std.LawfulEqCmp cmp] [Std.LawfulEqCmp cmp']
  [DecidableEq κ] [DecidableEq α]

/-- **An index** leads from a key to the one entry that has it. -/
def Indexed (index : Std.ExtTreeMap κ α cmp) (entries : Std.ExtTreeMap α ε cmp') (key : ε → κ) : Prop :=
  ∀ k a, index[k]? = some a ↔ ∃ e, entries[a]? = some e ∧ key e = k

variable {index : Std.ExtTreeMap κ α cmp} {entries : Std.ExtTreeMap α ε cmp'} {key : ε → κ}

/-- A new entry has to have a key of its own. -/
theorem Indexed.insert (h : Indexed index entries key) {a : α} {e : ε} (hnew : entries[a]? = none)
    (hfresh : ∀ (a' : α) (e' : ε), entries[a']? = some e' → key e' ≠ key e) :
    Indexed (index.insert (key e) a) (entries.insert a e) key := by
  intro k a'
  rw [getElem?_insert, getElem?_insert]
  constructor
  · intro hk
    split at hk
    · next hkey => exact ⟨e, if_pos (Option.some.inj hk), hkey⟩
    · obtain ⟨e', he', hkey⟩ := (h k a').mp hk
      have hne : a ≠ a' := by
        rintro rfl
        rw [hnew] at he'
        cases he'
      exact ⟨e', by rw [if_neg hne, he'], hkey⟩
  · rintro ⟨e', he', hkey⟩
    split at he'
    · next heq =>
      rw [← Option.some.inj he'] at hkey
      rw [if_pos hkey, heq]
    · rw [if_neg fun hsame => hfresh a' e' he' (hkey.trans hsame.symm)]
      exact (h k a').mpr ⟨e', he', hkey⟩

theorem Indexed.erase (h : Indexed index entries key) {a : α} {e : ε} (he : entries[a]? = some e) :
    Indexed (index.erase (key e)) (entries.erase a) key := by
  intro k a'
  rw [getElem?_erase, getElem?_erase]
  -- The index tells the entry from all others by its key.
  have hown : index[key e]? = some a := (h (key e) a).mpr ⟨e, he, rfl⟩
  constructor
  · intro hk
    split at hk
    · cases hk
    · next hother =>
      obtain ⟨e', he', hkey⟩ := (h k a').mp hk
      have hne : a ≠ a' := by
        rintro rfl
        rw [he] at he'
        exact hother (by rw [Option.some.inj he', hkey])
      exact ⟨e', by rw [if_neg hne, he'], hkey⟩
  · rintro ⟨e', he', hkey⟩
    split at he'
    · cases he'
    · next hne =>
      have hk := (h k a').mpr ⟨e', he', hkey⟩
      have hother : key e ≠ k := by
        intro hsame
        rw [hsame, hk] at hown
        exact hne (Option.some.inj hown).symm
      rw [if_neg hother, hk]

omit [Std.LawfulEqCmp cmp] [DecidableEq κ] in
/-- An entry may change in everything but its key. -/
theorem Indexed.update (h : Indexed index entries key) {a : α} {e e' : ε}
    (he : entries[a]? = some e) (hkey : key e' = key e) :
    Indexed index (entries.insert a e') key := by
  intro k a'
  rw [getElem?_insert, h k a']
  split
  · next heq =>
    rw [← heq, he]
    constructor
    · rintro ⟨e₀, he₀, hkey₀⟩
      exact ⟨e', rfl, by rw [hkey, Option.some.inj he₀, hkey₀]⟩
    · rintro ⟨e₀, he₀, hkey₀⟩
      exact ⟨e, rfl, by rw [← hkey, Option.some.inj he₀, hkey₀]⟩
  · rfl

end

end TxRelay.Entries
