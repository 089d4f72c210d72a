/-
What the digest of a transfer covers.

A preimage writes the fields of a transfer one after the other, the inputs without their number,
and the signature after them. Everything around the inputs has a size of its own, though, so the
length of a preimage tells how many inputs there are, and with that where each field begins. A
transfer can be read back from its preimage, and its digest binds all of it.
-/
import TxRelay.Proofs.DoubleSpend
import TxRelay.Proofs.Preimage

set_option autoImplicit false

namespace TxRelay

theorem Bytes.ofWord_injective {w w' : UInt64} (h : ofWord w = ofWord w') : w = w' := by
  rw [← toWord_ofWord w, h, toWord_ofWord]

theorem Direction.byte_injective {d d' : Direction} (h : d.byte = d'.byte) : d = d' := by
  revert h
  cases d <;> cases d' <;> decide

namespace Transfer

/-! ## The parts of a preimage -/

/-- The fields before the inputs, in 109 bytes. -/
def opening (t : Transfer) : Bytes :=
  t.direction.byte :: (t.source.toList ++ (t.destination.toList ++ (t.account.toList ++
    (Bytes.ofWord t.nonce ++ (Bytes.ofWord t.amount ++ Bytes.ofWord t.fee)))))

/-- The inputs, in 32 bytes each. -/
def spelledInputs (t : Transfer) : Bytes := t.inputs.flatMap Vector.toList

theorem preimage_eq (t : Transfer) :
    t.preimage = t.opening ++ (t.spelledInputs ++ t.signature.toList) := by
  simp [preimage, opening, spelledInputs]

@[simp] theorem length_opening (t : Transfer) : t.opening.length = 109 := by simp [opening]

@[simp] theorem length_spelledInputs (t : Transfer) : t.spelledInputs.length = 32 * t.inputs.length := by
  rw [spelledInputs]
  induction t.inputs with
  | nil => rfl
  | cons input rest ih =>
    rw [List.flatMap_cons, List.length_append, ih, Vector.length_toList, List.length_cons]
    omega

/-- **The length of a preimage** tells the number of the inputs. -/
theorem length_preimage (t : Transfer) : t.preimage.length = 173 + 32 * t.inputs.length := by
  rw [preimage_eq, List.length_append, List.length_append, length_opening, length_spelledInputs,
    Vector.length_toList]
  omega

variable {t u : Transfer}

/-- The fields before the inputs are told by their bytes, each by as many as it takes. -/
theorem eq_of_opening_eq (h : t.opening = u.opening) :
    (t.direction = u.direction ∧ t.source = u.source ∧ t.destination = u.destination) ∧
      t.account = u.account ∧ t.nonce = u.nonce ∧ t.amount = u.amount ∧ t.fee = u.fee := by
  obtain ⟨hdirection, h⟩ := List.cons.inj h
  obtain ⟨hsource, h⟩ := List.append_inj h (by simp)
  obtain ⟨hdestination, h⟩ := List.append_inj h (by simp)
  obtain ⟨haccount, h⟩ := List.append_inj h (by simp)
  obtain ⟨hnonce, h⟩ := List.append_inj h (by simp)
  obtain ⟨hamount, hfee⟩ := List.append_inj h (by simp)
  exact ⟨⟨Direction.byte_injective hdirection, Vector.toList_inj.mp hsource,
      Vector.toList_inj.mp hdestination⟩,
    Vector.toList_inj.mp haccount, Bytes.ofWord_injective hnonce, Bytes.ofWord_injective hamount,
    Bytes.ofWord_injective hfee⟩

/-! ## The whole of it -/

/-- **A preimage tells the transfer.** -/
theorem eq_of_preimage_eq (h : t.preimage = u.preimage) : t = u := by
  have hcount : t.inputs.length = u.inputs.length := by
    have hlength := congrArg List.length h
    rw [length_preimage, length_preimage] at hlength
    omega
  rw [preimage_eq, preimage_eq] at h
  obtain ⟨hopening, h⟩ := List.append_inj h (by simp)
  -- The number of the inputs is known, so it is known where the signature begins.
  obtain ⟨hinputs, hsignature⟩ := List.append_inj h (by simp [hcount])
  obtain ⟨⟨hdirection, hsource, hdestination⟩, haccount, hnonce, hamount, hfee⟩ :=
    eq_of_opening_eq hopening
  rw [Transfer.mk.injEq]
  exact ⟨hdirection, hsource, hdestination, haccount, hnonce, hamount, hfee,
    Bytes.flatMap_toList_injective (by decide) hinputs, Vector.toList_inj.mp hsignature⟩

/-- **The digest of a transfer binds all of it**: no other transfer has its preimage, and any
other transfer with its id shows a collision of SHA-256. -/
theorem preimage_binds (t u : Transfer) :
    (t.preimage = u.preimage ↔ t = u) ∧ (t.id = u.id ↔ t = u ∨ t.Collide u) := by
  constructor
  · constructor
    · exact eq_of_preimage_eq
    · exact congrArg preimage
  · constructor
    · intro hid
      by_cases hpreimage : t.preimage = u.preimage
      · exact Or.inl (eq_of_preimage_eq hpreimage)
      · exact Or.inr ⟨hpreimage, hid⟩
    · rintro (rfl | hcollide)
      · rfl
      · exact hcollide.2

end Transfer

/-- So a pool that holds something under the id of a transfer holds that transfer, or shows a
collision. -/
theorem TransferStore.Coherent.eq_or_collide {s : TransferStore} (hc : s.Coherent) {t : Transfer}
    {e : PooledTransfer} (he : s.get? t.id = some e) : e.tx = t ∨ e.tx.Collide t := by
  have hid := (hc.id_eq he).2
  by_cases hpreimage : e.tx.preimage = t.preimage
  · exact Or.inl (Transfer.eq_of_preimage_eq hpreimage)
  · exact Or.inr ⟨hpreimage, hid⟩

end TxRelay
