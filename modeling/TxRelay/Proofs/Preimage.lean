/-
What the digest of an ordinary transaction covers.

In a preimage the recipient stands without a mark and the data without a length, so
the bytes after the sender do not tell where the terms begin: twenty bytes may be a
recipient, or the start of the value. A call therefore reads like a contract
creation whose terms begin twenty bytes earlier, and whose data begin with the last
twenty bytes of the call's terms.

That is the only confusion. Two calls, or two creations, are told apart by every
field, and of a call and a creation at most one pair reads the same.
-/
import TxRelay.Pool.NoncePool
import TxRelay.Proofs.Queries

set_option autoImplicit false

namespace TxRelay

/-! ## Numbers out of bytes -/

namespace Bytes

/-- The word that eight bytes spell. -/
def toWord (b : Bytes) : UInt64 := UInt64.ofNat (toNatLE b)

theorem ofWord_toWord {b : Bytes} (h : b.length = 8) : ofWord (toWord b) = b := by
  have hlt : toNatLE b < UInt64.size := by
    have hb := toNatLE_lt b
    rwa [h] at hb
  rw [ofWord, toWord, UInt64.toNat_ofNat_of_lt' hlt, ← h, ofNatLE_toNatLE]

theorem toWord_ofWord (w : UInt64) : toWord (ofWord w) = w := by
  rw [toWord, ofWord, toNatLE_ofNatLE w.toNat_lt, UInt64.ofNat_toNat]

end Bytes

namespace Amount

/-- The amount that 32 bytes spell. -/
def ofBytes (b : Bytes) : Amount := ofNat (Bytes.toNatLE b.reverse)

theorem ofNatBE_ofBytes {b : Bytes} (h : b.length = 32) :
    Bytes.ofNatBE 32 (ofBytes b).toNat = b := by
  have hreverse : b.reverse.length = 32 := List.length_reverse.trans h
  have hlt : Bytes.toNatLE b.reverse < size := by
    have hb := Bytes.toNatLE_lt b.reverse
    rwa [hreverse] at hb
  have hvalue : (ofBytes b).toNat = Bytes.toNatLE b.reverse := by
    rw [ofBytes, ofNat, dif_pos hlt]
  rw [Bytes.ofNatBE, hvalue, ← hreverse, Bytes.ofNatLE_toNatLE, List.reverse_reverse]

theorem ofBytes_ofNatBE (a : Amount) : ofBytes (Bytes.ofNatBE 32 a.toNat) = a := by
  have hfits : a.toNat < Nat.pow 256 32 := a.isLt
  rw [ofBytes, Bytes.ofNatBE, List.reverse_reverse, Bytes.toNatLE_ofNatLE hfits, ofNat,
    dif_pos a.isLt]

end Amount

namespace Transaction

/-! ## The parts of a preimage -/

/-- The terms of a transaction, in 80 bytes. -/
def terms (t : Transaction) : Bytes :=
  Bytes.ofNatBE 32 t.value.toNat ++ (Bytes.ofWord t.nonce ++
    (Bytes.ofNatBE 32 t.gasPrice.toNat ++ Bytes.ofWord t.gasLimit))

/-- The transaction on other terms, which bytes spell. -/
def withTerms (t : Transaction) (b : Bytes) : Transaction :=
  { t with
    value := Amount.ofBytes (b.take 32)
    nonce := Bytes.toWord ((b.drop 32).take 8)
    gasPrice := Amount.ofBytes (((b.drop 32).drop 8).take 32)
    gasLimit := Bytes.toWord (((b.drop 32).drop 8).drop 32) }

/-- What stands between the sender and the signature. -/
def body (t : Transaction) : Bytes :=
  (t.recipient.map Vector.toList).getD [] ++ (t.terms ++ t.data)

/-- **The contract creation that a transaction reads as.** The first 80 bytes of the
body are its terms, whatever they were written for. -/
def asCreation (t : Transaction) : Transaction :=
  { t.withTerms (t.body.take 80) with recipient := none, data := t.body.drop 80 }

/-- **The call that a transaction reads as**, if its body is long enough to have a
recipient. -/
def asCall (t : Transaction) : Transaction :=
  { t.withTerms ((t.body.drop 20).take 80) with
    recipient := Bytes.toBlock? 20 (t.body.take 20)
    data := (t.body.drop 20).drop 80 }

section
variable {t u : Transaction}

@[simp] theorem length_terms (t : Transaction) : t.terms.length = 80 := by simp [terms]

theorem terms_withTerms (t : Transaction) {b : Bytes} (h : b.length = 80) :
    (t.withTerms b).terms = b := by
  show Bytes.ofNatBE 32 (Amount.ofBytes (b.take 32)).toNat ++ (Bytes.ofWord (Bytes.toWord _) ++
    (Bytes.ofNatBE 32 (Amount.ofBytes _).toNat ++ Bytes.ofWord (Bytes.toWord _))) = b
  rw [Amount.ofNatBE_ofBytes (by simp [h]), Bytes.ofWord_toWord (by simp [h]),
    Amount.ofNatBE_ofBytes (by simp [h]), Bytes.ofWord_toWord (by simp [h]),
    List.take_append_drop, List.take_append_drop, List.take_append_drop]

theorem withTerms_terms (t : Transaction) : t.withTerms t.terms = t := by
  have hvalue := Bytes.length_ofNatBE 32 t.value.toNat
  have hnonce := Bytes.length_ofWord t.nonce
  have hprice := Bytes.length_ofNatBE 32 t.gasPrice.toNat
  rw [withTerms, terms, List.take_left' hvalue, List.drop_left' hvalue, List.take_left' hnonce,
    List.drop_left' hnonce, List.take_left' hprice, List.drop_left' hprice, Amount.ofBytes_ofNatBE,
    Amount.ofBytes_ofNatBE, Bytes.toWord_ofWord, Bytes.toWord_ofWord]

theorem le_length_body (t : Transaction) : 80 ≤ t.body.length := by
  rw [body, List.length_append, List.length_append, length_terms]
  omega

/-- **A preimage tells** the kind, the chain, the sender, the signature, and the bytes
in between. -/
theorem preimage_eq_iff_body :
    t.preimage = u.preimage ↔
      (t.kind = u.kind ∧ t.chainId = u.chainId ∧ t.sender = u.sender ∧ t.signature = u.signature) ∧
        t.body = u.body := by
  have hparts : ∀ t : Transaction, t.preimage
      = t.kind.byte :: (Bytes.ofWord t.chainId ++ (t.sender.toList ++ (t.body ++ t.signature.toList))) := by
    intro t
    simp [preimage, body, terms]
  rw [hparts, hparts]
  constructor
  · intro h
    obtain ⟨hkind, h⟩ := List.cons.inj h
    obtain ⟨hchain, h⟩ := List.append_inj h (by simp)
    obtain ⟨hsender, h⟩ := List.append_inj h (by simp)
    -- The signature has a fixed size, too, but stands at the end.
    obtain ⟨hbody, hsignature⟩ := List.append_inj' h (by simp)
    refine ⟨⟨?_, ?_, Vector.toList_inj.mp hsender, Vector.toList_inj.mp hsignature⟩, hbody⟩
    · revert hkind
      cases t.kind <;> cases u.kind <;> decide
    · rw [← Bytes.toWord_ofWord t.chainId, hchain, Bytes.toWord_ofWord]
  · rintro ⟨⟨hkind, hchain, hsender, hsignature⟩, hbody⟩
    rw [hkind, hchain, hsender, hsignature, hbody]

/-! ## Two readings of a body -/

theorem body_asCreation (t : Transaction) : t.asCreation.body = t.body := by
  have htake : (t.body.take 80).length = 80 := List.length_take_of_le t.le_length_body
  show [] ++ ((t.withTerms (t.body.take 80)).terms ++ t.body.drop 80) = t.body
  rw [terms_withTerms t htake, List.take_append_drop, List.nil_append]

theorem preimage_asCreation (t : Transaction) : t.asCreation.preimage = t.preimage :=
  preimage_eq_iff_body.mpr ⟨⟨rfl, rfl, rfl, rfl⟩, t.body_asCreation⟩

/-- A creation is what it reads as. -/
theorem asCreation_of_none (h : t.recipient = none) : t.asCreation = t := by
  have hbody : t.body = t.terms ++ t.data := by
    rw [body, h]
    rfl
  rw [asCreation, hbody, List.take_left' t.length_terms, List.drop_left' t.length_terms,
    withTerms_terms, ← h]

/-- What a transaction reads as is a matter of its preimage. -/
theorem asCreation_eq_of_preimage_eq (h : t.preimage = u.preimage) :
    t.asCreation = u.asCreation := by
  obtain ⟨⟨hkind, hchain, hsender, hsignature⟩, hbody⟩ := preimage_eq_iff_body.mp h
  rw [asCreation, asCreation, withTerms, withTerms, hkind, hchain, hsender, hsignature, hbody]

theorem body_of_some {a : Address} (h : t.recipient = some a) :
    t.body = a.toList ++ (t.terms ++ t.data) := by
  rw [body, h]
  rfl

/-- A call is what it reads as. -/
theorem asCall_of_some {a : Address} (h : t.recipient = some a) : t.asCall = t := by
  have ha : a.toList.length = 20 := by simp
  rw [asCall, body_of_some h, List.take_left' ha, List.drop_left' ha, Bytes.toBlock?_toList,
    List.take_left' t.length_terms, List.drop_left' t.length_terms, withTerms_terms, ← h]

theorem asCall_eq_of_preimage_eq (h : t.preimage = u.preimage) : t.asCall = u.asCall := by
  obtain ⟨⟨hkind, hchain, hsender, hsignature⟩, hbody⟩ := preimage_eq_iff_body.mp h
  rw [asCall, asCall, withTerms, withTerms, hkind, hchain, hsender, hsignature, hbody]

/-- A body of 100 bytes has room for a recipient. -/
theorem recipient_asCall (h : 100 ≤ t.body.length) :
    ∃ a : Address, t.asCall.recipient = some a ∧ a.toList = t.body.take 20 := by
  have htake : (t.body.take 20).length = 20 := List.length_take_of_le (by omega)
  exact ⟨⟨(t.body.take 20).toArray, by simpa using htake⟩, dif_pos htake, by simp [Vector.toList]⟩

theorem preimage_asCall (h : 100 ≤ t.body.length) : t.asCall.preimage = t.preimage := by
  obtain ⟨a, ha, hbytes⟩ := recipient_asCall h
  have hterms : ((t.body.drop 20).take 80).length = 80 :=
    List.length_take_of_le (by rw [List.length_drop]; omega)
  refine preimage_eq_iff_body.mpr ⟨⟨rfl, rfl, rfl, rfl⟩, ?_⟩
  rw [body_of_some ha, hbytes]
  show t.body.take 20 ++ ((t.withTerms _).terms ++ (t.body.drop 20).drop 80) = t.body
  rw [terms_withTerms t hterms, List.take_append_drop, List.take_append_drop]

end

/-! ## Twins -/

/-- **Two transactions are twins**: one of them is a call, and the other one is the
contract creation that it reads as. -/
def Twins (t u : Transaction) : Prop :=
  (t.recipient ≠ none ∧ u = t.asCreation) ∨ (u.recipient ≠ none ∧ t = u.asCreation)

section
variable {t u v : Transaction}

theorem Twins.symm (h : Twins t u) : Twins u t := Or.symm h

theorem Twins.preimage_eq (h : Twins t u) : t.preimage = u.preimage := by
  rcases h with ⟨-, rfl⟩ | ⟨-, rfl⟩
  · exact t.preimage_asCreation.symm
  · exact u.preimage_asCreation

/-- **A preimage is that of one transaction, or of two twins.** -/
theorem eq_or_twins (h : t.preimage = u.preimage) : t = u ∨ Twins t u := by
  have hcreation := asCreation_eq_of_preimage_eq h
  cases ht : t.recipient with
  | none =>
    rw [asCreation_of_none ht] at hcreation
    cases hu : u.recipient with
    | none =>
      rw [asCreation_of_none hu] at hcreation
      exact Or.inl hcreation
    | some b => exact Or.inr (Or.inr ⟨by simp [hu], hcreation⟩)
  | some a =>
    cases hu : u.recipient with
    | none =>
      rw [asCreation_of_none hu] at hcreation
      exact Or.inr (Or.inl ⟨by simp [ht], hcreation.symm⟩)
    | some b =>
      have hcall := asCall_eq_of_preimage_eq h
      rw [asCall_of_some ht, asCall_of_some hu] at hcall
      exact Or.inl hcall

/-- Of two twins one has a recipient, and the other has not. -/
theorem Twins.recipient (h : Twins t u) : t.recipient = none ↔ u.recipient ≠ none := by
  rcases h with ⟨ht, rfl⟩ | ⟨hu, rfl⟩
  · exact ⟨fun hnone => absurd hnone ht, fun hsome => absurd rfl hsome⟩
  · exact ⟨fun _ => hu, fun _ => rfl⟩

theorem Twins.ne (h : Twins t u) : t ≠ u := by
  rintro rfl
  exact iff_not_self h.recipient

/-- No transaction has two twins. -/
theorem Twins.unique (hu : Twins t u) (hv : Twins t v) : u = v := by
  refine (eq_or_twins (hu.preimage_eq.symm.trans hv.preimage_eq)).resolve_right fun huv => ?_
  -- Of three transactions two have a recipient, or two have none.
  have h₁ := hu.recipient
  have h₂ := hv.recipient
  have h₃ := huv.recipient
  grind

/-- **Who has a twin**: every call, and every creation with 20 bytes of data. -/
theorem exists_twins_iff : (∃ u, Twins t u) ↔ t.recipient ≠ none ∨ 20 ≤ t.data.length := by
  cases ht : t.recipient with
  | some a => simpa using ⟨t.asCreation, Or.inl ⟨by simp [ht], rfl⟩⟩
  | none =>
    have hbody : t.body.length = 80 + t.data.length := by simp [body, ht]
    constructor
    · rintro ⟨u, hu⟩
      obtain ⟨a, ha⟩ := Option.ne_none_iff_exists'.mp (hu.recipient.mp ht)
      have hsame := congrArg List.length (preimage_eq_iff_body.mp hu.preimage_eq).2
      rw [hbody, body_of_some ha, List.length_append, List.length_append, length_terms,
        Vector.length_toList] at hsame
      exact Or.inr (by omega)
    · rintro (hsome | hdata)
      · exact absurd rfl hsome
      · have hroom : 100 ≤ t.body.length := by omega
        obtain ⟨a, ha, -⟩ := recipient_asCall hroom
        refine ⟨t.asCall, (eq_or_twins (preimage_asCall hroom).symm).resolve_left fun heq => ?_⟩
        rw [← heq, ht] at ha
        cases ha

/-- **What the digest of a transaction binds**: all of it, but for the twin that the
transaction may have (`EthTransaction::hash`). -/
structure BoundUpToTwin (t : Transaction) : Prop where
  preimage_eq_iff : ∀ u, t.preimage = u.preimage ↔ t = u ∨ Twins t u
  /-- Any other transaction with the digest shows a collision of SHA-256. -/
  hash_eq_iff : ∀ u, t.hash = u.hash ↔ t = u ∨ Twins t u ∨ Collide t u
  twins_ne : ∀ u, Twins t u → t ≠ u
  twins_unique : ∀ u v, Twins t u → Twins t v → u = v
  exists_iff : (∃ u, Twins t u) ↔ t.recipient ≠ none ∨ 20 ≤ t.data.length

theorem preimage_binds_up_to_twin (t : Transaction) : BoundUpToTwin t where
  preimage_eq_iff u := by
    constructor
    · exact eq_or_twins
    · rintro (rfl | htwins)
      · rfl
      · exact htwins.preimage_eq
  hash_eq_iff u := by
    constructor
    · intro hhash
      by_cases hpreimage : t.preimage = u.preimage
      · rw [← or_assoc]
        exact Or.inl (eq_or_twins hpreimage)
      · exact Or.inr (Or.inr ⟨hpreimage, hhash⟩)
    · rintro (rfl | htwins | hcollide)
      · rfl
      · exact congrArg Digest.of htwins.preimage_eq
      · exact hcollide.2
  twins_ne _ := Twins.ne
  twins_unique _ _ := Twins.unique
  exists_iff := exists_twins_iff

end

/-! ## A creation that is taken for a call -/

/-- A contract creation with 20 bytes of data. -/
def deployment : Transaction where
  kind := .legacy
  chainId := 1
  sender := Vector.replicate 20 0xa1
  recipient := none
  value := 0
  nonce := 0
  gasPrice := .ofNat 10
  gasLimit := 21000
  data := List.replicate 12 0 ++ [0x08, 0x52] ++ List.replicate 6 0
  signature := Vector.replicate 64 0

/-- A call of the same account, at a price in whose digits the other one's price and
gas are found. -/
def payment : Transaction :=
  { deployment with
    recipient := some (Vector.replicate 20 0)
    gasPrice := .ofNat (0x0a0852 * Nat.pow 256 18)
    data := [] }

/-- **A preimage does not bind a transaction.** A pool that holds the creation takes
the call for known. -/
theorem exists_twins :
    deployment ≠ payment ∧ deployment.preimage = payment.preimage ∧
      ∀ (limits : NonceLimits) (seat : Nat) (b : Backend) (s : NoncePool.Space) (isLocal : Bool),
        s.holdings.contains deployment.hash = true →
          NoncePool.letIn limits seat b s payment isLocal = (s, .error .alreadyKnown) := by
  have hpreimage : deployment.preimage = payment.preimage := by decide +kernel
  refine ⟨by decide +kernel, hpreimage, fun limits seat b s isLocal hheld => ?_⟩
  have hhash : deployment.hash = payment.hash := congrArg Digest.of hpreimage
  rw [hhash] at hheld
  rw [NoncePool.letIn, if_pos hheld]

end Transaction

end TxRelay
