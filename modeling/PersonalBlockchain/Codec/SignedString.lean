import Std.Data.String.ToNat
import PersonalBlockchain.Lib.Separated
import PersonalBlockchain.Model.Transaction

/-!
# Personal blockchain — what a signature signs

A transaction is signed through `buildTxCore`, eight fields with `|` between
them. The fields are not escaped, and `verify` asks nothing of the receiver,
the payload and the timestamp, so a field with a `|` in it can be split in
another place. The fields are told apart by how many `|` each of them has.

## Results

* `SameSeparators.sameTransfer` — the signed string and the separators determine
  the fields;
* `signed_string_unambiguous_iff` — transactions with one signed string are one
  transfer exactly when their fields have the same separators;
* `one_signature_iff` — the same for two verified transfers with one identifier;
* `signed_string_counterexample` — a payment of 20 turned into one of 1.
-/

namespace PersonalBlockchain

namespace Transaction

/-- The fields of `buildTxCore` are the same in both: they move the same coins,
from and to the same accounts, with the same texts. -/
structure SameTransfer (t t' : Transaction) : Prop where
  senderPublicKey : t.senderPublicKey = t'.senderPublicKey
  receiverPublicKey : t.receiverPublicKey = t'.receiverPublicKey
  fromAddress : t.fromAddress = t'.fromAddress
  toAddress : t.toAddress = t'.toAddress
  amount : t.amount = t'.amount
  nonce : t.nonce = t'.nonce
  payload : t.payload = t'.payload
  timestamp : t.timestamp = t'.timestamp

/-- The number of separators in a text. -/
def separators (s : String) : Nat := s.toList.count '|'

/-- Each text in front of the timestamp has as many separators in the one as in
the other. -/
structure SameSeparators (t t' : Transaction) : Prop where
  senderPublicKey : separators t.senderPublicKey = separators t'.senderPublicKey
  receiverPublicKey : separators t.receiverPublicKey = separators t'.receiverPublicKey
  fromAddress : separators t.fromAddress = separators t'.fromAddress
  toAddress : separators t.toAddress = separators t'.toAddress
  payload : separators t.payload = separators t'.payload

/-- The fields of `buildTxCore`, in its order. -/
def signedFields (tx : Transaction) : List String :=
  [tx.senderPublicKey, tx.receiverPublicKey, tx.fromAddress, tx.toAddress,
    toString tx.amount.toNat, toString tx.nonce.toNat, tx.payload, tx.timestamp]

/-- The signed string is the fields with the separator between them. -/
theorem buildTxCore_toList (tx : Transaction) :
    (buildTxCore tx).toList = ['|'].intercalate (tx.signedFields.map String.toList) := by
  simp [buildTxCore, signedFields, List.intercalate_cons_cons, String.toList_append]

/-- A printed number has no separator. -/
theorem separators_toString (n : Nat) : separators (toString n) = 0 := by
  refine List.count_eq_zero.mpr fun hmem => ?_
  rw [show toString n = Nat.repr n from rfl, Nat.repr_eq_ofList_toDigits,
    String.toList_ofList] at hmem
  exact absurd (Nat.isDigit_of_mem_toDigits (by decide) (by decide) hmem) (by decide)

/-- The separators of the fields in front of the timestamp. -/
theorem SameSeparators.counts {t t' : Transaction} (h : SameSeparators t t') :
    (t.signedFields.map String.toList).dropLast.map (List.count '|') =
      (t'.signedFields.map String.toList).dropLast.map (List.count '|') := by
  have hnumber : ∀ n : Nat, (toString n).toList.count '|' = 0 := separators_toString
  obtain ⟨hs, hr, hf, ht, hp⟩ := h
  simp only [separators] at hs hr hf ht hp
  simp only [signedFields, List.map_cons, List.map_nil, List.dropLast_cons_cons,
    List.dropLast_singleton, hnumber, hs, hr, hf, ht, hp]

/-- The signed string and the separators of its fields determine the fields. -/
theorem SameSeparators.sameTransfer {t t' : Transaction} (h : SameSeparators t t')
    (hcore : buildTxCore t = buildTxCore t') : SameTransfer t t' := by
  have hlists := congrArg String.toList hcore
  rw [buildTxCore_toList, buildTxCore_toList] at hlists
  have hfields : t.signedFields.map String.toList = t'.signedFields.map String.toList :=
    Separated.intercalate_inj rfl h.counts hlists
  simp only [signedFields, List.map_cons, List.map_nil, List.cons.injEq, and_true,
    String.toList_inj] at hfields
  obtain ⟨hs, hr, hf, ht, ha, hn, hp, htime⟩ := hfields
  exact ⟨hs, hr, hf, ht, UInt64.toNat_inj.mp (Nat.repr_injective ha),
    UInt64.toNat_inj.mp (Nat.repr_injective hn), hp, htime⟩

theorem SameTransfer.sameSeparators {t t' : Transaction} (h : SameTransfer t t') :
    SameSeparators t t' where
  senderPublicKey := congrArg separators h.senderPublicKey
  receiverPublicKey := congrArg separators h.receiverPublicKey
  fromAddress := congrArg separators h.fromAddress
  toAddress := congrArg separators h.toAddress
  payload := congrArg separators h.payload

/-- Without a collision, two verified transfers with one identifier have one
signed string. -/
theorem buildTxCore_eq_of_txID {C : Crypto} (hinj : Function.Injective C.sha256)
    {t t' : Transaction} (ht : t.isCoinbase = false) (ht' : t'.isCoinbase = false)
    (hv : t.verify C = true) (hv' : t'.verify C = true) (hid : t.txID = t'.txID) :
    buildTxCore t = buildTxCore t' := by
  apply hinj
  rw [((verify_iff ht).mp hv).txID_eq, ((verify_iff ht').mp hv').txID_eq, hid]

end Transaction

open Transaction

/-- **The signed string.** Transactions with the same signed string agree on
every field of it exactly when their fields have the same separators. With none
in any field, which no check asks for, a signature would stand for one transfer.
-/
theorem signed_string_unambiguous_iff {t t' : Transaction}
    (hcore : buildTxCore t = buildTxCore t') : SameTransfer t t' ↔ SameSeparators t t' :=
  ⟨SameTransfer.sameSeparators, fun h => h.sameTransfer hcore⟩

/-- One signature authorises one transfer under the same condition: two verified
transfers with one identifier are the same exactly when their fields have the
same separators. -/
theorem one_signature_iff {C : Crypto} (hinj : Function.Injective C.sha256) {t t' : Transaction}
    (ht : t.isCoinbase = false) (ht' : t'.isCoinbase = false) (hv : t.verify C = true)
    (hv' : t'.verify C = true) (hid : t.txID = t'.txID) :
    SameTransfer t t' ↔ SameSeparators t t' :=
  ⟨SameTransfer.sameSeparators,
    fun h => h.sameTransfer (buildTxCore_eq_of_txID hinj ht ht' hv hv' hid)⟩

/-! ## A transfer split in another place

A payment of 20 with the payload `2|rent`, and the payment of 1 a relay makes
of it. The digests and the signature are genuine. -/

section Sample

/-- The key the payment is signed with. -/
def splitPublicKey : String :=
  "02bee95d427d3f1b7990d05f62f3592ae789d2670468de543611c05c31f3f4d23e"

/-- A payment of 20 with the payload `2|rent`, signed. -/
def splitTransfer : Transaction where
  txID := "368cee43ab2dbbed865643bbb2e2b5f88e43cf7f05dc25d491d4030bf774509f"
  senderPublicKey := splitPublicKey
  fromAddress := "PCN_11f099065b3d2841aac5b6ace09e7e84bd8a6e95"
  toAddress := "PCN_8e31399011e85bf1bfb51353e09d83f3bebc595e"
  amount := 20
  nonce := 1
  payload := "2|rent"
  timestamp := "2026-03-14T12:00:10Z"
  digitalSignature := "304402207074afbf8047eb4659719bc873290965f77cbafd879fffda3299854eb791" ++
    "c93c0220376daa4d83905ebfa96d02a17e0f93315193b8f687bf1dc7e6731b310e4fa6b7"

/-- The amount has moved into the address, the nonce into the amount, and the
first part of the payload into the nonce. -/
def resplitTransfer : Transaction :=
  { splitTransfer with
    toAddress := "PCN_8e31399011e85bf1bfb51353e09d83f3bebc595e|20"
    amount := 1
    nonce := 2
    payload := "rent" }

/-- The digests, and the one signature that there is. -/
def splitCrypto : Crypto :=
  .ofTable
    [(splitPublicKey, "11f099065b3d2841aac5b6ace09e7e84bd8a6e95a847ab5d4ca287ad14db74d6"),
      (buildTxCore splitTransfer, splitTransfer.txID)]
    [(splitTransfer.txID, splitTransfer.digitalSignature, splitPublicKey)]

end Sample

/-- Both transfers verify, and they share the string the signature is about:
whoever passes the payment on can make another one of it. -/
theorem signed_string_counterexample :
    ¬ ∀ (C : Crypto) (t t' : Transaction), t.isCoinbase = false → t'.isCoinbase = false →
      t.verify C = true → t'.verify C = true → buildTxCore t = buildTxCore t' →
      SameTransfer t t' := by
  intro h
  have hsame := h splitCrypto splitTransfer resplitTransfer (by decide +kernel)
    (by decide +kernel) (by decide +kernel) (by decide +kernel) (by decide +kernel)
  exact absurd hsame.amount (by decide)

/-- The theorem at these two transfers. -/
theorem signed_string_unambiguous_split :
    SameTransfer splitTransfer resplitTransfer ↔ SameSeparators splitTransfer resplitTransfer :=
  signed_string_unambiguous_iff (by decide +kernel)

end PersonalBlockchain
