import PersonalBlockchain.Model.StateManager

/-!
# Personal blockchain — blocks sent as JSON

A block is sent as `toJson` and read with `fromJson`. The decoder is made for
older entries as well: it derives the addresses that are missing, and a
coinbase without an amount gets 50. `verify` accepts a transfer without a
sender address, but its signature is about the empty address: once filled in,
the transfer does not verify any more.

## Results

* `json_transport` — what the decoder makes of an encoded block, and when that is
  the block itself;
* `reread_verify_iff`, `reread_valid_iff` — a valid transfer, and a valid block,
  is still valid exactly when there was nothing to fill in.
-/

namespace PersonalBlockchain

namespace Transaction

/-- The length of the signed string. -/
theorem length_buildTxCore (tx : Transaction) :
    (buildTxCore tx).toList.length = tx.senderPublicKey.toList.length +
      tx.receiverPublicKey.toList.length + tx.fromAddress.toList.length +
      tx.toAddress.toList.length + (toString tx.amount.toNat).toList.length +
      (toString tx.nonce.toNat).toList.length + tx.payload.toList.length +
      tx.timestamp.toList.length + 7 := by
  simp only [buildTxCore, String.toList_append, List.length_append, String.reduceToList,
    List.length_cons, List.length_nil]
  omega

/-- What the decoder does to a transfer. -/
theorem reread_of_transfer (C : Crypto) {tx : Transaction} (h : tx.isCoinbase = false) :
    tx.reread C = { tx with
      fromAddress := if tx.fromAddress = "" ∧ tx.senderPublicKey ≠ "" then
        deriveAddressV2 C tx.senderPublicKey else tx.fromAddress
      toAddress := if tx.toAddress = "" ∧ tx.receiverPublicKey ≠ "" then
        deriveAddressV2 C tx.receiverPublicKey else tx.toAddress } := by
  have hsender : tx.senderPublicKey ≠ "COINBASE" := by simpa [isCoinbase] using h
  -- the two addresses are filled in independently, the amount is left alone
  by_cases hfrom : tx.fromAddress = "" ∧ tx.senderPublicKey ≠ "" <;>
    by_cases hto : tx.toAddress = "" ∧ tx.receiverPublicKey ≠ "" <;>
    simp only [reread, isCoinbase, hfrom, hto, hsender, ne_eq, not_false_eq_true, and_true,
      and_self, if_true, if_false, decide_false, Bool.false_eq_true, and_false]

theorem length_pos_of_ne {s : String} (h : s ≠ "") : 0 < s.toList.length :=
  List.length_pos_iff.mpr fun hnil => h (String.toList_inj.mp hnil)

/-- A filled address makes the signed string longer, so a signed string that is
still the same says that nothing was filled in. -/
theorem filled_of_core {C : Crypto} {tx : Transaction} (h : tx.isCoinbase = false)
    (hcore : buildTxCore (tx.reread C) = buildTxCore tx) : tx.Filled := by
  have hlength := congrArg (fun s => s.toList.length) hcore
  have hderived : ∀ key, 0 < (deriveAddressV2 C key).toList.length :=
    fun key => length_pos_of_ne (deriveAddressV2_ne C key)
  simp only [reread_of_transfer C h, length_buildTxCore] at hlength
  -- an address in place of the empty one is what the string is longer by
  have hfrom : ¬ (tx.fromAddress = "" ∧ tx.senderPublicKey ≠ "") := by
    intro hmissing
    have hpos := hderived tx.senderPublicKey
    have hpos' := hderived tx.receiverPublicKey
    rw [if_pos hmissing, hmissing.1] at hlength
    split_ifs at hlength with hto
    · simp only [hto.1, String.toList_empty, List.length_nil] at hlength
      omega
    · simp only [String.toList_empty, List.length_nil] at hlength
      omega
  have hto : ¬ (tx.toAddress = "" ∧ tx.receiverPublicKey ≠ "") := by
    intro hmissing
    have hpos := hderived tx.receiverPublicKey
    rw [if_neg hfrom, if_pos hmissing, hmissing.1] at hlength
    simp only [String.toList_empty, List.length_nil] at hlength
    omega
  simp only [not_and, not_not] at hfrom hto
  exact ⟨fun hempty => .inl (hfrom hempty), hto, fun _ => h⟩

/-- **A transfer that is filled in does not verify any more**: its identifier is
the digest of the string with the empty address. -/
theorem reread_verify_iff {C : Crypto} (hinj : Function.Injective C.sha256) {tx : Transaction}
    (h : tx.isCoinbase = false) (hv : tx.verify C = true) :
    (tx.reread C).verify C = true ↔ tx.Filled := by
  constructor
  · intro hv'
    have h' : (tx.reread C).isCoinbase = false := (reread_isCoinbase C tx).trans h
    have hcore : buildTxCore (tx.reread C) = buildTxCore tx := by
      apply hinj
      rw [((verify_iff h').mp hv').txID_eq, ((verify_iff h).mp hv).txID_eq, reread_txID]
    exact filled_of_core h hcore
  · intro hfilled
    rw [reread_of_filled C hfilled, hv]

end Transaction

namespace Block

/-- The validity of what the decoder makes of a valid block: it is still there
exactly when no transfer of it was filled in. Coinbases may be, they are not
checked. -/
theorem reread_valid_iff {C : Crypto} (hinj : Function.Injective C.sha256) {b : Block}
    (hvalid : b.hasValidTransactions C = true) :
    (b.reread C).hasValidTransactions C = true ↔
      ∀ tx ∈ b.transactions, tx.isCoinbase = false → tx.Filled := by
  have hverify : ∀ tx ∈ b.transactions, tx.verify C = true := List.all_eq_true.mp hvalid
  simp only [hasValidTransactions, reread, List.all_map, List.all_eq_true, Function.comp_apply]
  refine forall₂_congr fun tx htx => ?_
  cases hcb : tx.isCoinbase with
  | false => simpa using Transaction.reread_verify_iff hinj hcb (hverify tx htx)
  | true =>
    have hcb' : (tx.reread C).isCoinbase = true := (Transaction.reread_isCoinbase C tx).trans hcb
    simp [Transaction.verify_of_isCoinbase hcb']

end Block

/-- **JSON transport.** The decoder answers with the block whose transactions it
has filled in. That is the block itself exactly when there was nothing to fill
in, and then it has the same identifiers, the same validity and the same effect
on every ledger. -/
theorem json_transport (C : Crypto) (b : Block) :
    Block.fromJson C b.toJson = .ok (b.reread C) ∧
      (b.reread C = b ↔ b.Filled) ∧
      (b.Filled → (b.reread C).transactions.map (Transaction.computeTxID C) =
          b.transactions.map (Transaction.computeTxID C) ∧
        (b.reread C).hasValidTransactions C = b.hasValidTransactions C ∧
        ∀ sm : StateManager, sm.applyBlockState (b.reread C) = sm.applyBlockState b) := by
  refine ⟨Block.fromJson_toJson C b, Block.reread_eq_iff, fun hfilled => ?_⟩
  rw [Block.reread_of_filled C hfilled]
  exact ⟨rfl, rfl, fun _ => rfl⟩

/-! ## A transfer without a sender address -/

section Sample

/-- The key the payment is signed with. -/
def unaddressedPublicKey : String :=
  "02bee95d427d3f1b7990d05f62f3592ae789d2670468de543611c05c31f3f4d23e"

/-- A signed payment that leaves its sender address out. -/
def unaddressedTransfer : Transaction where
  txID := "1c9c4bfffe2bf962a6e054c2dfdd7b2ac8494bad5b56695425b13580790ddde8"
  senderPublicKey := unaddressedPublicKey
  toAddress := "PCN_8e31399011e85bf1bfb51353e09d83f3bebc595e"
  amount := 20
  nonce := 1
  payload := "rent"
  timestamp := "2026-03-14T12:00:10Z"
  digitalSignature := "3046022100a0acde0400d16e64cf0321b25d21d36231411f5ccfdeb28af847b29d6fd3" ++
    "56e1022100d7efb75f4304bb324b331e0c20793c045b850a6382aad7b4c866d7df30007d6c"

/-- A block with that payment. -/
def unaddressedBlock : Block where
  index := 1
  timestamp := "2026-03-14T12:00:20Z"
  transactions := [unaddressedTransfer]

/-- The digests, and the one signature that there is. -/
def unaddressedCrypto : Crypto :=
  .ofTable
    [(unaddressedPublicKey, "11f099065b3d2841aac5b6ace09e7e84bd8a6e95a847ab5d4ca287ad14db74d6"),
      (buildTxCore unaddressedTransfer, unaddressedTransfer.txID)]
    [(unaddressedTransfer.txID, unaddressedTransfer.digitalSignature, unaddressedPublicKey)]

end Sample

/-- The transfer verifies, and comes out of the decoder with an address: the
block that arrives is not the one that was sent. -/
theorem json_transport_counterexample :
    ¬ ∀ (C : Crypto) (b : Block), b.hasValidTransactions C = true →
      Block.fromJson C b.toJson = .ok b := by
  intro h
  have hsame := h unaddressedCrypto unaddressedBlock (by decide +kernel)
  rw [Block.fromJson_toJson] at hsame
  have hblock : unaddressedBlock.reread unaddressedCrypto = unaddressedBlock :=
    Except.ok.inj hsame
  exact absurd hblock (by decide +kernel)

end PersonalBlockchain
