import PersonalBlockchain.Model.Crypto
import PersonalBlockchain.Model.Json
import PersonalBlockchain.Model.Timestamp

/-!
# Personal blockchain — transactions

`struct Transaction` with its identifier, its verification, its expiry check
and its decoder. A transaction whose `senderPublicKey` is `COINBASE` is a
mining reward and passes `verify` unchecked.
-/

namespace PersonalBlockchain

open Calendar

/-- `struct Transaction`, with the values its default constructor leaves. -/
structure Transaction where
  txID : String := ""
  senderPublicKey : String := ""
  receiverPublicKey : String := ""
  fromAddress : String := ""
  toAddress : String := ""
  amount : UInt64 := 0
  nonce : UInt64 := 0
  payload : String := ""
  timestamp : String := ""
  digitalSignature : String := ""
  deriving DecidableEq, Repr

/-! ## Addresses and identifiers -/

/-- `deriveAddressV2`: `PCN_` and the first 40 hex digits of the digest of the
key. -/
def deriveAddressV2 (C : Crypto) (publicKey : String) : String :=
  "PCN_" ++ substr0 (C.sha256 publicKey) 40

/-- `deriveAddressLegacy`: the digest of the key as it is. -/
def deriveAddressLegacy (C : Crypto) (publicKey : String) : String :=
  C.sha256 publicKey

/-- A derived address is never empty, whatever the digest. -/
theorem deriveAddressV2_ne (C : Crypto) (publicKey : String) :
    deriveAddressV2 C publicKey ≠ "" := by
  intro h
  have hlist := congrArg String.toList h
  simp [deriveAddressV2] at hlist

/-- `buildTxCore`: the string a transaction identifier is the digest of, its
fields with `|` between them. A field may itself contain a `|`. -/
def buildTxCore (tx : Transaction) : String :=
  tx.senderPublicKey ++ "|" ++ tx.receiverPublicKey ++ "|" ++ tx.fromAddress ++ "|" ++
    tx.toAddress ++ "|" ++ toString tx.amount.toNat ++ "|" ++ toString tx.nonce.toNat ++ "|" ++
    tx.payload ++ "|" ++ tx.timestamp

namespace Transaction

/-- `computeTxID`. The signature is no part of the identifier. -/
def computeTxID (C : Crypto) (tx : Transaction) : Transaction :=
  { tx with txID := C.sha256 (buildTxCore tx) }

/-- `isCoinbase`: a matter of the sender's key alone. -/
def isCoinbase (tx : Transaction) : Bool :=
  tx.senderPublicKey = "COINBASE"

/-- `verify`: what is checked of a transaction by itself, without any look at
the ledger. -/
def verify (C : Crypto) (tx : Transaction) : Bool :=
  -- no identifier, amount or signature of a coinbase is looked at
  if tx.isCoinbase then true
  else if tx.amount = 0 then false
  else if tx.txID = "" ∨ tx.digitalSignature = "" ∨ tx.senderPublicKey = "" then false
  -- an empty sender address passes
  else if tx.fromAddress ≠ "" ∧ tx.fromAddress ≠ deriveAddressV2 C tx.senderPublicKey ∧
      tx.fromAddress ≠ deriveAddressLegacy C tx.senderPublicKey then false
  else if C.sha256 (buildTxCore tx) ≠ tx.txID then false
  else C.verify tx.txID tx.digitalSignature tx.senderPublicKey

/-- `isExpired(windowSeconds)`. The timestamp is turned into the clock's own
64-bit nanoseconds before the two are subtracted, so far-off years wrap. -/
def isExpired (now : TimePoint) (windowSeconds : Int) (tx : Transaction) : Bool :=
  match getTime tx.timestamp with
  -- an unreadable timestamp counts as expired
  | none => true
  | some tm =>
    let txTime := (timegm tm * 1000000000).bmod (2 ^ 64)
    let diff := (((now.ns : Int) - txTime).bmod (2 ^ 64)).tdiv 1000000000
    windowSeconds < diff.natAbs

/-- `toJson`. The members stand in the order of the `std::map` behind an
object. -/
def toJson (tx : Transaction) : Json :=
  .object [
    ("amount", .numberUnsigned tx.amount),
    ("digitalSignature", .string tx.digitalSignature),
    ("fromAddress", .string tx.fromAddress),
    ("nonce", .numberUnsigned tx.nonce),
    ("payload", .string tx.payload),
    ("receiverPublicKey", .string tx.receiverPublicKey),
    ("senderPublicKey", .string tx.senderPublicKey),
    ("timestamp", .string tx.timestamp),
    ("toAddress", .string tx.toAddress),
    ("txID", .string tx.txID)]

/-- `fromJson`. -/
def fromJson (C : Crypto) (j : Json) : Except JsonError Transaction := do
  let tx : Transaction := {
    txID := ← j.value Json.getString "txID" ""
    senderPublicKey := ← j.value Json.getString "senderPublicKey" ""
    receiverPublicKey := ← j.value Json.getString "receiverPublicKey" ""
    fromAddress := ← j.value Json.getString "fromAddress" ""
    toAddress := ← j.value Json.getString "toAddress" ""
    amount := ← j.value Json.getUInt64 "amount" 0
    nonce := ← j.value Json.getUInt64 "nonce" 0
    payload := ← j.value Json.getString "payload" ""
    timestamp := ← j.value Json.getString "timestamp" ""
    digitalSignature := ← j.value Json.getString "digitalSignature" "" }
  -- backward compatibility for older chain entries
  let tx := if tx.fromAddress = "" ∧ tx.senderPublicKey ≠ "" ∧ tx.senderPublicKey ≠ "COINBASE" then
    { tx with fromAddress := deriveAddressV2 C tx.senderPublicKey } else tx
  let tx := if tx.toAddress = "" ∧ tx.receiverPublicKey ≠ "" then
    { tx with toAddress := deriveAddressV2 C tx.receiverPublicKey } else tx
  let tx := if tx.amount = 0 ∧ tx.isCoinbase then { tx with amount := 50 } else tx
  return tx

/-! ## Reading back what was written -/

/-- The transaction the decoder makes of an encoded one: missing addresses are
derived from the keys, and a coinbase without an amount gets 50. -/
def reread (C : Crypto) (tx : Transaction) : Transaction :=
  let tx := if tx.fromAddress = "" ∧ tx.senderPublicKey ≠ "" ∧ tx.senderPublicKey ≠ "COINBASE" then
    { tx with fromAddress := deriveAddressV2 C tx.senderPublicKey } else tx
  let tx := if tx.toAddress = "" ∧ tx.receiverPublicKey ≠ "" then
    { tx with toAddress := deriveAddressV2 C tx.receiverPublicKey } else tx
  if tx.amount = 0 ∧ tx.isCoinbase then { tx with amount := 50 } else tx

/-- **Every transaction is read back**, up to what the decoder fills in. -/
theorem fromJson_toJson (C : Crypto) (tx : Transaction) :
    fromJson C tx.toJson = .ok (tx.reread C) := by
  unfold fromJson toJson
  simp only [Json.value, Json.find, List.lookup_cons, String.reduceBEq, Json.getString,
    Json.getUInt64]
  rfl

theorem reread_txID (C : Crypto) (tx : Transaction) : (tx.reread C).txID = tx.txID := by
  simp only [reread]
  split_ifs <;> rfl

theorem reread_isCoinbase (C : Crypto) (tx : Transaction) :
    (tx.reread C).isCoinbase = tx.isCoinbase := by
  simp only [reread]
  split_ifs <;> rfl

/-- Nothing is left for the decoder to fill in: the addresses are there where
keys are, and a coinbase has an amount. -/
structure Filled (tx : Transaction) : Prop where
  fromAddress : tx.fromAddress = "" → tx.senderPublicKey = "" ∨ tx.isCoinbase = true
  toAddress : tx.toAddress = "" → tx.receiverPublicKey = ""
  amount : tx.amount = 0 → tx.isCoinbase = false

/-- A transaction with nothing to fill in is read back unchanged. -/
theorem reread_of_filled (C : Crypto) {tx : Transaction} (h : Filled tx) :
    tx.reread C = tx := by
  have hfrom : ¬ (tx.fromAddress = "" ∧ tx.senderPublicKey ≠ "" ∧
      tx.senderPublicKey ≠ "COINBASE") := by
    rintro ⟨hempty, hsender, hcb⟩
    rcases h.fromAddress hempty with hs | hs
    · exact hsender hs
    · exact hcb (by simpa [isCoinbase] using hs)
  have hto : ¬ (tx.toAddress = "" ∧ tx.receiverPublicKey ≠ "") :=
    fun hboth => hboth.2 (h.toAddress hboth.1)
  have hamount : ¬ (tx.amount = 0 ∧ tx.isCoinbase = true) := by
    rintro ⟨hzero, hcb⟩
    rw [h.amount hzero] at hcb
    cases hcb
  -- none of the three cases of the decoder applies
  unfold reread
  simp only [if_neg hfrom, if_neg hto, if_neg hamount]

/-- Nothing is left to fill in after decoding. -/
theorem filled_reread (C : Crypto) (tx : Transaction) : Filled (tx.reread C) := by
  -- the three defaults are independent: none touches what another one tests
  unfold reread
  refine ⟨?_, ?_, ?_⟩
  · grind [isCoinbase, deriveAddressV2_ne]
  · grind [isCoinbase, deriveAddressV2_ne]
  · grind [isCoinbase, deriveAddressV2_ne]

/-- Reading back twice is reading back once. -/
theorem reread_reread (C : Crypto) (tx : Transaction) : (tx.reread C).reread C = tx.reread C :=
  reread_of_filled C (filled_reread C tx)

theorem fromJson_filled {C : Crypto} {j : Json} {tx : Transaction}
    (h : fromJson C j = .ok tx) : Filled tx := by
  unfold fromJson at h
  -- one member after the other is there or the decoder has thrown
  repeat obtain ⟨_, -, h⟩ := bind_eq_ok.mp h
  cases h
  exact filled_reread C _

/-! ## What a verified transfer satisfies -/

/-- What `verify` checks of a transaction that is not a coinbase. -/
structure Verified (C : Crypto) (tx : Transaction) : Prop where
  amount_ne : tx.amount ≠ 0
  txID_ne : tx.txID ≠ ""
  signature_ne : tx.digitalSignature ≠ ""
  sender_ne : tx.senderPublicKey ≠ ""
  from_derived : tx.fromAddress = "" ∨ tx.fromAddress = deriveAddressV2 C tx.senderPublicKey ∨
    tx.fromAddress = deriveAddressLegacy C tx.senderPublicKey
  txID_eq : C.sha256 (buildTxCore tx) = tx.txID
  signed : C.verify tx.txID tx.digitalSignature tx.senderPublicKey = true

theorem verify_of_isCoinbase {C : Crypto} {tx : Transaction} (h : tx.isCoinbase = true) :
    tx.verify C = true := by
  rw [verify, if_pos h]

/-- What `verify` answers of a transfer, check by check. -/
theorem verify_iff {C : Crypto} {tx : Transaction} (h : tx.isCoinbase = false) :
    tx.verify C = true ↔ Verified C tx := by
  rw [verify, h, if_neg Bool.false_ne_true]
  constructor
  · intro hv
    -- the first check that fails answers for all of them
    split_ifs at hv with hamount hempty hfrom hid
    simp only [not_or, ← ne_eq] at hempty
    simp only [not_and_or, not_not] at hfrom hid
    exact ⟨hamount, hempty.1, hempty.2.1, hempty.2.2, hfrom, hid, hv⟩
  · intro hv
    have hempty : ¬ (tx.txID = "" ∨ tx.digitalSignature = "" ∨ tx.senderPublicKey = "") := by
      simp [hv.txID_ne, hv.signature_ne, hv.sender_ne]
    have hfrom : ¬ (tx.fromAddress ≠ "" ∧ tx.fromAddress ≠ deriveAddressV2 C tx.senderPublicKey ∧
        tx.fromAddress ≠ deriveAddressLegacy C tx.senderPublicKey) := by
      simp only [not_and_or, not_not]
      exact hv.from_derived
    rw [if_neg hv.amount_ne, if_neg hempty, if_neg hfrom, if_neg (not_not.mpr hv.txID_eq),
      hv.signed]

end Transaction

end PersonalBlockchain
