import PersonalBlockchain.Model.Blockchain

/-!
# Personal blockchain — sending a transaction over HTTP

The part of `class HttpServer` that enters a transaction: the request is read
and checked in `handleSendTransaction`, and what passes is offered to
`addTransaction`. `sendRequest` is the handler up to that call.
-/

namespace PersonalBlockchain

/-- Why a request is refused before the ledger sees it. -/
inductive SendError
  /-- 400 `INVALID_TRANSACTION`, `JSON parse error: …` -/
  | json (e : JsonError)
  | response (statusCode : Nat) (statusText errorCode message : String)
  deriving DecidableEq

/-- `errorResponse`. -/
structure ErrorResponse where
  statusCode : Nat
  statusText : String
  errorCode : String
  message : String
  deriving DecidableEq

namespace HttpServer

/-- `trim`: blanks at both ends go. -/
def trim (value : String) : String :=
  String.ofList ((value.toList.dropWhile isSpace).reverse.dropWhile isSpace).reverse

/-- `[0-9a-fA-F]`. -/
def isHexDigit (c : Char) : Bool :=
  c.isDigit || ('a' ≤ c && c ≤ 'f') || ('A' ≤ c && c ≤ 'F')

/-- `isValidAddress`, that is `isValidWalletAddress`: `^PCN_[0-9a-fA-F]{40}$`. -/
def isValidAddress (address : String) : Bool :=
  address.toList.take 4 = "PCN_".toList && (address.toList.drop 4).length = 40 &&
    (address.toList.drop 4).all isHexDigit

/-- `addressFromPublicKey`, in the new form only. -/
def addressFromPublicKey (C : Crypto) (publicKey : String) : String :=
  "PCN_" ++ substr0 (C.sha256 publicKey) 40

/-- `walletExists`: a wallet the server made, or an address with a balance or a
history. -/
def walletExists (knownAddresses : List String) (bc : Blockchain) (address : String) : Bool :=
  if !isValidAddress address then false
  else if knownAddresses.contains address then true
  else if bc.getBalanceForAddress address > 0 then true
  else !(bc.getTransactionsForAddress address).isEmpty

/-- `errorResponse` with status 400. -/
def badRequest {α : Type} (errorCode message : String) : Except SendError α :=
  .error (.response 400 "Bad Request" errorCode message)

/-- The members `handleSendTransaction` reads from the body. -/
structure SendBody where
  fromAddress : String
  toAddress : String
  senderPublicKey : String
  receiverPublicKey : String
  payload : String
  timestamp : String
  txID : String
  signature : String
  amount : UInt64
  nonce : UInt64

/-- The reading of the body: a missing member has its default, one of the wrong
type throws. -/
def readBody (j : Json) : Except JsonError SendBody := do
  return {
    fromAddress := trim (← j.value Json.getString "fromAddress" "")
    toAddress := trim (← j.value Json.getString "toAddress" "")
    senderPublicKey := ← j.value Json.getString "senderPublicKey" ""
    receiverPublicKey := ← j.value Json.getString "receiverPublicKey" ""
    payload := ← j.value Json.getString "payload" ""
    timestamp := ← j.value Json.getString "timestamp" ""
    txID := ← j.value Json.getString "txID" ""
    -- the default is evaluated first, so a bad `digitalSignature` fails either way
    signature := ← j.value Json.getString "signature"
      (← j.value Json.getString "digitalSignature" "")
    amount := ← j.value Json.getUInt64 "amount" 0
    nonce := ← j.value Json.getUInt64 "nonce" 0 }

/-- The transaction built from a body. Its identifier is computed anew, whatever
the body says. -/
def SendBody.transaction (C : Crypto) (now : TimePoint) (body : SendBody) : Transaction :=
  Transaction.computeTxID C {
    senderPublicKey := body.senderPublicKey
    receiverPublicKey := body.receiverPublicKey
    fromAddress := body.fromAddress
    toAddress := body.toAddress
    amount := body.amount
    nonce := body.nonce
    payload := body.payload
    timestamp := if body.timestamp = "" then currentTimestamp now else body.timestamp }

/-- The checks of `handleSendTransaction`, in the order of the source, each with
the response it gives. -/
def checkBody (C : Crypto) (now : TimePoint) (knownAddresses : List String) (bc : Blockchain)
    (body : SendBody) : Except SendError Transaction :=
  if body.fromAddress = "" ∨ body.toAddress = "" ∨ body.senderPublicKey = "" ∨
      body.signature = "" then
    badRequest "INVALID_TRANSACTION"
      "Missing required fields: fromAddress,toAddress,senderPublicKey,signature"
  else if body.amount = 0 then badRequest "INVALID_TRANSACTION" "amount must be > 0"
  else if 2048 < body.payload.utf8ByteSize then
    .error (.response 413 "Payload Too Large" "INVALID_TRANSACTION" "payload too large")
  else if !isValidAddress body.fromAddress ∨
      body.fromAddress ≠ addressFromPublicKey C body.senderPublicKey then
    badRequest "INVALID_ADDRESS" "Sender address is invalid or does not match sender public key"
  else if !isValidAddress body.toAddress then
    badRequest "INVALID_ADDRESS" "Receiver address format is invalid"
  else if !walletExists knownAddresses bc body.toAddress then
    badRequest "RECEIVER_NOT_FOUND" "Receiver wallet does not exist"
  else if bc.getBalanceForAddress body.fromAddress < body.amount then
    badRequest "INSUFFICIENT_BALANCE" "Insufficient balance"
  else if body.txID ≠ "" ∧ body.txID ≠ (body.transaction C now).txID then
    badRequest "INVALID_TRANSACTION" "txID mismatch"
  else .ok { body.transaction C now with digitalSignature := body.signature }

/-- `handleSendTransaction` up to the call of `addTransaction`: the transaction
that is offered to the ledger, or the reason why none is. -/
def sendRequest (C : Crypto) (now : TimePoint) (knownAddresses : List String) (bc : Blockchain)
    (j : Json) : Except SendError Transaction :=
  match readBody j with
  | .error e => .error (.json e)
  | .ok body => checkBody C now knownAddresses bc body

/-- A transaction sent over HTTP has both addresses and an amount. -/
theorem sendRequest_filled {C : Crypto} {now : TimePoint} {knownAddresses : List String}
    {bc : Blockchain} {j : Json} {tx : Transaction}
    (h : sendRequest C now knownAddresses bc j = .ok tx) : tx.Filled := by
  unfold sendRequest at h
  split at h
  · cases h
  · rename_i body _
    simp only [checkBody, badRequest] at h
    split_ifs at h with hmissing hamount
    cases h
    simp only [not_or] at hmissing
    exact ⟨fun hfrom => absurd hfrom hmissing.1, fun hto => absurd hto hmissing.2.1,
      fun hzero => absurd hzero hamount⟩

end HttpServer

end PersonalBlockchain
