import PersonalBlockchain.Lib.PairTree
import PersonalBlockchain.Model.Transaction

/-!
# Personal blockchain — blocks

`struct Block`: Merkle root, header hash, mining, decoding, genesis. Mining
tries the nonces 0, 1, 2, … of a 64-bit counter; when none of them meets the
target the loop of the source never ends, and `mineBlock` is `none`.
-/

namespace PersonalBlockchain

/-- `struct Block`, with the values its default constructor leaves. -/
structure Block where
  index : UInt64 := 0
  timestamp : String := ""
  previousHash : String := ""
  transactions : List Transaction := []
  merkleRoot : String := ""
  nonce : UInt64 := 0
  difficulty : UInt32 := 1
  hash : String := ""
  deriving DecidableEq, Repr

/-- The transactions of a chain, in order. -/
def chainTransactions (chain : List Block) : List Transaction :=
  chain.flatMap Block.transactions

@[simp] theorem chainTransactions_nil : chainTransactions [] = [] := rfl

@[simp] theorem chainTransactions_cons (b : Block) (chain : List Block) :
    chainTransactions (b :: chain) = b.transactions ++ chainTransactions chain := rfl

@[simp] theorem chainTransactions_append (chain chain' : List Block) :
    chainTransactions (chain ++ chain') = chainTransactions chain ++ chainTransactions chain' :=
  List.flatMap_append

/-! ## Merkle root -/

/-- The leaf of a transaction: its identifier, or a digest of some fields when
it has none. -/
def merkleLeaf (C : Crypto) (tx : Transaction) : String :=
  if tx.txID = "" then
    C.sha256 (tx.senderPublicKey ++ tx.receiverPublicKey ++ tx.payload ++ tx.timestamp)
  else tx.txID

/-- The hash over two neighbours, as hex strings put together. -/
def merkleNode (C : Crypto) (h₁ h₂ : String) : String := C.sha256 (h₁ ++ h₂)

/-- `computeMerkleRoot`: the digest of the empty string for no transactions,
else the root over their leaves. The loop is `PairTree.reduce`, and the number
of leaves is enough fuel for it (`merkleLoop_ends`). -/
def computeMerkleRoot (C : Crypto) (transactions : List Transaction) : String :=
  match PairTree.reduce (merkleNode C) transactions.length
    (transactions.map (merkleLeaf C)) with
  | [] => C.sha256 ""
  | root :: _ => root

/-- The loop ends with at most one hash. -/
theorem merkleLoop_ends (C : Crypto) (transactions : List Transaction) :
    (PairTree.reduce (merkleNode C) transactions.length
      (transactions.map (merkleLeaf C))).length ≤ 1 := by
  refine PairTree.reduce_length _ _ ?_
  rw [List.length_map]
  exact Nat.le_succ _

namespace Block

/-! ## Hashing and mining -/

/-- The string a block hash is the digest of: the fields one behind the other,
without anything between them. The transactions are in it by their root. -/
def headerString (b : Block) : String :=
  toString b.index.toNat ++ b.timestamp ++ b.merkleRoot ++ b.previousHash ++
    toString b.nonce.toNat ++ toString b.difficulty.toNat

/-- `calculateHash`. The hash the block carries plays no part. -/
def calculateHash (C : Crypto) (b : Block) : String :=
  C.sha256 b.headerString

/-- `hash.substr(0, difficulty) == std::string(difficulty, '0')`: as many
leading zeros as the difficulty the block itself carries. A difficulty above the
length of the hash is never met. -/
def meetsTarget (b : Block) : Bool :=
  substr0 b.hash b.difficulty.toNat = String.ofList (List.replicate b.difficulty.toNat '0')

/-- The search loop of `mineBlock`: `fuel` more nonces, the current one
included. With the fuel used up there is no result. -/
def mineLoop (C : Crypto) : Nat → Block → Option Block
  | 0, _ => none
  | fuel + 1, b =>
    if b.meetsTarget then some b
    else
      -- `nonce++` wraps around
      let next := { b with nonce := b.nonce + 1 }
      mineLoop C fuel { next with hash := next.calculateHash C }

/-- `mineBlock`. After `2 ^ 64` nonces the counter is back at 0 and the search
repeats itself, so `none` is exactly that it never ends. -/
def mineBlock (C : Crypto) (b : Block) : Option Block :=
  let start := { b with merkleRoot := computeMerkleRoot C b.transactions, nonce := 0 }
  mineLoop C (2 ^ 64) { start with hash := start.calculateHash C }

/-- The constructor `Block(index, previousHash, transactions, difficulty)`: the
block carries the time of its construction and its Merkle root, and no hash yet.
-/
def ofTransactions (C : Crypto) (now : TimePoint) (index : UInt64) (previousHash : String)
    (transactions : List Transaction) (difficulty : UInt32) : Block where
  index := index
  timestamp := currentTimestamp now
  previousHash := previousHash
  transactions := transactions
  merkleRoot := computeMerkleRoot C transactions
  nonce := 0
  difficulty := difficulty

/-- `hasValidTransactions`: every transaction verifies, a coinbase always does. -/
def hasValidTransactions (C : Crypto) (b : Block) : Bool :=
  b.transactions.all fun tx => tx.verify C

/-- `toJson`. The members stand in the order of the `std::map` behind an object.
-/
def toJson (b : Block) : Json :=
  .object [
    ("difficulty", .numberUnsigned b.difficulty.toUInt64),
    ("hash", .string b.hash),
    ("index", .numberUnsigned b.index),
    ("merkleRoot", .string b.merkleRoot),
    ("nonce", .numberUnsigned b.nonce),
    ("previousHash", .string b.previousHash),
    ("timestamp", .string b.timestamp),
    ("transactions", .array (b.transactions.map Transaction.toJson))]

/-- `fromJson`: a missing member has its default, one of the wrong type throws,
and so does a transaction that does not decode. -/
def fromJson (C : Crypto) (j : Json) : Except JsonError Block := do
  return {
    index := ← j.value Json.getUInt64 "index" 0
    timestamp := ← j.value Json.getString "timestamp" ""
    previousHash := ← j.value Json.getString "previousHash" ""
    merkleRoot := ← j.value Json.getString "merkleRoot" ""
    nonce := ← j.value Json.getUInt64 "nonce" 0
    difficulty := ← j.value Json.getUInt32 "difficulty" 1
    hash := ← j.value Json.getString "hash" ""
    transactions := ← (j.arrayMember "transactions").mapM (Transaction.fromJson C) }

/-- `std::string(64, '0')`. -/
def zeroHash : String := String.ofList (List.replicate 64 '0')

/-- The coinbase of the genesis block, with a fixed timestamp. -/
def genesisCoinbase (C : Crypto) : Transaction :=
  Transaction.computeTxID C {
    senderPublicKey := "COINBASE"
    fromAddress := "COINBASE"
    toAddress := "GENESIS"
    receiverPublicKey := ""
    amount := 50
    payload := "Genesis Block"
    timestamp := "2026-01-01T00:00:00Z" }

/-- `createGenesis`: the same block on every node that starts with the same
difficulty, since nothing in it depends on the clock. `none` when its target is
never met. -/
def createGenesis (C : Crypto) (difficulty : UInt32) : Option Block :=
  mineBlock C {
    index := 0
    previousHash := zeroHash
    difficulty := difficulty
    timestamp := "2026-01-01T00:00:00Z"
    transactions := [genesisCoinbase C]
    merkleRoot := computeMerkleRoot C [genesisCoinbase C] }

/-! ## Reading back what was written -/

/-- The block the decoder makes of an encoded one. The hash is read as it was
written, also when the transactions are not. -/
def reread (C : Crypto) (b : Block) : Block :=
  { b with transactions := b.transactions.map (Transaction.reread C) }

/-- **Every block is read back**, as its transactions are. -/
theorem fromJson_toJson (C : Crypto) (b : Block) : fromJson C b.toJson = .ok (b.reread C) := by
  have htxs := mapM_encoded (Transaction.fromJson_toJson C) b.transactions
  unfold fromJson toJson
  simp only [Json.value, Json.find, List.lookup_cons, String.reduceBEq, Json.getString,
    Json.getUInt64, Json.getUInt32, Json.arrayMember, htxs, UInt32.toUInt32_toUInt64]
  rfl

/-- Nothing is left for the decoder to fill in. -/
def Filled (b : Block) : Prop := ∀ tx ∈ b.transactions, tx.Filled

/-- A block with nothing to fill in is read back unchanged. -/
theorem reread_of_filled (C : Crypto) {b : Block} (h : Filled b) : b.reread C = b := by
  have htxs : b.transactions.map (Transaction.reread C) = b.transactions :=
    List.map_congr_left (fun tx htx => Transaction.reread_of_filled C (h tx htx)) |>.trans
      (List.map_id _)
  rw [reread, htxs]

/-- Reading back twice is reading back once. -/
theorem reread_reread (C : Crypto) (b : Block) : (b.reread C).reread C = b.reread C := by
  refine reread_of_filled C fun tx htx => ?_
  obtain ⟨tx, -, rfl⟩ := List.mem_map.mp htx
  exact Transaction.filled_reread C tx

theorem fromJson_filled {C : Crypto} {j : Json} {b : Block} (h : fromJson C j = .ok b) :
    Filled b := by
  unfold fromJson at h
  -- the transactions are decoded last
  iterate 7 obtain ⟨_, -, h⟩ := bind_eq_ok.mp h
  obtain ⟨txs, htxs, h⟩ := bind_eq_ok.mp h
  cases h
  exact mapM_ok_forall (fun _ _ => Transaction.fromJson_filled) htxs

/-- The decoder gives a block back unchanged when it has nothing to fill in,
and only then. -/
theorem reread_eq_iff {C : Crypto} {b : Block} : b.reread C = b ↔ b.Filled := by
  constructor
  · intro h
    have hdecoded := fromJson_filled (fromJson_toJson C b)
    rwa [h] at hdecoded
  · exact reread_of_filled C

/-! ## What mining leaves -/

/-- What a block found by the search satisfies: it differs from the block the
search started with in `merkleRoot`, `nonce` and `hash` only, its hash is its
own and meets its target. -/
structure MinedFrom (C : Crypto) (b b' : Block) : Prop where
  index : b'.index = b.index
  timestamp : b'.timestamp = b.timestamp
  previousHash : b'.previousHash = b.previousHash
  transactions : b'.transactions = b.transactions
  difficulty : b'.difficulty = b.difficulty
  merkleRoot : b'.merkleRoot = computeMerkleRoot C b.transactions
  hash : b'.hash = b'.calculateHash C
  target : b'.meetsTarget = true

/-- What the loop finds, by induction on the fuel: each round starts with a
block that carries its own hash. -/
theorem mineLoop_spec {C : Crypto} {fuel : Nat} {b b' : Block}
    (hhash : b.hash = b.calculateHash C) (hroot : b.merkleRoot = computeMerkleRoot C b.transactions)
    (h : mineLoop C fuel b = some b') : MinedFrom C b b' := by
  induction fuel generalizing b with
  | zero => cases h
  | succ fuel ih =>
    rw [mineLoop] at h
    split_ifs at h with htarget
    · -- the search stops at `b` itself
      cases h
      exact ⟨rfl, rfl, rfl, rfl, rfl, hroot, hhash, htarget⟩
    · -- the hash is computed anew from the next nonce
      have hmined := @ih { b with
        nonce := b.nonce + 1
        hash := calculateHash C { b with nonce := b.nonce + 1 } } rfl hroot h
      exact ⟨hmined.index, hmined.timestamp, hmined.previousHash, hmined.transactions,
        hmined.difficulty, hmined.merkleRoot, hmined.hash, hmined.target⟩

/-- **What mining leaves**: the block it was given, with its root, a nonce and a
hash that meets the target. -/
theorem mineBlock_spec {C : Crypto} {b b' : Block} (h : b.mineBlock C = some b') :
    MinedFrom C b b' := by
  have hmined := mineLoop_spec rfl rfl h
  exact ⟨hmined.index, hmined.timestamp, hmined.previousHash, hmined.transactions,
    hmined.difficulty, hmined.merkleRoot, hmined.hash, hmined.target⟩

/-- The block as the search leaves it at a nonce. -/
def atNonce (C : Crypto) (b : Block) (n : Nat) : Block :=
  { b with
    nonce := UInt64.ofNat n
    hash := calculateHash C { b with nonce := UInt64.ofNat n } }

/-- The search goes from nonce to nonce until one meets the target: with enough
fuel it finds the first nonce that does. -/
theorem mineLoop_found {C : Crypto} {b : Block} {n : Nat}
    (hfound : (b.atNonce C n).meetsTarget = true)
    (hskipped : ∀ k < n, (b.atNonce C k).meetsTarget = false) {fuel k : Nat} (hk : k ≤ n)
    (hfuel : n - k < fuel) : mineLoop C fuel (b.atNonce C k) = some (b.atNonce C n) := by
  induction fuel generalizing k with
  | zero => exact absurd hfuel (Nat.not_lt_zero _)
  | succ fuel ih =>
    rw [mineLoop]
    -- the nonce sought, or one that is passed over
    rcases hk.eq_or_lt with rfl | hlt
    · rw [if_pos hfound]
    · rw [if_neg (by simp [hskipped k hlt])]
      have hnext : (b.atNonce C k).nonce + 1 = UInt64.ofNat (k + 1) := (UInt64.ofNat_add k 1).symm
      dsimp only
      rw [hnext]
      exact ih hlt (by omega)

/-- What is known of a genesis block that could be mined. -/
theorem createGenesis_spec {C : Crypto} {difficulty : UInt32} {genesis : Block}
    (h : createGenesis C difficulty = some genesis) :
    genesis.previousHash = zeroHash ∧ genesis.transactions = [genesisCoinbase C] ∧
      genesis.merkleRoot = computeMerkleRoot C genesis.transactions ∧
      genesis.hash = genesis.calculateHash C := by
  have hmined := mineBlock_spec h
  have hroot : genesis.merkleRoot = computeMerkleRoot C genesis.transactions := by
    rw [hmined.merkleRoot, hmined.transactions]
  exact ⟨hmined.previousHash, hmined.transactions, hroot, hmined.hash⟩

end Block

end PersonalBlockchain
