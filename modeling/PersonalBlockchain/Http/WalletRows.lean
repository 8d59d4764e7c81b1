import PersonalBlockchain.Http.Views
import PersonalBlockchain.Ledger.Identifiers
import PersonalBlockchain.Ledger.WalletHistory

/-!
# Personal blockchain — the rows of a wallet

`handleGetWalletTransactions` finds the block of a confirmed transaction by its
identifier, in a map in which the last block wins. Rewards of a miner within one
second share an identifier, and then the rows of all of them name the last block.

## Results

* `txBlockMeta_eq` — the map leads from an identifier to the last block with it;
* `namesItsBlock_of_nodup` — with distinct identifiers every row names its block;
* `rows_name_blocks_iff` — on a node that only queues and mines, identifiers are
  distinct and every row names its block exactly when nobody mines twice within one
  second;
* `rows_name_blocks_counterexample` — two rewards, and both rows name the second
  block.
-/

namespace PersonalBlockchain

open Std Machine Reading Reader Blockchain Filing

namespace HttpServer

/-! ## `handleGetWalletTransactions` -/

/-- A row of the list; its aliases of `txID` and of the addresses are left out. -/
structure WalletRow where
  tx : Transaction
  direction : String
  status : String
  /-- `null` when no block is found -/
  blockHeight : Option UInt64
  blockHash : String
  deriving DecidableEq

/-- The body of the response. -/
structure WalletTransactions where
  address : String
  count : Nat
  transactions : List WalletRow
  confirmedTransactions : List WalletRow
  pendingTransactions : List WalletRow
  deriving DecidableEq

/-- The map `txBlockMeta`. -/
def txBlockMeta (chain : List Block) : ExtTreeMap String (UInt64 × String) :=
  chain.foldl (fun entries block => block.transactions.foldl
    (fun entries tx => entries.insert tx.txID (block.index, block.hash)) entries) ∅

/-- How the row of a transaction looks from an address. -/
def direction (address : String) (tx : Transaction) : String :=
  if tx.isCoinbase then "reward" else if tx.fromAddress = address then "sent" else "received"

/-- The body of the loop over the history. -/
def confirmedRow (address : String) (entries : ExtTreeMap String (UInt64 × String))
    (tx : Transaction) : WalletRow :=
  match entries[tx.txID]? with
  | some (height, hash) => ⟨tx, direction address tx, "confirmed", some height, hash⟩
  | none => ⟨tx, direction address tx, "confirmed", none, ""⟩

/-- The loop over the mempool. -/
def pendingWalletRows (address : String) (confirmedTxIds : List String)
    (mempool : List Transaction) : List WalletRow :=
  (mempool.filter fun tx => (tx.fromAddress = address || tx.toAddress = address) &&
    !confirmedTxIds.contains tx.txID).map fun tx =>
      ⟨tx, direction address tx, "pending", none, ""⟩

/-- The list that is built from the history, the mempool and the chain. -/
def listWallet (address : String) (txs mempool : List Transaction) (chain : List Block) :
    WalletTransactions :=
  let confirmed := txs.map (confirmedRow address (txBlockMeta chain))
  let pending := pendingWalletRows address (txs.map Transaction.txID) mempool
  { address := address
    count := (confirmed ++ pending).length
    transactions := confirmed ++ pending
    confirmedTransactions := confirmed
    pendingTransactions := pending }

/-- `handleGetWalletTransactions`: three looks. -/
def handleGetWalletTransactions (address : String) :
    Reader Blockchain (Except ErrorResponse WalletTransactions) :=
  if !isValidAddress address then
    return .error ⟨400, "Bad Request", "INVALID_ADDRESS", "Wallet address format is invalid"⟩
  else do
    let txs ← observe fun bc => bc.getTransactionsForAddress address
    let mempool ← observe Blockchain.mempool
    let chain ← observe Blockchain.chain
    return .ok (listWallet address txs mempool chain)

/-! ## Placements -/

/-- The transactions of a chain, each with its block. -/
def placements (chain : List Block) : List (Block × Transaction) :=
  chain.flatMap fun block => block.transactions.map fun tx => (block, tx)

variable {chain : List Block} {block : Block} {tx : Transaction} {address : String}

/-- A transaction is placed in a block of the chain that contains it. -/
theorem mem_placements :
    (block, tx) ∈ placements chain ↔ block ∈ chain ∧ tx ∈ block.transactions := by
  simp only [placements, List.mem_flatMap, List.mem_map, Prod.mk.injEq]
  constructor
  · rintro ⟨_, hblock, _, htx, rfl, rfl⟩
    exact ⟨hblock, htx⟩
  · rintro ⟨hblock, htx⟩
    exact ⟨block, hblock, tx, htx, rfl, rfl⟩

theorem placements_txIDs : (placements chain).map (fun placed => placed.2.txID) =
    (chainTransactions chain).map Transaction.txID := by
  simp only [placements, chainTransactions, List.map_flatMap, List.map_map]
  rfl

/-- The map `txBlockMeta` leads from an identifier to the last block that
contains it: later entries of the two loops overwrite earlier ones. -/
theorem txBlockMeta_eq : txBlockMeta chain =
    lastUnder compare (fun placed => placed.2.txID)
      (fun placed => (placed.1.index, placed.1.hash)) (placements chain) := by
  unfold txBlockMeta lastUnder placements
  rw [List.foldl_flatMap]
  simp only [List.foldl_map]

/-- Distinct identifiers lead to their blocks. -/
theorem txBlockMeta_of_nodup (hdistinct : ((chainTransactions chain).map Transaction.txID).Nodup)
    (hblock : block ∈ chain) (htx : tx ∈ block.transactions) :
    (txBlockMeta chain)[tx.txID]? = some (block.index, block.hash) := by
  rw [← placements_txIDs] at hdistinct
  rw [txBlockMeta_eq]
  refine lastUnder_own_iff.mpr (fun placed hplaced placed' hplaced' hid => ?_) (block, tx)
    (mem_placements.mpr ⟨hblock, htx⟩)
  rw [List.inj_on_of_nodup_map hdistinct hplaced hplaced' hid]

/-- The row names the block that contains its transaction. -/
structure WalletRow.NamesItsBlock (chain : List Block) (row : WalletRow) : Prop where
  confirmed : ∃ block ∈ chain, row.tx ∈ block.transactions
  named : ∀ block ∈ chain, row.tx ∈ block.transactions →
    row.blockHeight = some block.index ∧ row.blockHash = block.hash

theorem confirmedRow_tx {entries : ExtTreeMap String (UInt64 × String)} :
    (confirmedRow address entries tx).tx = tx := by
  unfold confirmedRow
  split <;> rfl

/-- The row of an identifier that the map knows names the block of the map. -/
theorem confirmedRow_of_found {entries : ExtTreeMap String (UInt64 × String)} {height : UInt64}
    {hash : String} (h : entries[tx.txID]? = some (height, hash)) :
    (confirmedRow address entries tx).blockHeight = some height ∧
      (confirmedRow address entries tx).blockHash = hash := by
  rw [confirmedRow, h]
  exact ⟨rfl, rfl⟩

/-- What is filed stands in the chain. -/
theorem mem_chain_of_history {bc : Blockchain} (h : LedgerMatches bc)
    (htx : tx ∈ bc.getTransactionsForAddress address) : tx ∈ chainTransactions bc.chain := by
  rw [getTransactionsForAddress, h, StateManager.history_rebuildState] at htx
  exact (mem_filed.mp htx).1

/-- With distinct identifiers every row names its block. -/
theorem namesItsBlock_of_nodup {bc : Blockchain} (h : LedgerMatches bc)
    (hdistinct : ((chainTransactions bc.chain).map Transaction.txID).Nodup)
    (htx : tx ∈ bc.getTransactionsForAddress address) :
    (confirmedRow address (txBlockMeta bc.chain) tx).NamesItsBlock bc.chain := by
  refine ⟨?_, fun block hblock hmem => ?_⟩
  · rw [confirmedRow_tx]
    exact List.mem_flatMap.mp (mem_chain_of_history h htx)
  · rw [confirmedRow_tx] at hmem
    exact confirmedRow_of_found (txBlockMeta_of_nodup hdistinct hblock hmem)

/-- What the handler answers when nothing moves. -/
theorem handleGetWalletTransactions_alone {bc : Blockchain} {response : WalletTransactions}
    (h : (handleGetWalletTransactions address).alone bc = .ok response) :
    response = listWallet address (bc.getTransactionsForAddress address) bc.mempool bc.chain := by
  unfold handleGetWalletTransactions at h
  split at h
  · cases h
  · exact (Except.ok.inj h).symm

/-- **When every row names its block.** On a node that only queues and mines,
all identifiers of the chain are distinct and every confirmed row of every
wallet names the block that contains its transaction, exactly when nobody mines
twice within one second. A reward is identified by its miner and the second; a
transfer by its sender and its nonce, which are never taken twice. -/
theorem rows_name_blocks_iff {cfg : NodeConfig} {now : TimePoint} {difficulty : UInt32}
    {start bc : Blockchain} {tr : List NodeEntry}
    (hstart : Starts cfg now difficulty none start) (hist : History cfg start tr bc)
    (hlocal : ∀ e ∈ tr, e.call.isLocal = true) (hinj : Function.Injective cfg.crypto.sha256)
    (hkeys : NoCoinbaseKey cfg.crypto) :
    (((chainTransactions bc.chain).map Transaction.txID).Nodup ∧
      ∀ address response, (handleGetWalletTransactions address).alone bc = .ok response →
        ∀ row ∈ response.confirmedTransactions, row.NamesItsBlock bc.chain) ↔
      (rewardSeconds tr).Nodup := by
  rw [← txIDs_nodup_iff hstart hist hlocal hinj hkeys]
  refine and_iff_left_of_imp fun hdistinct address response hresponse row hrow => ?_
  rw [handleGetWalletTransactions_alone hresponse] at hrow
  obtain ⟨tx, htx, rfl⟩ := List.mem_map.mp hrow
  exact namesItsBlock_of_nodup (ledgerMatches_history hstart hist) hdistinct htx

/-! ## Two blocks within a second -/

section Sample

/-- What the miner of the first block mines in the same second. -/
def twinBlock : Block where
  index := 2
  timestamp := "2026-03-14T12:00:00Z"
  previousHash := sampleBlock1.hash
  transactions := [sampleReward1]
  merkleRoot := sampleReward1.txID
  nonce := 0
  difficulty := 0
  hash := "6b2e4813c59b3b3c56763a415cc2122f4dbcb51f8e030d86518bcb22457fd8da"

def twinConfig : NodeConfig where
  crypto := .ofTable (sampleDigests ++ [(twinBlock.headerString, twinBlock.hash)])
    [(sampleTransfer.txID, sampleTransfer.digitalSignature, samplePublicKey)]
  consensusEngine := none

end Sample

/-- The rows of both rewards name the second block. -/
theorem rows_name_blocks_counterexample :
    ∃ tr bc response, Starts twinConfig (sampleTime 0) 0 none sampleStart ∧
      History twinConfig sampleStart tr bc ∧ (∀ e ∈ tr, e.call.isLocal = true) ∧
      bc.chain = [sampleGenesis, sampleBlock1, twinBlock] ∧
      sampleBlock1.transactions.map Transaction.txID = twinBlock.transactions.map Transaction.txID ∧
      (handleGetWalletTransactions sampleMiner).alone bc = .ok response ∧
      response.confirmedTransactions.map (fun row => (row.blockHeight, row.blockHash)) =
        [(some 2, twinBlock.hash), (some 2, twinBlock.hash)] := by
  obtain ⟨tr, bc, hist, hcheck⟩ := Run.exists_of_exec (step twinConfig)
    [⟨sampleTime 0, .minePendingTransactions sampleMiner⟩,
      ⟨sampleTime 0, .minePendingTransactions sampleMiner⟩] sampleStart
    -- two rewards of one second have one identifier
    (fun r => decide ((∀ e ∈ r.1, e.call.isLocal = true) ∧
      r.2.chain = [sampleGenesis, sampleBlock1, twinBlock] ∧
      (listWallet sampleMiner (r.2.getTransactionsForAddress sampleMiner) r.2.mempool
        r.2.chain).confirmedTransactions.map (fun row => (row.blockHeight, row.blockHash)) =
          [(some 2, twinBlock.hash), (some 2, twinBlock.hash)])) (by decide +kernel)
  obtain ⟨hlocal, hchain, hrows⟩ := of_decide_eq_true hcheck
  have hgenesis : Block.createGenesis twinConfig.crypto 0 = some sampleGenesis := by
    decide +kernel
  refine ⟨tr, bc, _, starts_freshNode hgenesis _, hist, hlocal, hchain, rfl, ?_, hrows⟩
  unfold handleGetWalletTransactions
  rw [if_neg (by decide)]
  rfl

/-- Twenty seconds between two blocks. -/
theorem rows_name_blocks_later :
    ∃ tr bc, History sampleConfig sampleStart tr bc ∧ bc.chain.length = 3 ∧
      ((chainTransactions bc.chain).map Transaction.txID).Nodup ∧
      ∀ address response, (handleGetWalletTransactions address).alone bc = .ok response →
        ∀ row ∈ response.confirmedTransactions, row.NamesItsBlock bc.chain := by
  obtain ⟨tr, bc, hist, hcheck⟩ := Run.exists_of_exec (step sampleConfig)
    [⟨sampleTime 0, .minePendingTransactions sampleMiner⟩,
      ⟨sampleTime 10, .addTransaction sampleTransfer⟩,
      ⟨sampleTime 20, .minePendingTransactions sampleMiner⟩] sampleStart
    (fun r => decide ((∀ e ∈ r.1, e.call.isLocal = true) ∧ r.2.chain.length = 3 ∧
      (rewardSeconds r.1).Nodup)) (by decide +kernel)
  obtain ⟨hlocal, hlength, hseconds⟩ := of_decide_eq_true hcheck
  have hinj : Function.Injective sampleConfig.crypto.sha256 :=
    Crypto.TableOk.injective ⟨by decide +kernel, by decide +kernel, by decide +kernel⟩
  -- the only key that has signed anything is the wallet's
  have hkeys : NoCoinbaseKey sampleConfig.crypto := by
    intro message signature publicKey hverified
    obtain ⟨-, -, rfl⟩ : message = sampleTransfer.txID ∧
        signature = sampleTransfer.digitalSignature ∧ publicKey = samplePublicKey := by
      simpa [sampleConfig, sampleCrypto, Crypto.ofTable] using hverified
    decide
  have hstart := starts_freshNode sampleGenesis_created (sampleTime 0)
  exact ⟨tr, bc, hist, hlength,
    (rows_name_blocks_iff hstart hist hlocal hinj hkeys).mpr hseconds⟩

end HttpServer

end PersonalBlockchain
