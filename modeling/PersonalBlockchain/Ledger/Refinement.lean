import PersonalBlockchain.Model.Steps

/-!
# Personal blockchain — the ledger state refines the chain

The five maps of the `StateManager` are kept in two ways: a mined or received
block is applied on top of them, an adopted chain is replayed from scratch.
Along every history of a node both give the maps a replay of the chain would
give, so what a node reports about an address or a transaction is a function
of its chain alone, however it came to hold that chain.

## Results

* `ledgerMatches_step`, `ledgerMatches_history` — the maps are a replay of the
  chain, kept by every call and so in every history;
* `ledger_refines_chain` — nodes with one chain answer every query alike.
-/

namespace PersonalBlockchain

open Machine Blockchain

/-- The maps are those a replay of the chain computes from empty: the refinement
relation between what a node keeps and what it is meant to keep. -/
def LedgerMatches (bc : Blockchain) : Prop :=
  bc.stateManager = StateManager.rebuildState {} bc.chain

/-- The maps are those of the confirmed transactions. -/
theorem LedgerMatches.eq_applyTransactions {bc : Blockchain} (h : LedgerMatches bc) :
    bc.stateManager = StateManager.applyTransactions {} (chainTransactions bc.chain) :=
  h.trans (StateManager.rebuildState_eq _ _)

/-- Applying one block more is replaying the chain with that block. -/
theorem rebuildState_extend {bc : Blockchain} (h : LedgerMatches bc) (block : Block) :
    bc.stateManager.applyBlockState block =
      StateManager.rebuildState {} (bc.chain ++ [block]) := by
  rw [StateManager.rebuildState_append_singleton {} {}, h]

theorem ledgerMatches_start {cfg : NodeConfig} {now : TimePoint} {difficulty : UInt32}
    {persisted : Option (List Block)} {bc : Blockchain}
    (h : Starts cfg now difficulty persisted bc) : LedgerMatches bc := by
  obtain ⟨-, -, ⟨-, -, hstate⟩ | ⟨-, genesis, -, hchain, hstate⟩⟩ := start_cases h
  · exact hstate
  · -- the genesis block is applied to empty maps
    rw [LedgerMatches, hchain, hstate]
    rfl

/-- **Step lemma.** Every completed call keeps the maps those of the chain. -/
theorem ledgerMatches_step {cfg : NodeConfig} {call : Call} {bc bc' : Blockchain} {r : Reply}
    (hI : LedgerMatches bc) (h : step cfg call bc = some (r, bc')) : LedgerMatches bc' := by
  cases step_cases h with
  | unchanged => exact hI
  | queued tx _ _ => exact hI
  -- one block on top
  | mined minerAddress block _ _ hm =>
    rw [LedgerMatches, hm.chain, hm.stateManager, rebuildState_extend hI]
  | received block _ _ => exact rebuildState_extend hI block
  -- everything from scratch
  | adopted newChain _ _ _ => rfl

theorem ledgerMatches_history {cfg : NodeConfig} {now : TimePoint} {difficulty : UInt32}
    {persisted : Option (List Block)} {start bc : Blockchain} {tr : List NodeEntry}
    (hstart : Starts cfg now difficulty persisted start) (hist : History cfg start tr bc) :
    LedgerMatches bc :=
  hist.invariant (ledgerMatches_start hstart) fun _ _ _ _ => ledgerMatches_step

/-- **The ledger state refines the chain.** After any history of any node the
maps are those of a replay of its chain; hence two nodes that hold the same
chain, whatever their engines, difficulties, storages and histories, answer
every ledger query alike. -/
theorem ledger_refines_chain {cfg : NodeConfig} {now : TimePoint} {difficulty : UInt32}
    {persisted : Option (List Block)} {start bc : Blockchain} {tr : List NodeEntry}
    (hstart : Starts cfg now difficulty persisted start) (hist : History cfg start tr bc) :
    bc.stateManager = StateManager.rebuildState {} bc.chain ∧
      ∀ {cfg' : NodeConfig} {now' : TimePoint} {difficulty' : UInt32}
        {persisted' : Option (List Block)} {start' bc' : Blockchain} {tr' : List NodeEntry},
        Starts cfg' now' difficulty' persisted' start' → History cfg' start' tr' bc' →
        bc'.chain = bc.chain →
        (∀ address, bc'.getBalanceForAddress address = bc.getBalanceForAddress address ∧
          bc'.getLastNonceForAddress address = bc.getLastNonceForAddress address ∧
          bc'.getTransactionsForAddress address = bc.getTransactionsForAddress address) ∧
        ∀ txID, bc'.stateManager.isDoubleSpend txID = bc.stateManager.isDoubleSpend txID := by
  have hmain : bc.stateManager = StateManager.rebuildState {} bc.chain :=
    ledgerMatches_history hstart hist
  refine ⟨hmain, ?_⟩
  intro cfg' now' difficulty' persisted' start' bc' tr' hstart' hist' hchain
  have hmain' : bc'.stateManager = StateManager.rebuildState {} bc'.chain :=
    ledgerMatches_history hstart' hist'
  have hstate : bc'.stateManager = bc.stateManager := by rw [hmain', hmain, hchain]
  simp only [getBalanceForAddress, getLastNonceForAddress, getTransactionsForAddress, hstate,
    and_self, implies_true]

/-! ## A sample ledger

Two blocks on top of a genesis block of difficulty 0: a reward, then a reward
and a signed transfer of 20. The digests and the signature are genuine. -/

section Sample

/-- Public key and address of the miner who later pays. -/
def samplePublicKey : String :=
  "0283ac543391b5a6291c6cb9302646ade2f65007f542e3cf5ea59f2ab68d3f6bc3"
def sampleMiner : String := "PCN_477c4678d92c658f214f630afbe3e72dfb5b2519"
def samplePayee : String := "PCN_8e31399011e85bf1bfb51353e09d83f3bebc595e"

/-- For the literals among the seconds of the samples. -/
instance neZero_thousand : NeZero 1000 := ⟨by decide⟩

/-- `k` seconds after 2026-03-14 12:00:00. -/
def sampleTime (k : Fin 1000) : TimePoint := .ofSeconds (1773489600 + k) (by omega)

/-- The reward in the genesis block. -/
def sampleGenesisReward : Transaction where
  txID := "d59e373de150c234bc399ddf0cb27f3b516637ce346d1137b27a2d5590488a1a"
  senderPublicKey := "COINBASE"
  fromAddress := "COINBASE"
  toAddress := "GENESIS"
  amount := 50
  payload := "Genesis Block"
  timestamp := "2026-01-01T00:00:00Z"

/-- The genesis block of difficulty 0. -/
def sampleGenesis : Block where
  index := 0
  timestamp := "2026-01-01T00:00:00Z"
  previousHash := "0000000000000000000000000000000000000000000000000000000000000000"
  transactions := [sampleGenesisReward]
  merkleRoot := "d59e373de150c234bc399ddf0cb27f3b516637ce346d1137b27a2d5590488a1a"
  nonce := 0
  difficulty := 0
  hash := "60a5dfce87208006f85d04931eb98b6e3a61eb839be65fc5da694f498336755b"

/-- A reward of the miner, by its identifier and its time. -/
def sampleReward (id timestamp : String) : Transaction where
  txID := id
  senderPublicKey := "COINBASE"
  fromAddress := "COINBASE"
  toAddress := sampleMiner
  amount := 50
  payload := "Mining Reward"
  timestamp := timestamp

def sampleReward1 : Transaction :=
  sampleReward "b53fdd7c124eb7025d8de15f5e6692a501376a8badf87324c3b8ca19c9aab315"
    "2026-03-14T12:00:00Z"
def sampleReward2 : Transaction :=
  sampleReward "53d8d3a1bbcf3265051cb6263c3c7713638700c3462d903e9304cb6c756df8d5"
    "2026-03-14T12:00:20Z"

/-- The signed payment of 20. -/
def sampleTransfer : Transaction where
  txID := "955e1cc1101f15fe9f2356faf4906ecd73e48fbe302c6d122b209083dfb6a737"
  senderPublicKey := samplePublicKey
  fromAddress := sampleMiner
  toAddress := samplePayee
  amount := 20
  nonce := 1
  payload := "rent"
  timestamp := "2026-03-14T12:00:10Z"
  digitalSignature := "30450221009aaf5efcec80579682205fc288abbef0f676acdba87394256b4e0995b48d9" ++
    "bcc0220651fed3bd5deb5e39930dc09ef942f698e7f361c0c99f0c70b8d2202c185b8f3"

/-- The block with the first reward. -/
def sampleBlock1 : Block where
  index := 1
  timestamp := "2026-03-14T12:00:00Z"
  previousHash := "60a5dfce87208006f85d04931eb98b6e3a61eb839be65fc5da694f498336755b"
  transactions := [sampleReward1]
  merkleRoot := "b53fdd7c124eb7025d8de15f5e6692a501376a8badf87324c3b8ca19c9aab315"
  nonce := 0
  difficulty := 0
  hash := "aa41f63e19763e66233971133abc4d43ac4107848805316a2d4675430ac4914a"

/-- The block with the second reward and the payment. -/
def sampleBlock2 : Block where
  index := 2
  timestamp := "2026-03-14T12:00:20Z"
  previousHash := "aa41f63e19763e66233971133abc4d43ac4107848805316a2d4675430ac4914a"
  transactions := [sampleReward2, sampleTransfer]
  merkleRoot := "67ef0cce1b2699344fd2e24bb43a4d07b6a12e4b591ab2e4941157e8705b0146"
  nonce := 0
  difficulty := 0
  hash := "adcf60536cbddc0fbad00b2cfd948429e9614c9c1ddfb69a7e9bafb3b1154c4d"

/-- The digests of the strings hashed while the sample ledger is built and
checked. -/
def sampleDigests : List (String × String) :=
  [(buildTxCore sampleGenesisReward, sampleGenesisReward.txID),
    (sampleGenesis.headerString, sampleGenesis.hash),
    (samplePublicKey, "477c4678d92c658f214f630afbe3e72dfb5b2519ca7c27654de156b4aa690670"),
    (buildTxCore sampleReward1, sampleReward1.txID),
    (sampleBlock1.headerString, sampleBlock1.hash),
    (buildTxCore sampleTransfer, sampleTransfer.txID),
    (buildTxCore sampleReward2, sampleReward2.txID),
    (sampleReward2.txID ++ sampleTransfer.txID, sampleBlock2.merkleRoot),
    (sampleBlock2.headerString, sampleBlock2.hash)]

/-- The digests of the sample, and the one signature that there is. -/
def sampleCrypto : Crypto :=
  .ofTable sampleDigests
    [(sampleTransfer.txID, sampleTransfer.digitalSignature, samplePublicKey)]

/-- A node without a consensus engine. -/
def sampleConfig : NodeConfig := ⟨sampleCrypto, none⟩

/-- A node that has just mined its genesis block. -/
def freshNode (difficulty : UInt32) (genesis : Block) : Blockchain where
  difficulty := difficulty
  chain := [genesis]
  chain_ne := singleton_ne genesis
  mempool := []
  stateManager := StateManager.applyBlockState {} genesis
  chainUpdateVersion := 1

/-- A node without a storage starts so when its genesis block can be mined. -/
theorem starts_freshNode {cfg : NodeConfig} {difficulty : UInt32} {genesis : Block}
    (h : Block.createGenesis cfg.crypto difficulty = some genesis) (now : TimePoint) :
    Starts cfg now difficulty none (freshNode difficulty genesis) := by
  have hempty : ¬ validateChainAgainstConsensus cfg now (Option.getD none []) = true :=
    fun hv => ne_nil_of_validate hv rfl
  rw [Starts, Blockchain.create, dif_neg hempty, h]
  rfl

/-- The sample genesis block is the one the node mines. -/
theorem sampleGenesis_created :
    Block.createGenesis sampleConfig.crypto 0 = some sampleGenesis := by
  decide +kernel

/-- The node the sample ledger grows on. -/
def sampleStart : Blockchain := freshNode 0 sampleGenesis

end Sample

/-- One node mines the first block and receives the second, another adopts the
chain of both: they agree about the payee. -/
theorem ledger_refines_chain_sample :
    ∃ (tr tr' : List NodeEntry) (bc bc' : Blockchain),
      tr.length = 2 ∧ tr'.length = 1 ∧
      bc.chain = [sampleGenesis, sampleBlock1, sampleBlock2] ∧
      bc.stateManager = StateManager.rebuildState {} bc.chain ∧
      bc'.getBalanceForAddress samplePayee = bc.getBalanceForAddress samplePayee := by
  have hstart := starts_freshNode sampleGenesis_created (sampleTime 0)
  obtain ⟨tr, bc, hist, hcheck⟩ := Run.exists_of_exec (step sampleConfig)
    [⟨sampleTime 0, .minePendingTransactions sampleMiner⟩,
      ⟨sampleTime 20, .acceptBlock sampleBlock2⟩] sampleStart
    (fun r => r.1.length = 2 &&
      r.2.chain = [sampleGenesis, sampleBlock1, sampleBlock2]) (by decide +kernel)
  -- the same chain again, adopted as a whole by a fresh node
  obtain ⟨tr', bc', hist', hcheck'⟩ := Run.exists_of_exec (step sampleConfig)
    [⟨sampleTime 30, .replaceChain [sampleGenesis, sampleBlock1, sampleBlock2]⟩] sampleStart
    (fun r => r.1.length = 1 &&
      r.2.chain = [sampleGenesis, sampleBlock1, sampleBlock2]) (by decide +kernel)
  simp only [Bool.and_eq_true, decide_eq_true_eq] at hcheck hcheck'
  obtain ⟨hstate, hagree⟩ := ledger_refines_chain hstart hist
  exact ⟨tr, tr', bc, bc', hcheck.1, hcheck'.1, hcheck.2, hstate,
    ((hagree hstart hist' (hcheck'.2.trans hcheck.2.symm)).1 samplePayee).1⟩

end PersonalBlockchain
