import PersonalBlockchain.Lib.AdjacentPairs
import PersonalBlockchain.Lib.Machine
import PersonalBlockchain.Model.Consensus
import PersonalBlockchain.Model.StateManager

/-!
# Personal blockchain — the node's ledger

`class Blockchain`: chain validation, the constructor and the five operations
that change the ledger. Each operation runs under the node's mutex, so it is
one step here and reads the clock once. The calls an operation makes to its
collaborators (storage, callbacks) are returned as a list of `Effect`s; a null
storage or an empty `std::function` drops them.

`step` makes one machine of the five operations; its runs (`Machine.Run`) from
a constructed node are the histories of a node.
-/

namespace PersonalBlockchain

open AdjacentPairs

/-- What a `Blockchain` is constructed with and never changes. -/
structure NodeConfig where
  crypto : Crypto
  /-- `nullptr` falls back to plain proof of work without retargeting -/
  consensusEngine : Option ConsensusEngine

/-- The members of a `Blockchain`. The chain starts with a genesis block and is
never emptied. -/
structure Blockchain where
  difficulty : UInt32
  chain : List Block
  chain_ne : chain ≠ []
  mempool : List Transaction
  stateManager : StateManager
  chainUpdateVersion : UInt64

theorem singleton_ne (genesis : Block) : [genesis] ≠ [] := List.cons_ne_nil _ _

theorem Blockchain.append_ne (bc : Blockchain) (block : Block) : bc.chain ++ [block] ≠ [] :=
  List.append_ne_nil_of_right_ne_nil _ (singleton_ne block)

/-- A call to an optional collaborator: the storage, and the functions
registered for new blocks and transactions. -/
inductive Effect
  | saveChain (chain : List Block)
  | appendBlock (block : Block)
  | onBlockAdded (block : Block)
  | onBlockAccepted (block : Block)
  | onTransactionAdded (tx : Transaction)

/-- What an operation returns, the calls it makes and the node it leaves. -/
structure Outcome (α : Type) where
  ret : α
  effects : List Effect
  node : Blockchain

/-- `kBlockReward`, the amount a mined block pays to its miner. -/
def kBlockReward : UInt64 := 50

/-- `MAX_TXS_PER_BLOCK`, for the pending transactions; the reward comes on top. -/
def maxTxsPerBlock : Nat := 100

/-! ## Chain validation -/

/-- The body of the loop of `isChainValid(chain)`: block `i` and the block
before it. -/
def checkBlock (C : Crypto) (i : Nat) (previous current : Block) : Bool :=
  if current.index ≠ UInt64.ofNat i then false
  else if current.hash ≠ current.calculateHash C then false
  else if current.previousHash ≠ previous.hash then false
  else if current.merkleRoot ≠ computeMerkleRoot C current.transactions then false
  -- the target of the difficulty the block itself carries
  else if !current.meetsTarget then false
  -- coinbases pass; nothing counts them or looks at their amount
  else if !current.hasValidTransactions C then false
  else true

/-- `isChainValid(chain)`, the static check of an external chain. -/
def isChainValid (C : Crypto) : List Block → Bool
  | [] => false
  | genesis :: rest =>
    -- the genesis block: neither its target nor its transactions are checked
    if genesis.previousHash ≠ Block.zeroHash then false
    else if genesis.hash ≠ genesis.calculateHash C then false
    else if genesis.merkleRoot ≠ computeMerkleRoot C genesis.transactions then false
    else allPairs (checkBlock C) 1 genesis rest

/-- The loop of `validateChainAgainstConsensus` over the engine's check, which
starts at the block after the genesis. -/
def engineAccepts (C : Crypto) (now : TimePoint) (engine : ConsensusEngine) : List Block → Bool
  | [] => true
  | genesis :: rest =>
    allPairs (fun _ previous current => engine.validateBlock C now current previous) 1 genesis rest

/-- `validateChainAgainstConsensus`: the static check, and then the engine's, if
there is one. -/
def validateChainAgainstConsensus (cfg : NodeConfig) (now : TimePoint) (chain : List Block) :
    Bool :=
  if !isChainValid cfg.crypto chain then false
  else
    match cfg.consensusEngine with
    | none => true
    | some engine => engineAccepts cfg.crypto now engine chain

theorem ne_nil_of_validate {cfg : NodeConfig} {now : TimePoint} {chain : List Block}
    (h : validateChainAgainstConsensus cfg now chain = true) : chain ≠ [] := by
  rintro rfl
  simp [validateChainAgainstConsensus, isChainValid] at h

namespace Blockchain

/-- `chain_.back()`, which is always there. -/
def tip (bc : Blockchain) : Block := bc.chain.getLast bc.chain_ne

/-! ## Construction -/

/-- The constructor. `persisted` is what `loadChain` returns when there is a
storage with a persisted chain; `none` when there is not. The result is `none`
when the genesis block cannot be mined. -/
def create (cfg : NodeConfig) (now : TimePoint) (difficulty : UInt32)
    (persisted : Option (List Block)) : Option (Outcome Unit) :=
  if h : validateChainAgainstConsensus cfg now (persisted.getD []) = true then
    some {
      ret := ()
      effects := []
      node := {
        difficulty := difficulty
        chain := persisted.getD []
        chain_ne := ne_nil_of_validate h
        mempool := []
        stateManager := StateManager.rebuildState {} (persisted.getD [])
        chainUpdateVersion := 1 } }
  else
    match Block.createGenesis cfg.crypto difficulty with
    | none => none
    | some genesis => some {
        ret := ()
        effects := [.saveChain [genesis]]
        node := {
          difficulty := difficulty
          chain := [genesis]
          chain_ne := singleton_ne genesis
          mempool := []
          stateManager := StateManager.applyBlockState {} genesis
          chainUpdateVersion := 1 } }

/-! ## `addTransaction` -/

/-- `isInMempool`, by identifier. -/
def isInMempool (bc : Blockchain) (txID : String) : Bool :=
  bc.mempool.any fun tx => tx.txID = txID

/-- The amounts pending from `address`, added up in `uint64_t`. -/
def pendingOutgoing (bc : Blockchain) (address : String) : UInt64 :=
  bc.mempool.foldl (fun sum pending =>
    if pending.fromAddress = address then sum + pending.amount else sum) 0

/-- The amounts pending to `address`, added up in `uint64_t`. -/
def pendingIncoming (bc : Blockchain) (address : String) : UInt64 :=
  bc.mempool.foldl (fun sum pending =>
    if pending.toAddress = address then sum + pending.amount else sum) 0

/-- `highestSeenNonce`: the highest nonce of the sender among the last confirmed
one and the pending ones. -/
def highestSeenNonce (bc : Blockchain) (address : String) : UInt64 :=
  bc.mempool.foldl (fun highest pending =>
    if pending.fromAddress = address then max highest pending.nonce else highest)
    (bc.stateManager.getLastNonce address)

/-- A rejected call changes nothing and calls nobody. -/
def rejected (bc : Blockchain) : Outcome Bool := ⟨false, [], bc⟩

/-- `addTransaction`: the checks in the order of the source; what passes them
all is pending from then on. -/
def addTransaction (cfg : NodeConfig) (now : TimePoint) (tx : Transaction) (bc : Blockchain) :
    Outcome Bool :=
  -- 1. coinbase transactions cannot be submitted externally
  if tx.isCoinbase then bc.rejected
  -- 2. signature
  else if !tx.verify cfg.crypto then bc.rejected
  -- 2.5 amount, sender address mapping (the new form only) and balance
  else if tx.amount = 0 then bc.rejected
  else if tx.fromAddress ≠ "PCN_" ++ substr0 (cfg.crypto.sha256 tx.senderPublicKey) 40 then
    bc.rejected
  else
    -- sums of `uint64_t`, which wrap
    let availableBalance :=
      bc.stateManager.getBalance tx.fromAddress + bc.pendingIncoming tx.fromAddress
    if availableBalance < bc.pendingOutgoing tx.fromAddress ∨
        availableBalance - bc.pendingOutgoing tx.fromAddress < tx.amount then bc.rejected
    else if tx.nonce ≠ bc.highestSeenNonce tx.fromAddress + 1 then bc.rejected
    -- 3. replay window, 4. double spend, 5. already pending
    else if tx.isExpired now 300 then bc.rejected
    else if bc.stateManager.isDoubleSpend tx.txID then bc.rejected
    else if bc.isInMempool tx.txID then bc.rejected
    else {
      ret := true
      effects := [.onTransactionAdded tx]
      node := { bc with
        mempool := bc.mempool ++ [tx]
        chainUpdateVersion := bc.chainUpdateVersion + 1 } }

/-! ## `minePendingTransactions` -/

/-- The reward transaction of a new block, stamped with the time of the call. -/
def coinbaseFor (C : Crypto) (now : TimePoint) (minerAddress : String) : Transaction :=
  Transaction.computeTxID C {
    senderPublicKey := "COINBASE"
    receiverPublicKey := ""
    fromAddress := "COINBASE"
    toAddress := minerAddress
    amount := kBlockReward
    payload := "Mining Reward"
    timestamp := currentTimestamp now }

/-- The retargeted difficulty of the next block, from the chain and the current
difficulty of the node. -/
def blockDifficulty (cfg : NodeConfig) (bc : Blockchain) : UInt32 :=
  match cfg.consensusEngine with
  | some engine => engine.nextDifficulty bc.chain bc.difficulty
  | none => bc.difficulty

/-- The block `minePendingTransactions` seals: the reward, then up to 100
pending transactions. -/
def candidateBlock (cfg : NodeConfig) (now : TimePoint) (minerAddress : String)
    (bc : Blockchain) : Block :=
  Block.ofTransactions cfg.crypto now (UInt64.ofNat bc.chain.length) bc.tip.hash
    (coinbaseFor cfg.crypto now minerAddress ::
      bc.mempool.take (min bc.mempool.length maxTxsPerBlock))
    (bc.blockDifficulty cfg)

/-- Seal a block with the engine, or mine it when there is none. `none` is a
search that never ends. -/
def sealBlock (cfg : NodeConfig) (block : Block) : Option Block :=
  match cfg.consensusEngine with
  | some engine => engine.sealBlock cfg.crypto block
  | none => block.mineBlock cfg.crypto

/-- `minePendingTransactions`: a block of the reward and the first pending
transactions goes on top of the chain. `none` when the search for a nonce never
ends. -/
def minePendingTransactions (cfg : NodeConfig) (now : TimePoint) (minerAddress : String)
    (bc : Blockchain) : Option (Outcome Block) :=
  match sealBlock cfg (bc.candidateBlock cfg now minerAddress) with
  | none => none
  | some newBlock =>
    -- the block is appended without a validation
    let txCount := min bc.mempool.length maxTxsPerBlock
    some {
      ret := newBlock
      effects := [.appendBlock newBlock, .onBlockAdded newBlock, .onBlockAccepted newBlock]
      node := {
        difficulty := bc.blockDifficulty cfg
        chain := bc.chain ++ [newBlock]
        chain_ne := bc.append_ne newBlock
        mempool := if txCount ≥ bc.mempool.length then [] else bc.mempool.drop txCount
        stateManager := bc.stateManager.applyBlockState newBlock
        chainUpdateVersion := bc.chainUpdateVersion + 1 } }

/-! ## `acceptBlock`, `replaceChain` and `chainFromJson` -/

/-- `acceptBlock`: a block that links to the tip is appended when the whole
longer chain is valid. The source's guard against an empty chain is `chain_ne`. -/
def acceptBlock (cfg : NodeConfig) (now : TimePoint) (block : Block) (bc : Blockchain) :
    Outcome Bool :=
  if block.index ≠ UInt64.ofNat bc.chain.length ∨ block.previousHash ≠ bc.tip.hash then
    bc.rejected
  else if !validateChainAgainstConsensus cfg now (bc.chain ++ [block]) then bc.rejected
  else {
    ret := true
    effects := [.appendBlock block, .onBlockAccepted block]
    node := { bc with
      chain := bc.chain ++ [block]
      chain_ne := bc.append_ne block
      -- coinbases of the block count as confirmed here too
      mempool := bc.mempool.filter fun pending =>
        !block.transactions.any fun confirmed => confirmed.txID = pending.txID
      stateManager := bc.stateManager.applyBlockState block
      chainUpdateVersion := bc.chainUpdateVersion + 1 } }

/-- The chain selection rule: the engine's, or the longer chain. -/
def prefersChain (cfg : NodeConfig) (bc : Blockchain) (newChain : List Block) : Bool :=
  match cfg.consensusEngine with
  | some engine => engine.shouldAcceptChain bc.chain newChain
  | none => !(newChain.length ≤ bc.chain.length : Bool)

/-- `replaceChain`: a longer and valid chain takes the place of the node's own,
whatever the two have in common. -/
def replaceChain (cfg : NodeConfig) (now : TimePoint) (newChain : List Block)
    (bc : Blockchain) : Outcome Bool :=
  if !bc.prefersChain cfg newChain then bc.rejected
  else if h : validateChainAgainstConsensus cfg now newChain = true then
    let stateManager := bc.stateManager.rebuildState newChain
    { ret := true
      effects := [.saveChain newChain,
        .onBlockAccepted (newChain.getLast (ne_nil_of_validate h))]
      node := { bc with
        chain := newChain
        chain_ne := ne_nil_of_validate h
        -- nothing of the old chain comes back
        mempool := bc.mempool.filter fun tx => !stateManager.spentTxIDs.contains tx.txID
        stateManager := stateManager
        chainUpdateVersion := bc.chainUpdateVersion + 1 } }
  else bc.rejected

/-- `chainFromJson`: every block is decoded before the chain is offered to
`replaceChain`. -/
def chainFromJson (cfg : NodeConfig) (now : TimePoint) (j : Json) (bc : Blockchain) :
    Outcome (Except JsonError Unit) :=
  match j.iterate.mapM (Block.fromJson cfg.crypto) with
  | .error e => ⟨.error e, [], bc⟩
  | .ok newChain =>
    -- the answer of `replaceChain` is ignored
    let outcome := bc.replaceChain cfg now newChain
    ⟨.ok (), outcome.effects, outcome.node⟩

/-! ## Queries -/

/-- `getBalanceForAddress`, of the confirmed transactions. -/
def getBalanceForAddress (bc : Blockchain) (address : String) : UInt64 :=
  bc.stateManager.getBalance address

/-- `getLastNonceForAddress`, of the confirmed transactions. -/
def getLastNonceForAddress (bc : Blockchain) (address : String) : UInt64 :=
  bc.stateManager.getLastNonce address

/-- `getTransactionsForAddress`, in the order they were confirmed. -/
def getTransactionsForAddress (bc : Blockchain) (address : String) : List Transaction :=
  bc.stateManager.getTransactionsForAddress address

/-- `isChainValid()`: the node's own chain, checked as a foreign one is. -/
def isChainValid (cfg : NodeConfig) (now : TimePoint) (bc : Blockchain) : Bool :=
  validateChainAgainstConsensus cfg now bc.chain

end Blockchain

/-! ## Histories of a node -/

/-- The operations that change the ledger. Everything else a node does only
reads it. -/
inductive Op
  | addTransaction (tx : Transaction)
  | minePendingTransactions (minerAddress : String)
  | acceptBlock (block : Block)
  | replaceChain (newChain : List Block)
  | chainFromJson (j : Json)

/-- An operation and the clock reading it runs at. -/
structure Call where
  now : TimePoint
  op : Op

/-- What a call answers. -/
inductive Answer
  | bool (accepted : Bool)
  | block (mined : Block)
  | imported (result : Except JsonError Unit)

/-- The answer of a call and the calls it made to its collaborators. -/
structure Reply where
  answer : Answer
  effects : List Effect

/-- The reply and the node of an outcome. -/
def Outcome.reply {α : Type} (out : Outcome α) (answer : α → Answer) : Reply × Blockchain :=
  (⟨answer out.ret, out.effects⟩, out.node)

/-- One completed call; `none` when the call never ends. -/
def step (cfg : NodeConfig) (call : Call) (bc : Blockchain) : Option (Reply × Blockchain) :=
  match call.op with
  | .addTransaction tx => some ((bc.addTransaction cfg call.now tx).reply .bool)
  | .minePendingTransactions minerAddress =>
    (bc.minePendingTransactions cfg call.now minerAddress).map fun out => out.reply .block
  | .acceptBlock block => some ((bc.acceptBlock cfg call.now block).reply .bool)
  | .replaceChain newChain => some ((bc.replaceChain cfg call.now newChain).reply .bool)
  | .chainFromJson j => some ((bc.chainFromJson cfg call.now j).reply .imported)

/-- One completed call of a node, with the node before and after it. -/
abbrev NodeEntry := Machine.Entry Blockchain Call Reply

/-- The node a constructor call leaves. -/
def Starts (cfg : NodeConfig) (now : TimePoint) (difficulty : UInt32)
    (persisted : Option (List Block)) (bc : Blockchain) : Prop :=
  (Blockchain.create cfg now difficulty persisted).map Outcome.node = some bc

/-- The histories of a node: the calls it completed since `start`, and the node
they leave. -/
abbrev History (cfg : NodeConfig) (start : Blockchain) : List NodeEntry → Blockchain → Prop :=
  Machine.Run (step cfg) start

end PersonalBlockchain
