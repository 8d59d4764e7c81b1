import PersonalBlockchain.Model.Blockchain

/-!
# Personal blockchain — what each operation can do

One inversion lemma for each operation: the conditions under which it changes
the node, and the node it leaves. Everything proved about histories goes
through these lemmas; the operations are not unfolded again.

* `addTransaction_cases`, `mine_spec`, `acceptBlock_cases`,
  `replaceChain_cases`, `chainFromJson_cases` — the operations;
* `step_cases` — one completed call, by what it did to the ledger;
* `start_cases` — the constructor.
-/

namespace PersonalBlockchain

namespace Blockchain

variable {cfg : NodeConfig} {now : TimePoint} {bc : Blockchain}

/-! ## `addTransaction` -/

/-- The conditions under which `addTransaction` queues a transaction, in the
order of its checks. -/
structure Admitted (cfg : NodeConfig) (now : TimePoint) (tx : Transaction) (bc : Blockchain) :
    Prop where
  notCoinbase : tx.isCoinbase = false
  verified : tx.verify cfg.crypto = true
  amount_ne : tx.amount ≠ 0
  from_eq : tx.fromAddress = deriveAddressV2 cfg.crypto tx.senderPublicKey
  covered : bc.pendingOutgoing tx.fromAddress ≤
    bc.stateManager.getBalance tx.fromAddress + bc.pendingIncoming tx.fromAddress
  funded : tx.amount ≤ bc.stateManager.getBalance tx.fromAddress +
    bc.pendingIncoming tx.fromAddress - bc.pendingOutgoing tx.fromAddress
  nonce_eq : tx.nonce = bc.highestSeenNonce tx.fromAddress + 1
  recent : tx.isExpired now 300 = false
  unspent : bc.stateManager.isDoubleSpend tx.txID = false
  notPending : bc.isInMempool tx.txID = false

/-- The node with one more pending transaction. -/
def enqueue (tx : Transaction) (bc : Blockchain) : Blockchain :=
  { bc with
    mempool := bc.mempool ++ [tx]
    chainUpdateVersion := bc.chainUpdateVersion + 1 }

/-- `addTransaction` refuses, or its conditions hold and the transaction is
pending. -/
theorem addTransaction_cases (cfg : NodeConfig) (now : TimePoint) (tx : Transaction)
    (bc : Blockchain) :
    bc.addTransaction cfg now tx = bc.rejected ∨
      Admitted cfg now tx bc ∧
        bc.addTransaction cfg now tx = ⟨true, [.onTransactionAdded tx], bc.enqueue tx⟩ := by
  unfold addTransaction
  dsimp only
  split_ifs with hcb hverify hamount hfrom hbalance hnonce hexpired hspent hpending
  -- the nine rejections, in the order of the source
  iterate 9 exact Or.inl rfl
  refine Or.inr ⟨?_, rfl⟩
  simp only [not_or, UInt64.not_lt] at hbalance
  exact {
    notCoinbase := by simpa using hcb
    verified := by simpa using hverify
    amount_ne := hamount
    from_eq := not_not.mp hfrom
    covered := hbalance.1
    funded := hbalance.2
    nonce_eq := not_not.mp hnonce
    recent := by simpa using hexpired
    unspent := by simpa using hspent
    notPending := by simpa using hpending }

/-! ## `minePendingTransactions` -/

/-- What a completed `minePendingTransactions` leaves: the sealed block on top
of the chain, its transactions gone from the mempool and applied to the state. -/
structure Mined (cfg : NodeConfig) (now : TimePoint) (minerAddress : String) (bc : Blockchain)
    (block : Block) (bc' : Blockchain) : Prop where
  sealed : sealBlock cfg (bc.candidateBlock cfg now minerAddress) = some block
  transactions : block.transactions =
    coinbaseFor cfg.crypto now minerAddress :: bc.mempool.take maxTxsPerBlock
  difficulty : bc'.difficulty = bc.blockDifficulty cfg
  chain : bc'.chain = bc.chain ++ [block]
  mempool : bc'.mempool = bc.mempool.drop maxTxsPerBlock
  stateManager : bc'.stateManager = bc.stateManager.applyBlockState block
  version : bc'.chainUpdateVersion = bc.chainUpdateVersion + 1

/-- Sealing keeps the contents of a block. -/
theorem sealBlock_spec {b b' : Block} (h : sealBlock cfg b = some b') :
    b'.transactions = b.transactions ∧ b'.index = b.index ∧ b'.previousHash = b.previousHash ∧
      b'.timestamp = b.timestamp ∧ b'.difficulty = b.difficulty := by
  unfold sealBlock at h
  -- with and without an engine it is `mineBlock` in the end
  split at h
  · exact ConsensusEngine.sealBlock_spec h
  · have hm := Block.mineBlock_spec h
    exact ⟨hm.transactions, hm.index, hm.previousHash, hm.timestamp, hm.difficulty⟩

/-- The mempool is left without its first 100 transactions. -/
theorem mempool_after (mempool : List Transaction) (n : Nat) :
    (if min mempool.length n ≥ mempool.length then []
      else mempool.drop (min mempool.length n)) = mempool.drop n := by
  split_ifs with h
  · -- all of it was taken
    have hshort : mempool.length ≤ n := by omega
    exact (List.drop_eq_nil_of_le hshort).symm
  · have hlong : n ≤ mempool.length := by omega
    rw [Nat.min_eq_right hlong]

/-- A call that returns has mined a block, and tells the storage and both
listeners. -/
theorem mine_spec {minerAddress : String} {out : Outcome Block}
    (h : bc.minePendingTransactions cfg now minerAddress = some out) :
    Mined cfg now minerAddress bc out.ret out.node ∧
      out.effects = [.appendBlock out.ret, .onBlockAdded out.ret, .onBlockAccepted out.ret] := by
  unfold minePendingTransactions at h
  split at h
  · -- no nonce was found, and the call did not end
    cases h
  · rename_i newBlock hsealed
    cases h
    have htxs : newBlock.transactions = coinbaseFor cfg.crypto now minerAddress ::
        bc.mempool.take maxTxsPerBlock := by
      rw [(sealBlock_spec hsealed).1, List.take_eq_take_min, Nat.min_comm]
      rfl
    exact ⟨⟨hsealed, htxs, rfl, rfl, mempool_after _ _, rfl, rfl⟩, rfl⟩

/-! ## `acceptBlock` -/

/-- The conditions under which `acceptBlock` appends a block. -/
structure Accepts (cfg : NodeConfig) (now : TimePoint) (block : Block) (bc : Blockchain) :
    Prop where
  index : block.index = UInt64.ofNat bc.chain.length
  previousHash : block.previousHash = bc.tip.hash
  valid : validateChainAgainstConsensus cfg now (bc.chain ++ [block]) = true

/-- The node after a block from the network: its transactions are applied, and
pending ones with an identifier that occurs in it are gone. -/
def receive (block : Block) (bc : Blockchain) : Blockchain :=
  { bc with
    chain := bc.chain ++ [block]
    chain_ne := bc.append_ne block
    mempool := bc.mempool.filter fun pending =>
      !block.transactions.any fun confirmed => confirmed.txID = pending.txID
    stateManager := bc.stateManager.applyBlockState block
    chainUpdateVersion := bc.chainUpdateVersion + 1 }

/-- Under its conditions the block is received, and told to the storage and the
listener. -/
theorem acceptBlock_of {block : Block} (h : Accepts cfg now block bc) :
    bc.acceptBlock cfg now block =
      ⟨true, [.appendBlock block, .onBlockAccepted block], bc.receive block⟩ := by
  have hlinked : ¬ (block.index ≠ UInt64.ofNat bc.chain.length ∨
      block.previousHash ≠ bc.tip.hash) := by simp [h.index, h.previousHash]
  unfold acceptBlock
  rw [if_neg hlinked, if_neg (by simp [h.valid])]
  rfl

theorem acceptBlock_cases (cfg : NodeConfig) (now : TimePoint) (block : Block)
    (bc : Blockchain) :
    bc.acceptBlock cfg now block = bc.rejected ∨ Accepts cfg now block bc := by
  -- in the order of the checks: first the link, then the longer chain
  by_cases hlink : block.index ≠ UInt64.ofNat bc.chain.length ∨ block.previousHash ≠ bc.tip.hash
  · left
    unfold acceptBlock
    rw [if_pos hlink]
  · by_cases hvalid : validateChainAgainstConsensus cfg now (bc.chain ++ [block]) = true
    · right
      simp only [not_or, not_not] at hlink
      exact ⟨hlink.1, hlink.2, hvalid⟩
    · left
      unfold acceptBlock
      rw [if_neg hlink, if_pos (by simpa using hvalid)]

/-- `acceptBlock` answers true exactly under its conditions. -/
theorem acceptBlock_ret {block : Block} :
    (bc.acceptBlock cfg now block).ret = true ↔ Accepts cfg now block bc := by
  refine ⟨fun h => ?_, fun h => by rw [acceptBlock_of h]⟩
  rcases acceptBlock_cases cfg now block bc with hrej | hacc
  · rw [hrej] at h
    cases h
  · exact hacc

/-! ## `replaceChain` and `chainFromJson` -/

/-- The conditions under which `replaceChain` adopts a chain. -/
structure Adopts (cfg : NodeConfig) (now : TimePoint) (newChain : List Block)
    (bc : Blockchain) : Prop where
  preferred : bc.prefersChain cfg newChain = true
  valid : validateChainAgainstConsensus cfg now newChain = true

/-- The node after a chain from the network: the chain is the new one, the state
is rebuilt from it, and pending transactions that it has spent are gone. -/
def adopt (newChain : List Block) (hne : newChain ≠ []) (bc : Blockchain) : Blockchain :=
  { bc with
    chain := newChain
    chain_ne := hne
    mempool := bc.mempool.filter fun tx =>
      !(bc.stateManager.rebuildState newChain).spentTxIDs.contains tx.txID
    stateManager := bc.stateManager.rebuildState newChain
    chainUpdateVersion := bc.chainUpdateVersion + 1 }

/-- Under its conditions the chain is adopted, and told to the storage and the
listener. -/
theorem replaceChain_of {newChain : List Block} (h : Adopts cfg now newChain bc) :
    bc.replaceChain cfg now newChain =
      ⟨true,
        [.saveChain newChain, .onBlockAccepted (newChain.getLast (ne_nil_of_validate h.valid))],
        bc.adopt newChain (ne_nil_of_validate h.valid)⟩ := by
  unfold replaceChain
  rw [if_neg (by simp [h.preferred]), dif_pos h.valid]
  rfl

theorem replaceChain_cases (cfg : NodeConfig) (now : TimePoint) (newChain : List Block)
    (bc : Blockchain) :
    bc.replaceChain cfg now newChain = bc.rejected ∨ Adopts cfg now newChain bc := by
  by_cases hpref : bc.prefersChain cfg newChain = true
  · by_cases hvalid : validateChainAgainstConsensus cfg now newChain = true
    · exact Or.inr ⟨hpref, hvalid⟩
    · left
      unfold replaceChain
      rw [if_neg (by simp [hpref]), dif_neg hvalid]
  · left
    unfold replaceChain
    rw [if_pos (by simpa using hpref)]

/-- `replaceChain` answers true exactly under its conditions. -/
theorem replaceChain_ret {newChain : List Block} :
    (bc.replaceChain cfg now newChain).ret = true ↔ Adopts cfg now newChain bc := by
  refine ⟨fun h => ?_, fun h => by rw [replaceChain_of h]⟩
  rcases replaceChain_cases cfg now newChain bc with hrej | hacc
  · rw [hrej] at h
    cases h
  · exact hacc

/-- Every engine, and the rule without one, prefers strictly longer chains. -/
theorem prefersChain_iff {newChain : List Block} :
    bc.prefersChain cfg newChain = true ↔ bc.chain.length < newChain.length := by
  unfold prefersChain
  split
  · -- both engines compare lengths
    rename_i engine _
    cases engine <;> simp [ConsensusEngine.shouldAcceptChain]
  · simp

/-- `chainFromJson` throws and changes nothing, or does what `replaceChain` does
with the decoded chain, without passing its answer on. -/
theorem chainFromJson_cases (cfg : NodeConfig) (now : TimePoint) (j : Json) (bc : Blockchain) :
    (∃ e, j.iterate.mapM (Block.fromJson cfg.crypto) = .error e ∧
        (bc.chainFromJson cfg now j).node = bc ∧ (bc.chainFromJson cfg now j).effects = []) ∨
      ∃ newChain, j.iterate.mapM (Block.fromJson cfg.crypto) = .ok newChain ∧
        (bc.chainFromJson cfg now j).ret = .ok () ∧
        (bc.chainFromJson cfg now j).effects = (bc.replaceChain cfg now newChain).effects ∧
        (bc.chainFromJson cfg now j).node = (bc.replaceChain cfg now newChain).node := by
  unfold chainFromJson
  split
  · rename_i e hdecode
    exact Or.inl ⟨e, hdecode, rfl, rfl⟩
  · rename_i newChain hdecode
    exact Or.inr ⟨newChain, hdecode, rfl, rfl, rfl⟩

end Blockchain

open Blockchain

/-! ## One completed call -/

/-- The chain a call offers to the node for adoption, if it is such a call. -/
def Op.offered (C : Crypto) : Op → Option (List Block)
  | .replaceChain newChain => some newChain
  | .chainFromJson j => (j.iterate.mapM (Block.fromJson C)).toOption
  | _ => none

/-- What one completed call did to the ledger. A call that changed nothing is
not a mining call, and the block or the chain it offered was not acceptable. -/
inductive Change (cfg : NodeConfig) (call : Call) (bc : Blockchain) : Blockchain → Prop
  | unchanged : (∀ minerAddress, call.op ≠ .minePendingTransactions minerAddress) →
      (∀ block, call.op = .acceptBlock block → ¬ Accepts cfg call.now block bc) →
      (∀ newChain, call.op.offered cfg.crypto = some newChain →
        ¬ Adopts cfg call.now newChain bc) →
      Change cfg call bc bc
  | queued (tx : Transaction) : call.op = .addTransaction tx → Admitted cfg call.now tx bc →
      Change cfg call bc (bc.enqueue tx)
  | mined (minerAddress : String) (block : Block) (bc' : Blockchain) :
      call.op = .minePendingTransactions minerAddress →
      Mined cfg call.now minerAddress bc block bc' → Change cfg call bc bc'
  | received (block : Block) : call.op = .acceptBlock block → Accepts cfg call.now block bc →
      Change cfg call bc (bc.receive block)
  | adopted (newChain : List Block) (hne : newChain ≠ []) :
      call.op.offered cfg.crypto = some newChain → Adopts cfg call.now newChain bc →
      Change cfg call bc (bc.adopt newChain hne)

/-- **Step inversion.** Every completed call is one of the five changes, with
the conditions it passed. Invariants of the ledger are proved over these five
cases. -/
theorem step_cases {cfg : NodeConfig} {call : Call} {bc bc' : Blockchain} {r : Reply}
    (h : step cfg call bc = some (r, bc')) : Change cfg call bc bc' := by
  obtain ⟨now, op⟩ := call
  cases op with
  | addTransaction tx =>
    -- `step` answers `some`, so the node after it can be read off
    cases h
    rcases addTransaction_cases cfg now tx bc with hrej | ⟨hadm, hout⟩
    · rw [hrej]
      exact .unchanged (by simp) (by simp) (by simp [Op.offered])
    · rw [hout]
      exact .queued tx rfl hadm
  | minePendingTransactions minerAddress =>
    simp only [step, Option.map_eq_some_iff] at h
    obtain ⟨out, hout, hr⟩ := h
    cases hr
    exact .mined minerAddress out.ret out.node rfl (mine_spec hout).1
  | acceptBlock block =>
    cases h
    by_cases hacc : Accepts cfg now block bc
    · rw [acceptBlock_of hacc]
      exact .received block rfl hacc
    · rw [(acceptBlock_cases cfg now block bc).resolve_right hacc]
      exact .unchanged (by simp) (by simpa using hacc) (by simp [Op.offered])
  | replaceChain newChain =>
    cases h
    by_cases hado : Adopts cfg now newChain bc
    · rw [replaceChain_of hado]
      exact .adopted newChain _ rfl hado
    · rw [(replaceChain_cases cfg now newChain bc).resolve_right hado]
      exact .unchanged (by simp) (by simp) (by simpa [Op.offered] using hado)
  | chainFromJson j =>
    cases h
    show Change cfg _ bc (bc.chainFromJson cfg now j).node
    rcases chainFromJson_cases cfg now j bc with
      ⟨e, hdecode, hnode, -⟩ | ⟨newChain, hdecode, -, -, hnode⟩
    · -- a chain that does not decode is not offered
      rw [hnode]
      exact .unchanged (by simp) (by simp) (by simp [Op.offered, hdecode, Except.toOption])
    · -- a chain that does is offered as to `replaceChain`
      have hoffered : Op.offered cfg.crypto (.chainFromJson j) = some newChain := by
        simp [Op.offered, hdecode, Except.toOption]
      rw [hnode]
      by_cases hado : Adopts cfg now newChain bc
      · rw [replaceChain_of hado]
        exact .adopted newChain _ hoffered hado
      · rw [(replaceChain_cases cfg now newChain bc).resolve_right hado]
        refine .unchanged (by simp) (by simp) fun chain' hchain' => ?_
        obtain rfl : newChain = chain' := Option.some.inj (hoffered.symm.trans hchain')
        exact hado

/-- The completed call that takes in a block. -/
theorem step_acceptBlock {cfg : NodeConfig} {now : TimePoint} {block : Block} {bc : Blockchain}
    (h : Accepts cfg now block bc) : step cfg ⟨now, .acceptBlock block⟩ bc =
      some (⟨.bool true, [.appendBlock block, .onBlockAccepted block]⟩, bc.receive block) := by
  show some ((bc.acceptBlock cfg now block).reply .bool) = _
  rw [acceptBlock_of h]
  rfl

/-- A completed call that offers an acceptable block receives it. -/
theorem step_accepts {cfg : NodeConfig} {call : Call} {block : Block} {bc bc' : Blockchain}
    {r : Reply} (hop : call.op = .acceptBlock block) (hacc : Accepts cfg call.now block bc)
    (h : step cfg call bc = some (r, bc')) : bc' = bc.receive block := by
  obtain ⟨now, op⟩ := call
  obtain rfl : op = .acceptBlock block := hop
  rw [step_acceptBlock hacc] at h
  cases h
  rfl

/-- A completed call that mines. -/
theorem step_mines {cfg : NodeConfig} {call : Call} {minerAddress : String} {bc bc' : Blockchain}
    {r : Reply} (hop : call.op = .minePendingTransactions minerAddress)
    (h : step cfg call bc = some (r, bc')) :
    ∃ block, r.answer = .block block ∧ Mined cfg call.now minerAddress bc block bc' := by
  obtain ⟨now, op⟩ := call
  obtain rfl : op = .minePendingTransactions minerAddress := hop
  simp only [step, Option.map_eq_some_iff] at h
  obtain ⟨out, hout, hr⟩ := h
  cases hr
  exact ⟨out.ret, rfl, (mine_spec hout).1⟩

/-- A block that can be sealed is mined. -/
theorem exists_step_of_sealed {cfg : NodeConfig} {now : TimePoint} {minerAddress : String}
    {bc : Blockchain} {block : Block}
    (h : sealBlock cfg (bc.candidateBlock cfg now minerAddress) = some block) :
    ∃ r bc', step cfg ⟨now, .minePendingTransactions minerAddress⟩ bc = some (r, bc') ∧
      r.answer = .block block := by
  simp only [step, Option.map_eq_some_iff, minePendingTransactions, h]
  exact ⟨_, _, ⟨_, rfl, rfl⟩, rfl⟩

/-- A completed call that offers a chain the node adopts. -/
theorem step_adopts {cfg : NodeConfig} {call : Call} {newChain : List Block}
    {bc bc' : Blockchain} {r : Reply} (hop : call.op.offered cfg.crypto = some newChain)
    (hado : Adopts cfg call.now newChain bc) (h : step cfg call bc = some (r, bc')) :
    bc' = bc.adopt newChain (ne_nil_of_validate hado.valid) := by
  obtain ⟨now, op⟩ := call
  cases op with
  | replaceChain newChain' =>
    cases hop
    cases h
    show (bc.replaceChain cfg now newChain).node = _
    rw [replaceChain_of hado]
  -- the document is decoded before the chain is offered
  | chainFromJson j =>
    cases h
    show (bc.chainFromJson cfg now j).node = _
    rcases chainFromJson_cases cfg now j bc with ⟨e, hdecode, -⟩ | ⟨chain', hdecode, -, -, hnode⟩
    · simp [Op.offered, hdecode, Except.toOption] at hop
    · simp only [Op.offered, hdecode, Except.toOption, Option.some.injEq] at hop
      subst hop
      rw [hnode, replaceChain_of hado]
  | _ => cases hop

/-- No completed call shortens the chain. -/
theorem step_length {cfg : NodeConfig} {call : Call} {bc bc' : Blockchain} {r : Reply}
    (h : step cfg call bc = some (r, bc')) : bc.chain.length ≤ bc'.chain.length := by
  cases step_cases h with
  | unchanged => exact Nat.le_refl _
  | queued tx _ _ => exact Nat.le_refl _
  | mined minerAddress block _ _ hm => simp [hm.chain]
  | received block _ _ => simp [receive]
  | adopted newChain _ _ hado => exact (prefersChain_iff.mp hado.preferred).le

/-- **Chains only grow longer**, over any history. -/
theorem history_length {cfg : NodeConfig} {start bc : Blockchain} {tr : List NodeEntry}
    (hist : History cfg start tr bc) : start.chain.length ≤ bc.chain.length :=
  hist.monotone (f := fun bc => bc.chain.length) fun _ _ _ _ => step_length

/-! ## The constructor -/

/-- A new node either loaded the persisted chain or mined a genesis block. -/
theorem start_cases {cfg : NodeConfig} {now : TimePoint} {difficulty : UInt32}
    {persisted : Option (List Block)} {bc : Blockchain}
    (h : Starts cfg now difficulty persisted bc) :
    bc.difficulty = difficulty ∧ bc.mempool = [] ∧
      (persisted = some bc.chain ∧ validateChainAgainstConsensus cfg now bc.chain = true ∧
          bc.stateManager = StateManager.rebuildState {} bc.chain ∨
        validateChainAgainstConsensus cfg now (persisted.getD []) = false ∧
          ∃ genesis, Block.createGenesis cfg.crypto difficulty = some genesis ∧
            bc.chain = [genesis] ∧ bc.stateManager = StateManager.applyBlockState {} genesis) := by
  unfold Starts Blockchain.create at h
  split_ifs at h with hvalid
  · -- the loaded chain; without a storage there is none to validate
    simp only [Option.map_some, Option.some.injEq] at h
    subst h
    refine ⟨rfl, rfl, Or.inl ⟨?_, hvalid, rfl⟩⟩
    cases persisted with
    | none => exact absurd rfl (ne_nil_of_validate hvalid)
    | some chain => rfl
  · -- a new genesis block
    split at h
    · cases h
    · rename_i genesis hgenesis
      simp only [Option.map_some, Option.some.injEq] at h
      subst h
      have hinvalid := Bool.eq_false_iff.mpr hvalid
      exact ⟨rfl, rfl, Or.inr ⟨hinvalid, genesis, hgenesis, rfl, rfl⟩⟩

/-- A node restarts from a valid chain with the configured difficulty. -/
theorem restarts_of_valid {cfg : NodeConfig} {now : TimePoint} {chain : List Block}
    (h : validateChainAgainstConsensus cfg now chain = true) (difficulty : UInt32) :
    ∃ start, Starts cfg now difficulty (some chain) start ∧ start.chain = chain ∧
      start.difficulty = difficulty := by
  obtain ⟨start, hstart⟩ : ∃ start, Starts cfg now difficulty (some chain) start := by
    have hpersisted : validateChainAgainstConsensus cfg now ((some chain).getD []) = true := h
    unfold Starts Blockchain.create
    rw [dif_pos hpersisted]
    exact ⟨_, rfl⟩
  obtain ⟨hdiff, -, ⟨hchain, -⟩ | ⟨hinvalid, -⟩⟩ := start_cases hstart
  · exact ⟨start, hstart, (Option.some.inj hchain).symm, hdiff⟩
  · -- the chain was checked a moment ago
    rw [Option.getD_some, h] at hinvalid
    cases hinvalid

/-- A node without a persisted chain starts from its genesis block, with the
configured difficulty and nothing pending. -/
theorem start_fresh {cfg : NodeConfig} {now : TimePoint} {difficulty : UInt32} {bc : Blockchain}
    (h : Starts cfg now difficulty none bc) :
    bc.difficulty = difficulty ∧ bc.mempool = [] ∧
      ∃ genesis, Block.createGenesis cfg.crypto difficulty = some genesis ∧
        bc.chain = [genesis] ∧ bc.stateManager = StateManager.applyBlockState {} genesis := by
  obtain ⟨hd, hm, ⟨hnone, -⟩ | ⟨-, hfresh⟩⟩ := start_cases h
  · cases hnone
  · exact ⟨hd, hm, hfresh⟩

end PersonalBlockchain
