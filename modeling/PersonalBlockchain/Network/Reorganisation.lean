import PersonalBlockchain.Network.Replay

/-!
# Personal blockchain — reorganisations

`replaceChain` prunes the mempool against the new chain and never puts a
transaction of the old chain back. So a pending transaction stays pending until
a transaction with its identifier is confirmed, while a transaction that only
the old chain confirmed is gone from the node.

## Results

* `reorganisation_keeps_pending` — what becomes of the pending transactions and of
  the confirmed ones when a node adopts a chain;
* `reorganisation_counterexample` — a confirmed transfer that a longer chain
  drops.
-/

namespace PersonalBlockchain

open Machine Blockchain StateManager

/-- Every transaction that is no coinbase and was on the old chain or pending
is afterwards on the new chain or pending. -/
def KeepsTransactions (bc bc' : Blockchain) : Prop :=
  ∀ tx, tx.isCoinbase = false → tx ∈ chainTransactions bc.chain ∨ tx ∈ bc.mempool →
    tx ∈ chainTransactions bc'.chain ∨ tx ∈ bc'.mempool

/-- **What a reorganisation keeps.** When a node adopts a chain:

* the mempool keeps, in order, exactly the pending transactions whose
  identifier the new chain does not confirm, so each pending transaction is
  afterwards pending or confirmed under its identifier;
* a transaction that the old chain confirmed is not put back: the node still
  has it exactly when the new chain does. -/
theorem reorganisation_keeps_pending {cfg : NodeConfig} {now : TimePoint} {difficulty : UInt32}
    {persisted : Option (List Block)} {start bc : Blockchain} {tr : List NodeEntry}
    (hstart : Starts cfg now difficulty persisted start) (hist : History cfg start tr bc)
    {later : TimePoint} {newChain : List Block}
    (haccepted : (bc.replaceChain cfg later newChain).ret = true) :
    (bc.replaceChain cfg later newChain).node.mempool = bc.mempool.filter (fun tx =>
        !(chainTransactions newChain).any fun t => !t.isCoinbase && t.txID = tx.txID) ∧
    (∀ tx ∈ bc.mempool, tx ∈ (bc.replaceChain cfg later newChain).node.mempool ∨
      ∃ t ∈ chainTransactions newChain, t.isCoinbase = false ∧ t.txID = tx.txID) ∧
    ∀ tx ∈ chainTransactions bc.chain, tx.isCoinbase = false →
      (tx ∈ chainTransactions (bc.replaceChain cfg later newChain).node.chain ∨
          tx ∈ (bc.replaceChain cfg later newChain).node.mempool ↔
        tx ∈ chainTransactions newChain) := by
  have hI : PendingFresh bc := hist.invariant (pendingFresh_start hstart)
    fun _ _ _ _ => pendingFresh_step
  rw [replaceChain_of (replaceChain_ret.mp haccepted)]
  have hmempool : (bc.adopt newChain (ne_nil_of_validate (replaceChain_ret.mp
      haccepted).valid)).mempool = bc.mempool.filter (fun tx =>
        !(chainTransactions newChain).any fun t => !t.isCoinbase && t.txID = tx.txID) := by
    refine List.filter_congr fun tx _ => ?_
    -- the spent set of the new chain, spelled out
    rw [Bool.eq_iff_iff, mem_kept_adopt]
    simp [Unconfirmed]
  refine ⟨hmempool, fun tx htx => ?_, fun tx htx hcb => ?_⟩
  · by_cases hconfirmed : ∃ t ∈ chainTransactions newChain, t.isCoinbase = false ∧ t.txID = tx.txID
    · exact Or.inr hconfirmed
    · left
      rw [hmempool, List.mem_filter]
      refine ⟨htx, ?_⟩
      simp only [Bool.not_eq_true', List.any_eq_false, Bool.and_eq_true, decide_eq_true_eq]
      exact fun t ht hmatch => hconfirmed ⟨t, ht, by simpa using hmatch⟩
  · -- a confirmed transaction was not pending
    refine or_iff_left fun hpending => ?_
    have hold := (List.mem_filter.mp hpending).1
    exact hI.unconfirmed tx hold tx htx hcb rfl

/-! ## A confirmed transfer that a longer chain drops -/

section Sample

/-- The reward of the third block of the other chain. -/
def forkReward3 : Transaction :=
  sampleReward "e515499ca587507e1391d1121329f6f04f9e5931163daf1d6a6cfb4ababc4cba"
    "2026-03-14T12:00:40Z"

/-- The second block without the transfer. -/
def forkBlock2 : Block :=
  { sampleBlock2 with
    transactions := [sampleReward2]
    merkleRoot := sampleReward2.txID
    hash := "b5274c766739e20d980fdab2fd5878403465ae14cf5cb39d7e9fb8673076b1e1" }

/-- The third block, which makes the other chain the longer one. -/
def forkBlock3 : Block where
  index := 3
  timestamp := "2026-03-14T12:00:40Z"
  previousHash := forkBlock2.hash
  transactions := [forkReward3]
  merkleRoot := forkReward3.txID
  nonce := 0
  difficulty := 0
  hash := "d4cda7454d3a2e5db869f3f2deb79d22b78cf81b85e1d7d91d4a8a8e13491c47"

/-- The digests of both chains, without an engine. -/
def forkConfig : NodeConfig where
  crypto := .ofTable (sampleDigests ++
      [(forkBlock2.headerString, forkBlock2.hash), (forkBlock3.headerString, forkBlock3.hash)])
    [(sampleTransfer.txID, sampleTransfer.digitalSignature, samplePublicKey)]
  consensusEngine := none

theorem forkGenesis_created : Block.createGenesis forkConfig.crypto 0 = some sampleGenesis := by
  decide +kernel

/-- The longer chain. -/
def forkChain : List Block := [sampleGenesis, sampleBlock1, forkBlock2, forkBlock3]

theorem forkChain_valid :
    validateChainAgainstConsensus forkConfig (sampleTime 50) forkChain = true := by
  decide +kernel

/-- A node that holds the sample chain. -/
theorem fork_history : ∃ tr bc, History forkConfig sampleStart tr bc ∧
    (bc.chain = [sampleGenesis, sampleBlock1, sampleBlock2] ∧ bc.mempool = []) ∧
    (bc.replaceChain forkConfig (sampleTime 50) forkChain).ret = true := by
  obtain ⟨tr, bc, hist, hcheck⟩ := Run.exists_of_exec (step forkConfig)
    [⟨sampleTime 30, .replaceChain [sampleGenesis, sampleBlock1, sampleBlock2]⟩] sampleStart
    (fun r => r.2.chain = [sampleGenesis, sampleBlock1, sampleBlock2] &&
      r.2.mempool = []) (by decide +kernel)
  simp only [Bool.and_eq_true, decide_eq_true_eq] at hcheck
  refine ⟨tr, bc, hist, hcheck, replaceChain_ret.mpr ⟨prefersChain_iff.mpr ?_, forkChain_valid⟩⟩
  rw [hcheck.1]
  decide

theorem sampleTransfer_confirmed :
    sampleTransfer ∈ chainTransactions [sampleGenesis, sampleBlock1, sampleBlock2] := by
  simp [chainTransactions, sampleGenesis, sampleBlock1, sampleBlock2]

theorem sampleTransfer_not_in_fork : sampleTransfer ∉ chainTransactions forkChain := by
  decide +kernel

end Sample

/-- The transfer of the second block is neither on the adopted chain nor
pending. -/
theorem reorganisation_counterexample :
    ¬ ∀ (cfg : NodeConfig) (now later : TimePoint) (difficulty : UInt32)
      (persisted : Option (List Block)) (start bc : Blockchain) (tr : List NodeEntry)
      (newChain : List Block), Starts cfg now difficulty persisted start →
      History cfg start tr bc → (bc.replaceChain cfg later newChain).ret = true →
      KeepsTransactions bc (bc.replaceChain cfg later newChain).node := by
  intro h
  obtain ⟨tr, bc, hist, ⟨hchain, hmempool⟩, hret⟩ := fork_history
  have hstart := starts_freshNode forkGenesis_created (sampleTime 0)
  have hconfirmed : sampleTransfer ∈ chainTransactions bc.chain :=
    hchain ▸ sampleTransfer_confirmed
  have hkept := h forkConfig (sampleTime 0) (sampleTime 50) 0 none sampleStart bc tr forkChain
    hstart hist hret sampleTransfer rfl (Or.inl hconfirmed)
  rw [replaceChain_of (replaceChain_ret.mp hret)] at hkept
  -- neither on the new chain, which never had it, nor pending, where nothing was
  rcases hkept with hconfirmed | hpending
  · exact sampleTransfer_not_in_fork hconfirmed
  · have hold := (List.mem_filter.mp hpending).1
    rw [hmempool] at hold
    cases hold

/-- The theorem at this change of chains. -/
theorem reorganisation_keeps_pending_sample :
    ∃ bc : Blockchain, sampleTransfer ∈ chainTransactions bc.chain ∧
      ¬ (sampleTransfer ∈ chainTransactions
          (bc.replaceChain forkConfig (sampleTime 50) forkChain).node.chain ∨
        sampleTransfer ∈ (bc.replaceChain forkConfig (sampleTime 50) forkChain).node.mempool) := by
  obtain ⟨tr, bc, hist, ⟨hchain, -⟩, hret⟩ := fork_history
  have hconfirmed : sampleTransfer ∈ chainTransactions bc.chain :=
    hchain ▸ sampleTransfer_confirmed
  have hstart := starts_freshNode forkGenesis_created (sampleTime 0)
  obtain ⟨-, -, hold⟩ := reorganisation_keeps_pending hstart hist hret
  exact ⟨bc, hconfirmed, fun h => sampleTransfer_not_in_fork ((hold _ hconfirmed rfl).mp h)⟩

end PersonalBlockchain
