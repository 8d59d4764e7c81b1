import PersonalBlockchain.Network.MinedBlocks

/-!
# Personal blockchain — the difficulty schedule

`DifficultyAdjuster` computes the difficulty of the next block from the chain,
but only mining asks it. Validation looks at each block with its predecessor:
the difficulty has to lie in 1..64 and the hash has to meet it, whatever the
schedule says; the retarget parameters of the node play no part in what it
accepts.

## Results

* `meetsOwnDifficulty_of_valid` — what validation asks of the difficulties;
* `validate_withAdjuster` — the adjuster plays no part in it;
* `schedule_binds_mining_only` — both along every history, and the schedule for
  mined blocks;
* `schedule_counterexample` — a block of difficulty 2 where the schedule says 1.
-/

namespace PersonalBlockchain

open Machine Blockchain AdjacentPairs

/-- Every block after the first has the difficulty the adjuster computes from
the blocks before it, starting from that of the last of them. -/
def OnSchedule (adjuster : DifficultyAdjuster) (chain : List Block) : Prop :=
  ∀ i previous block, chain[i]? = some previous → chain[i + 1]? = some block →
    block.difficulty =
      adjuster.calculateNextDifficulty (chain.take (i + 1)) previous.difficulty

/-- The call made the node take in a block or a chain. -/
def TookIn (cfg : NodeConfig) (e : NodeEntry) : Prop :=
  (∃ block, e.call.op = .acceptBlock block ∧ Accepts cfg e.call.now block e.pre) ∨
    ∃ newChain, e.call.op.offered cfg.crypto = some newChain ∧
      Adopts cfg e.call.now newChain e.pre

/-- Every block after the first has a difficulty in 1..64 and meets it. -/
def MeetsOwnDifficulty (chain : List Block) : Prop :=
  ∀ i block, chain[i + 1]? = some block → InBounds block.difficulty ∧ block.meetsTarget = true

/-- The node with another adjuster. -/
def NodeConfig.withAdjuster (cfg : NodeConfig) (adjuster : DifficultyAdjuster) : NodeConfig :=
  { cfg with consensusEngine := some (.pow adjuster) }

variable {cfg : NodeConfig} {adjuster : DifficultyAdjuster}

/-! ## What validation asks -/

/-- Under proof of work every block of a valid chain behind the first has a
difficulty in range, and meets it. -/
theorem meetsOwnDifficulty_of_valid (hcfg : cfg.consensusEngine = some (.pow adjuster))
    {now : TimePoint} {chain : List Block}
    (h : validateChainAgainstConsensus cfg now chain = true) : MeetsOwnDifficulty chain := by
  intro i block hblock
  have hengine := (validate_iff.mp h).2 _ hcfg
  cases chain with
  | nil => simp at hblock
  | cons genesis rest =>
    rw [List.getElem?_cons_succ] at hblock
    obtain ⟨hi, rfl⟩ := List.getElem?_eq_some_iff.mp hblock
    -- the engine's loop reaches every block after the genesis block
    obtain ⟨previous, hcheck⟩ := allPairs_getElem hengine i hi
    have hpow := powValid_iff.mp hcheck
    exact ⟨hpow.difficulty, hpow.target⟩

/-- The adjuster plays no part in validation. -/
theorem validate_withAdjuster (hcfg : cfg.consensusEngine = some (.pow adjuster))
    (now : TimePoint) (chain : List Block) (other : DifficultyAdjuster) :
    validateChainAgainstConsensus (cfg.withAdjuster other) now chain =
      validateChainAgainstConsensus cfg now chain := by
  unfold validateChainAgainstConsensus NodeConfig.withAdjuster
  rw [hcfg]
  cases chain <;> rfl

/-- What a call takes in was validated as a whole. -/
theorem TookIn.valid {e : NodeEntry} (h : TookIn cfg e)
    (hstep : step cfg e.call e.pre = some (e.ret, e.post)) :
    validateChainAgainstConsensus cfg e.call.now e.post.chain = true := by
  rcases h with ⟨block, hop, hacc⟩ | ⟨newChain, hop, hado⟩
  · rw [step_accepts hop hacc hstep]
    exact hacc.valid
  · rw [step_adopts hop hado hstep]
    exact hado.valid

/-- **The schedule binds mining only.** In every history of a node under proof
of work: after every accepted block and every adopted chain, each block after
the first has a difficulty in 1..64 that its hash meets; a block the node
mines has the difficulty the adjuster computes from its chain and its current
difficulty; and which chains are valid is the same for every adjuster. -/
theorem schedule_binds_mining_only (hcfg : cfg.consensusEngine = some (.pow adjuster))
    {start bc : Blockchain} {tr : List NodeEntry} (hist : History cfg start tr bc) :
    (∀ e ∈ tr, TookIn cfg e → MeetsOwnDifficulty e.post.chain) ∧
      (∀ e ∈ tr, ∀ minerAddress block, e.call.op = .minePendingTransactions minerAddress →
        e.ret.answer = .block block →
        block.difficulty = adjuster.calculateNextDifficulty e.pre.chain e.pre.difficulty) ∧
      ∀ now chain other, validateChainAgainstConsensus (cfg.withAdjuster other) now chain =
        validateChainAgainstConsensus cfg now chain := by
  refine ⟨fun e he htook => ?_, fun e he minerAddress block hop hanswer => ?_,
    validate_withAdjuster hcfg⟩
  · exact meetsOwnDifficulty_of_valid hcfg (htook.valid (hist.entry e he).1)
  · obtain ⟨mined, hmined, hm⟩ := step_mines hop (hist.entry e he).1
    obtain rfl : block = mined := Answer.block.inj (hanswer.symm.trans hmined)
    -- sealing keeps the difficulty of the candidate
    have hsealed : block.difficulty = e.pre.blockDifficulty cfg :=
      (sealBlock_spec hm.sealed).2.2.2.2
    rw [hsealed, blockDifficulty, hcfg]
    rfl

/-! ## A block of difficulty 2 where the schedule says 1 -/

section Sample

/-- The reward of the block. -/
def offScheduleReward : Transaction :=
  sampleReward "96eac87e77bbfd4233df8c4c2e84d096cea0923138e46446380c53997abb621e"
    "2026-03-14T12:00:46Z"

/-- A block of difficulty 2 on the genesis block of difficulty 1. -/
def offScheduleBlock : Block where
  index := 1
  timestamp := "2026-03-14T12:00:46Z"
  previousHash := powGenesis.hash
  transactions := [offScheduleReward]
  merkleRoot := offScheduleReward.txID
  nonce := 0
  difficulty := 2
  hash := "007d5408afbe634e58468abc83aaec8b077a1f30cf7c175ea60b61171134e461"

/-- The digests of the block and of the genesis block, with the default
adjuster. -/
def offScheduleConfig : NodeConfig where
  crypto := .ofTable
    ([(buildTxCore sampleGenesisReward, sampleGenesisReward.txID),
      (offScheduleBlock.headerString, offScheduleBlock.hash)] ++
      powGenesisHashes.mapIdx fun i hash =>
        (Block.headerString { powGenesis with nonce := UInt64.ofNat i }, hash)) []
  consensusEngine := some (.pow {})

/-- The node starts on the genesis block of difficulty 1. -/
theorem offScheduleGenesis_created :
    Block.createGenesis offScheduleConfig.crypto 1 = some powGenesis := by
  refine powGenesis_ofTable List.lookup_cons_self ?_
  simp only [List.forall_mem_cons, List.not_mem_nil, false_implies, implies_true, and_true]
  exact ⟨rewardCore_head rfl, headerString_head (by decide)⟩

theorem offScheduleBlock_accepted :
    Accepts offScheduleConfig (sampleTime 50) offScheduleBlock powStart :=
  ⟨rfl, rfl, by decide +kernel⟩

theorem offSchedule_history : History offScheduleConfig powStart
    [⟨powStart, ⟨sampleTime 50, .acceptBlock offScheduleBlock⟩,
      ⟨.bool true, [.appendBlock offScheduleBlock, .onBlockAccepted offScheduleBlock]⟩,
      powStart.receive offScheduleBlock⟩] (powStart.receive offScheduleBlock) :=
  Run.snoc Run.nil (step_acceptBlock offScheduleBlock_accepted)

end Sample

/-- A node of difficulty 1 accepts the block of difficulty 2. -/
theorem schedule_counterexample :
    ¬ ∀ (cfg : NodeConfig) (adjuster : DifficultyAdjuster) (now : TimePoint)
      (difficulty : UInt32) (start bc : Blockchain) (tr : List NodeEntry),
      cfg.consensusEngine = some (.pow adjuster) → Starts cfg now difficulty none start →
      History cfg start tr bc → ∀ e ∈ tr, TookIn cfg e → OnSchedule adjuster e.post.chain := by
  intro h
  have hstart := starts_freshNode offScheduleGenesis_created (sampleTime 0)
  have hschedule := h _ {} _ _ _ _ _ rfl hstart offSchedule_history _
    (List.mem_singleton_self _) (Or.inl ⟨_, rfl, offScheduleBlock_accepted⟩)
  -- below a full window the schedule keeps the difficulty of the genesis block
  have hdifficulty := hschedule 0 powGenesis offScheduleBlock rfl rfl
  revert hdifficulty
  decide

/-- The theorem on that call. -/
theorem schedule_binds_mining_only_sample :
    MeetsOwnDifficulty (powStart.receive offScheduleBlock).chain :=
  (schedule_binds_mining_only rfl offSchedule_history).1 _ (List.mem_singleton_self _)
    (Or.inl ⟨_, rfl, offScheduleBlock_accepted⟩)

end PersonalBlockchain
