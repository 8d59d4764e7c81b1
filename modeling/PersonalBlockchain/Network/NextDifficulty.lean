import PersonalBlockchain.Network.MinedBlocks

/-!
# Personal blockchain — the difficulty of the next block

`difficulty_` is no function of the chain: mining sets it to the difficulty of
the block it builds, but accepting a block, adopting a chain and loading one
from disk leave it alone, and a restart sets it back to the configured value.
It is always the difficulty of the last block the node mined itself since it
was constructed. Two nodes with the same chain build their next blocks with
the same difficulty exactly when these values agree, or a retarget rounds and
clamps them to one.

## Results

* `difficulty_history` — `difficulty_` is that of the block the node mined last;
* `next_difficulty_agrees_iff` — when two nodes with one chain build their next
  blocks with one difficulty;
* `next_difficulty_counterexample` — a node and its own restart do not.
-/

namespace PersonalBlockchain

open Machine Blockchain

/-- The difficulty of the last block mined in a history, else the configured
one. -/
def lastMinedDifficulty (configured : UInt32) (tr : List NodeEntry) : UInt32 :=
  tr.foldl (fun difficulty e =>
    match e.ret.answer with
    | .block mined => mined.difficulty
    | _ => difficulty) configured

namespace DifficultyAdjuster

/-- The seconds the last full window of the chain took. -/
def windowSpan (adj : DifficultyAdjuster) (chain : List Block) : Int :=
  parseTimestamp ((chain[chain.length - 1]?.map Block.timestamp).getD "") -
    parseTimestamp
      ((chain[chain.length - 1 - adj.windowSize.toNat]?.map Block.timestamp).getD "")

/-- The chain ends a full window that took some time. -/
def Retargets (adj : DifficultyAdjuster) (chain : List Block) : Prop :=
  (adj.windowSize + 1).toNat ≤ chain.length ∧ adj.shouldRetarget chain.length = true ∧
    0 < adj.windowSpan chain

/-- At a retarget the span of the window and the value of `difficulty_` decide,
whatever the arithmetic. -/
theorem calculateNextDifficultyIn_of_retargets (R : Rounding) {adj : DifficultyAdjuster}
    {chain : List Block} (h : adj.Retargets chain) (current : UInt32) :
    adj.calculateNextDifficultyIn R chain current =
      adj.retargetIn R (adj.windowSpan chain) current := by
  obtain ⟨hfull, hboundary, hspan⟩ := h
  unfold calculateNextDifficultyIn
  rw [if_neg (Nat.not_lt.mpr hfull), if_neg (by simp [hboundary])]
  exact if_neg (Int.not_le.mpr hspan)

/-- Anywhere else the value of `difficulty_` is taken over. -/
theorem calculateNextDifficultyIn_of_not_retargets (R : Rounding) {adj : DifficultyAdjuster}
    {chain : List Block} (h : ¬ adj.Retargets chain) (current : UInt32) :
    adj.calculateNextDifficultyIn R chain current = current := by
  unfold calculateNextDifficultyIn
  split_ifs with hfull hboundary
  · rfl
  · rfl
  · -- a full window at a boundary: it took no time
    refine if_pos (Int.not_lt.mp fun hspan => h ⟨Nat.not_lt.mp hfull, ?_, hspan⟩)
    simpa using hboundary

/-- At a retarget the span and the value of `difficulty_` decide. -/
theorem calculateNextDifficulty_of_retargets {adj : DifficultyAdjuster} {chain : List Block}
    (h : adj.Retargets chain) (current : UInt32) :
    adj.calculateNextDifficulty chain current = adj.retarget (adj.windowSpan chain) current :=
  calculateNextDifficultyIn_of_retargets .binary64 h current

/-- Anywhere else the value of `difficulty_` is taken over. -/
theorem calculateNextDifficulty_of_not_retargets {adj : DifficultyAdjuster} {chain : List Block}
    (h : ¬ adj.Retargets chain) (current : UInt32) :
    adj.calculateNextDifficulty chain current = current :=
  calculateNextDifficultyIn_of_not_retargets .binary64 h current

end DifficultyAdjuster

/-- Whatever the clocks and the miners, the two nodes build their next blocks
with the same difficulty. -/
def NextDifficultiesAgree (cfg : NodeConfig) (bc bc' : Blockchain) : Prop :=
  ∀ now now' minerAddress minerAddress', (bc.candidateBlock cfg now minerAddress).difficulty =
    (bc'.candidateBlock cfg now' minerAddress').difficulty

/-! ## What `difficulty_` is -/

/-- Only mining answers with a block. -/
theorem mines_of_answer {cfg : NodeConfig} {call : Call} {bc bc' : Blockchain} {r : Reply}
    {block : Block} (h : step cfg call bc = some (r, bc')) (hanswer : r.answer = .block block) :
    ∃ minerAddress, call.op = .minePendingTransactions minerAddress := by
  obtain ⟨now, op⟩ := call
  cases op with
  | minePendingTransactions minerAddress => exact ⟨minerAddress, rfl⟩
  | _ => cases h; cases hanswer

/-- One call: a mined block sets `difficulty_`, nothing else touches it. -/
theorem difficulty_step {cfg : NodeConfig} {call : Call} {bc bc' : Blockchain} {r : Reply}
    (h : step cfg call bc = some (r, bc')) :
    bc'.difficulty = match r.answer with
      | .block mined => mined.difficulty
      | _ => bc.difficulty := by
  -- only a mining call answers with a block, and only it writes the difficulty
  split
  · rename_i mined hanswer
    obtain ⟨minerAddress, hop⟩ := mines_of_answer h hanswer
    obtain ⟨block, hblock, hm⟩ := step_mines hop h
    obtain rfl : mined = block := Answer.block.inj (hanswer.symm.trans hblock)
    rw [hm.difficulty, (sealBlock_spec hm.sealed).2.2.2.2]
    rfl
  · rename_i hother
    cases step_cases h with
    | unchanged => rfl
    | queued tx _ _ => rfl
    | mined minerAddress block _ hop _ =>
      obtain ⟨block, hblock, -⟩ := step_mines hop h
      exact absurd hblock (hother block)
    | received block _ _ => rfl
    | adopted newChain _ _ _ => rfl

/-- Along a history `difficulty_` is the difficulty of the block mined last, or
the one the node started with. -/
theorem difficulty_history {cfg : NodeConfig} {start bc : Blockchain} {tr : List NodeEntry}
    (hist : History cfg start tr bc) :
    bc.difficulty = lastMinedDifficulty start.difficulty tr := by
  induction hist with
  | nil => rfl
  | snoc _ hs ih =>
    rw [lastMinedDifficulty, List.foldl_append, difficulty_step hs, ih]
    rfl

/-- **When the next difficulty agrees.** Two nodes of the same configuration
under proof of work, each with any history since it was constructed (fresh or
from any persisted chain), hold the same chain. Their next blocks have the
same difficulty if and only if the last blocks they mined themselves have, or
the chain stands at a retarget that makes one difficulty of both. -/
theorem next_difficulty_agrees_iff {cfg : NodeConfig} {adjuster : DifficultyAdjuster}
    (hcfg : cfg.consensusEngine = some (.pow adjuster)) {difficulty : UInt32}
    {now now' : TimePoint} {persisted persisted' : Option (List Block)}
    {start start' bc bc' : Blockchain} {tr tr' : List NodeEntry}
    (hstart : Starts cfg now difficulty persisted start) (hist : History cfg start tr bc)
    (hstart' : Starts cfg now' difficulty persisted' start') (hist' : History cfg start' tr' bc')
    (hchain : bc'.chain = bc.chain) :
    NextDifficultiesAgree cfg bc bc' ↔
      lastMinedDifficulty difficulty tr = lastMinedDifficulty difficulty tr' ∨
        adjuster.Retargets bc.chain ∧
          adjuster.retarget (adjuster.windowSpan bc.chain) (lastMinedDifficulty difficulty tr) =
            adjuster.retarget (adjuster.windowSpan bc.chain)
              (lastMinedDifficulty difficulty tr') := by
  have hdiff : bc.difficulty = lastMinedDifficulty difficulty tr := by
    rw [difficulty_history hist, (start_cases hstart).1]
  have hdiff' : bc'.difficulty = lastMinedDifficulty difficulty tr' := by
    rw [difficulty_history hist', (start_cases hstart').1]
  -- what a block is built with depends on the chain and `difficulty_` only
  have hnext : NextDifficultiesAgree cfg bc bc' ↔
      adjuster.calculateNextDifficulty bc.chain bc.difficulty =
        adjuster.calculateNextDifficulty bc.chain bc'.difficulty := by
    have hbuilt : ∀ (node : Blockchain) now minerAddress,
        (node.candidateBlock cfg now minerAddress).difficulty =
          adjuster.calculateNextDifficulty node.chain node.difficulty := by
      intro node now minerAddress
      show node.blockDifficulty cfg = _
      rw [blockDifficulty, hcfg]
      rfl
    simp only [NextDifficultiesAgree, hbuilt, hchain]
    exact ⟨fun h => h now now "" "", fun h _ _ _ _ => h⟩
  rw [hnext, hdiff, hdiff']
  by_cases hretargets : adjuster.Retargets bc.chain
  · rw [DifficultyAdjuster.calculateNextDifficulty_of_retargets hretargets,
      DifficultyAdjuster.calculateNextDifficulty_of_retargets hretargets]
    -- equal values are retargeted alike
    exact ⟨fun h => Or.inr ⟨hretargets, h⟩, fun h => h.elim (fun heq => by rw [heq]) And.right⟩
  · rw [DifficultyAdjuster.calculateNextDifficulty_of_not_retargets hretargets,
      DifficultyAdjuster.calculateNextDifficulty_of_not_retargets hretargets]
    exact ⟨Or.inl, fun h => h.resolve_right fun hr => hretargets hr.1⟩

/-! ## A restart forgets the retarget

With the default adjuster a node of difficulty 1 mines a block every six
seconds; the eleventh is retargeted to 2. Restarted from the chain it holds,
the node goes on with 1. -/

section Sample

/-- `k` seconds after the timestamp of the genesis block. -/
def earlyTime (k : Fin 1000) : TimePoint := .ofSeconds (1767225600 + k) (by omega)

/-- When and by whom the blocks are mined, the identifiers of their rewards
and their hashes. -/
def rigRows : List (Fin 1000 × String × String × String) :=
  [(6, "rig-12", "5fb09b05c03556a435584082621c7051a6c12aa554a5046518ec341010c83d7c",
      "0ab86dfdf163dc716b294d2f1b952b5a9a2ffa997eafbb2f6a6968eea0c94a34"),
    (12, "rig-17", "82d38b116e2180f5a03ed95d7e2874fa5c7e5e69205b2946681987690db893e2",
      "0c889080c5d1f033727296498cc8549a3263eb1dfd3511bde415a32d0b3c40c4"),
    (18, "rig-33", "f87f82ceb4e8a129dc7a6db5deb338ef611ad2b75817fa1c005895925dbf7f1d",
      "0e2af67382d7f1a5f85cdbfac11d6a939ff7976992c822bb538af65ca7e7b31c"),
    (24, "rig-25", "dac2b2b15c8ab1c19c13da57fab908364c148ac9f74bc0af0f031b130790974e",
      "0c6cbefce9e71035448a67e83a23825bf929b6b7f2c8c65c148b2dbfdd0ee2b9"),
    (30, "rig-35", "5d6ad143d829677a552ecf55a9f140ea6449efb997bce58933e59f345c001a94",
      "005b3f3d1788cbf2b48bf6cf4652bc862b0234430a7bf104e1db8a30d6d67f44"),
    (36, "rig-15", "3deaa7ef4c42bf6a124965d7cc163d592c166dc1ea1fd8b8b935a81adc76702f",
      "01c7e4a23fa7b41b2e0e3c49fd23cdc20a7cfa18ff707689c2d2395b60af5d16"),
    (42, "rig-0", "07b82129c32f7e64bcd42a6dab8816a9fad187164677a7b47ccca693cb0f39a3",
      "0967c53fed12e17de157c43fe800d245da7e0411a8435fc1ae4b4f578cbe6482"),
    (48, "rig-2", "fa8d736ceb83624febc1780aed18217154012423205c004ac12c6e3a8ccd4379",
      "01b14e89e22928d7ee9ff6d0f9da3f75e66f79fe77a8c9ddefa4aaa847be25f2"),
    (54, "rig-8", "1ed24841a194a9ae3000848d1726d0f57f988ca9924d0f86d21187e0c9991bb7",
      "07a927e7c592eacef6cee8d8eabccd254913ee3d0eaa2fbb23808edc9edb823c"),
    (60, "rig-41", "ffb0d9b5a8ba6fdd3090073010c529c31ee12c5cf7380bc5be27431ce5ce4080",
      "03e01dd2c0fd1ea39db741791f5f80f1512a2c07f1db77eabb7c2fc8f05e0387"),
    (66, "rig-87", "3575d24c6798c32e7716bb8b4398523af9371e753aa23553b63c9f397e713d10",
      "007d37622e9dc0da1ff5718a5579b13c1e0e489b07a8a4b39d3014caf7fcb1bb")]

/-- The digests made when these blocks are mined on top of `previousHash`, the
first of them as number `i`. -/
def rigDigests : Nat → String → List (Fin 1000 × String × String × String) →
    List (String × String)
  | _, _, [] => []
  | i, previousHash, (k, rig, id, hash) :: rows =>
    let reward : Transaction := { sampleReward id (currentTimestamp (earlyTime k)) with
      toAddress := rig }
    let block : Block := {
      index := UInt64.ofNat i
      timestamp := reward.timestamp
      previousHash := previousHash
      transactions := [reward]
      merkleRoot := id
      difficulty := if i ≤ 10 then 1 else 2 }
    (buildTxCore reward, id) :: (block.headerString, hash) :: rigDigests (i + 1) hash rows

/-- The digests of the eleven blocks and of the genesis block, with the default
adjuster. -/
def rigConfig : NodeConfig where
  crypto := .ofTable
    ((buildTxCore sampleGenesisReward, sampleGenesisReward.txID) ::
      rigDigests 1 powGenesis.hash rigRows ++
      powGenesisHashes.mapIdx fun i hash =>
        (Block.headerString { powGenesis with nonce := UInt64.ofNat i }, hash)) []
  consensusEngine := some (.pow {})

/-- The node starts on the genesis block of difficulty 1. -/
theorem rigGenesis_created : Block.createGenesis rigConfig.crypto 1 = some powGenesis := by
  refine @powGenesis_ofTable (_ :: rigDigests 1 powGenesis.hash rigRows) _ List.lookup_cons_self ?_
  simp only [rigDigests, rigRows, List.forall_mem_cons]
  refine ⟨rewardCore_head rfl, ?_⟩
  -- a reward and a block for each row
  iterate 11 refine ⟨rewardCore_head rfl, headerString_head (by decide), ?_⟩
  simp

/-- Eleven blocks are mined, and the chain is valid. -/
theorem rig_history : ∃ tr bc, History rigConfig powStart tr bc ∧ bc.difficulty = 2 ∧
    bc.chain.length = 12 ∧
    validateChainAgainstConsensus rigConfig (earlyTime 70) bc.chain = true := by
  obtain ⟨tr, bc, hist, hcheck⟩ := Run.exists_of_exec (step rigConfig)
    (rigRows.map fun row => ⟨earlyTime row.1, .minePendingTransactions row.2.1⟩) powStart
    (fun r => r.2.difficulty = 2 && r.2.chain.length = 12 &&
      validateChainAgainstConsensus rigConfig (earlyTime 70) r.2.chain) (by decide +kernel)
  simp only [Bool.and_eq_true, decide_eq_true_eq, and_assoc] at hcheck
  exact ⟨tr, bc, hist, hcheck⟩

/-- The node and its own restart disagree about the next block. -/
theorem rig_disagrees : ∃ tr bc again, History rigConfig powStart tr bc ∧
    Starts rigConfig (earlyTime 70) 1 (some bc.chain) again ∧ again.chain = bc.chain ∧
      ¬ NextDifficultiesAgree rigConfig bc again := by
  obtain ⟨tr, bc, hist, hdiff, hlength, hvalid⟩ := rig_history
  obtain ⟨again, hagain, hchain, hconfigured⟩ := restarts_of_valid hvalid 1
  refine ⟨tr, bc, again, hist, hagain, hchain, fun hagree => ?_⟩
  -- twelve blocks end no window
  have hno : ¬ DifficultyAdjuster.Retargets {} bc.chain := by
    rintro ⟨-, hboundary, -⟩
    rw [hlength] at hboundary
    revert hboundary
    decide
  have hsame := hagree (earlyTime 70) (earlyTime 70) "" ""
  have hbuilt : (bc.candidateBlock rigConfig (earlyTime 70) "").difficulty = 2 :=
    (DifficultyAdjuster.calculateNextDifficulty_of_not_retargets hno _).trans hdiff
  have hbuilt' : (again.candidateBlock rigConfig (earlyTime 70) "").difficulty = 1 := by
    rw [← hchain] at hno
    exact (DifficultyAdjuster.calculateNextDifficulty_of_not_retargets hno _).trans hconfigured
  rw [hbuilt, hbuilt'] at hsame
  revert hsame
  decide

end Sample

/-- After a restart the node builds the next block with another difficulty. -/
theorem next_difficulty_counterexample :
    ¬ ∀ (cfg : NodeConfig) (adjuster : DifficultyAdjuster) (difficulty : UInt32)
      (now now' : TimePoint) (persisted persisted' : Option (List Block))
      (start start' bc bc' : Blockchain) (tr tr' : List NodeEntry),
      cfg.consensusEngine = some (.pow adjuster) →
      Starts cfg now difficulty persisted start → History cfg start tr bc →
      Starts cfg now' difficulty persisted' start' → History cfg start' tr' bc' →
      bc'.chain = bc.chain → NextDifficultiesAgree cfg bc bc' := by
  intro h
  obtain ⟨tr, bc, again, hist, hagain, hchain, hno⟩ := rig_disagrees
  have hstart := starts_freshNode rigGenesis_created (earlyTime 0)
  exact hno (h rigConfig {} 1 _ _ _ _ _ _ _ _ _ [] rfl hstart hist hagain Run.nil hchain)

/-- The theorem on the node and its restart: what they mined last differs. -/
theorem next_difficulty_agrees_iff_sample : ∃ (tr : List NodeEntry) (bc : Blockchain),
    History rigConfig powStart tr bc ∧
      lastMinedDifficulty 1 tr ≠ lastMinedDifficulty 1 [] := by
  obtain ⟨tr, bc, again, hist, hagain, hchain, hno⟩ := rig_disagrees
  have hstart := starts_freshNode rigGenesis_created (earlyTime 0)
  refine ⟨tr, bc, hist, fun hsame => hno ?_⟩
  exact (next_difficulty_agrees_iff rfl hstart hist hagain Run.nil hchain).mpr (Or.inl hsame)

end PersonalBlockchain
