import PersonalBlockchain.Lib.Traced
import PersonalBlockchain.Network.MinedBlocks

/-!
# Personal blockchain — the difficulty range and the target strings

Both validators compare a hash with `std::string(difficulty, '0')`. The engine
looks at the range of the difficulty first, but it runs after `isChainValid`,
which does not: there a block gets to its target string once its index, its
hash, its link and its Merkle root are right, whatever its difficulty.

The validators are traced (`Lib/Traced.lean`) with the lengths of the strings
they build.

## Results

* `isChainValidTraced_passed`, `validateChainTraced_passed`, `Offer.taken_iff` —
  the answers of the traced validators and of the calls are those of the model;
* `mem_isChainValidTraced`, `powTraced_inBounds` — the strings of each;
* `targets_in_bounds_iff` — a call builds no string out of range exactly when the
  first block out of range is stopped before its target;
* `targets_in_bounds_counterexample` — a block of difficulty 4294967295.
-/

namespace PersonalBlockchain

open AdjacentPairs

/-! ## The validators, traced -/

/-- `checkBlock` with the target string it builds. -/
def checkBlockTraced (C : Crypto) (i : Nat) (previous current : Block) : Traced UInt32 :=
  if current.index ≠ UInt64.ofNat i then .verdict false
  else if current.hash ≠ current.calculateHash C then .verdict false
  else if current.previousHash ≠ previous.hash then .verdict false
  else if current.merkleRoot ≠ computeMerkleRoot C current.transactions then .verdict false
  -- `std::string target(current.difficulty, '0')`
  else if !current.meetsTarget then ⟨false, [current.difficulty]⟩
  else if !current.hasValidTransactions C then ⟨false, [current.difficulty]⟩
  else ⟨true, [current.difficulty]⟩

/-- `isChainValid(chain)`; no target is built for the genesis block. -/
def isChainValidTraced (C : Crypto) : List Block → Traced UInt32
  | [] => .verdict false
  | genesis :: rest =>
    if genesis.previousHash ≠ Block.zeroHash then .verdict false
    else if genesis.hash ≠ genesis.calculateHash C then .verdict false
    else if genesis.merkleRoot ≠ computeMerkleRoot C genesis.transactions then .verdict false
    else Traced.allPairs (checkBlockTraced C) 1 genesis rest

/-- `PoWEngine::validateBlock` with the target string it builds. -/
def PoWEngine.validateBlockTraced (C : Crypto) (now : TimePoint) (block previousBlock : Block) :
    Traced UInt32 :=
  if block.difficulty < 1 ∨ block.difficulty > 64 then .verdict false
  else if block.hash ≠ block.calculateHash C then .verdict false
  -- `std::string target(block.difficulty, '0')`
  else if !block.meetsTarget then ⟨false, [block.difficulty]⟩
  else if block.previousHash ≠ previousBlock.hash then ⟨false, [block.difficulty]⟩
  else if block.merkleRoot ≠ computeMerkleRoot C block.transactions then
    ⟨false, [block.difficulty]⟩
  else if !DifficultyAdjuster.validateBlockTimestamp now block previousBlock then
    ⟨false, [block.difficulty]⟩
  else if !block.hasValidTransactions C then ⟨false, [block.difficulty]⟩
  else ⟨true, [block.difficulty]⟩

/-- `IConsensusEngine::validateBlock`; proof of stake builds no target. -/
def ConsensusEngine.validateBlockTraced (C : Crypto) (now : TimePoint)
    (block previousBlock : Block) : ConsensusEngine → Traced UInt32
  | pow _ => PoWEngine.validateBlockTraced C now block previousBlock
  | pos => .verdict (PoSEngine.validateBlock C block previousBlock)

/-- The loop of `validateChainAgainstConsensus`, with the strings of the engine.
-/
def engineAcceptsTraced (C : Crypto) (now : TimePoint) (engine : ConsensusEngine) :
    List Block → Traced UInt32
  | [] => .verdict true
  | genesis :: rest =>
    Traced.allPairs
      (fun _ previous current => engine.validateBlockTraced C now current previous) 1 genesis rest

/-- `validateChainAgainstConsensus`: the strings of the static check, and behind
them those of the engine if it is reached. -/
def validateChainTraced (cfg : NodeConfig) (now : TimePoint) (chain : List Block) :
    Traced UInt32 :=
  (isChainValidTraced cfg.crypto chain).andThen
    (match cfg.consensusEngine with
    | none => .verdict true
    | some engine => engineAcceptsTraced cfg.crypto now engine chain)

/-! ## The answers -/

theorem checkBlockTraced_passed {C : Crypto} {i : Nat} {previous current : Block} :
    (checkBlockTraced C i previous current).passed = checkBlock C i previous current := by
  unfold checkBlockTraced checkBlock
  split_ifs <;> rfl

theorem isChainValidTraced_passed {C : Crypto} {chain : List Block} :
    (isChainValidTraced C chain).passed = isChainValid C chain := by
  cases chain with
  | nil => rfl
  | cons genesis rest =>
    rw [isChainValidTraced, isChainValid]
    split_ifs
    iterate 3 rfl
    rw [Traced.passed_allPairs]
    simp only [checkBlockTraced_passed]

theorem validateBlockTraced_passed {C : Crypto} {now : TimePoint} {block previousBlock : Block}
    {engine : ConsensusEngine} :
    (engine.validateBlockTraced C now block previousBlock).passed =
      engine.validateBlock C now block previousBlock := by
  cases engine with
  | pow adjuster =>
    show (PoWEngine.validateBlockTraced C now block previousBlock).passed =
      PoWEngine.validateBlock C now block previousBlock
    unfold PoWEngine.validateBlockTraced PoWEngine.validateBlock
    split_ifs <;> rfl
  | pos => rfl

/-- **The trace changes no answer.** -/
theorem validateChainTraced_passed {cfg : NodeConfig} {now : TimePoint} {chain : List Block} :
    (validateChainTraced cfg now chain).passed = validateChainAgainstConsensus cfg now chain := by
  unfold validateChainTraced validateChainAgainstConsensus
  rw [Traced.passed_andThen, isChainValidTraced_passed]
  -- the engine is asked about a chain that passed the first validator
  cases isChainValid cfg.crypto chain with
  | false => rfl
  | true =>
    cases cfg.consensusEngine with
    | none => rfl
    | some engine =>
      cases chain with
      | nil => rfl
      | cons genesis rest =>
        simp only [engineAcceptsTraced, Traced.passed_allPairs, validateBlockTraced_passed]
        rfl

/-! ## The strings -/

/-- What `isChainValid(chain)` checks of block `i` before it builds the target. -/
structure CheckedHeader (C : Crypto) (i : Nat) (previous current : Block) : Prop where
  index : current.index = UInt64.ofNat i
  hash : current.hash = current.calculateHash C
  previousHash : current.previousHash = previous.hash
  merkleRoot : current.merkleRoot = computeMerkleRoot C current.transactions

theorem CheckedBlock.header {C : Crypto} {i : Nat} {previous current : Block}
    (h : CheckedBlock C i previous current) : CheckedHeader C i previous current :=
  ⟨h.index, h.hash, h.previousHash, h.merkleRoot⟩

/-- The string of one block: the target, once the first four checks are passed. -/
theorem mem_checkBlockTraced {C : Crypto} {i : Nat} {previous current : Block} {d : UInt32} :
    d ∈ (checkBlockTraced C i previous current).trace ↔
      CheckedHeader C i previous current ∧ d = current.difficulty := by
  unfold checkBlockTraced
  constructor
  · intro h
    split_ifs at h with hindex hhash hprevious hroot
    -- nothing is built before the fourth check
    iterate 4 cases h
    all_goals exact ⟨⟨not_not.mp hindex, not_not.mp hhash, not_not.mp hprevious,
      not_not.mp hroot⟩, List.mem_singleton.mp h⟩
  · rintro ⟨h, rfl⟩
    rw [if_neg (not_not.mpr h.index), if_neg (not_not.mpr h.hash),
      if_neg (not_not.mpr h.previousHash), if_neg (not_not.mpr h.merkleRoot)]
    split_ifs <;> exact List.mem_singleton_self _

/-- The strings of `isChainValid`: one for each block it gets to with an
untampered header, after blocks that are valid. -/
theorem mem_isChainValidTraced {C : Crypto} {chain : List Block} {d : UInt32} :
    d ∈ (isChainValidTraced C chain).trace ↔
      ∃ genesis before block after, chain = genesis :: (before ++ block :: after) ∧
        isChainValid C (genesis :: before) = true ∧
        CheckedHeader C (before.length + 1)
          ((genesis :: before).getLast (List.cons_ne_nil _ _)) block ∧
        d = block.difficulty := by
  cases chain with
  | nil => simp [isChainValidTraced]
  | cons genesis rest =>
    constructor
    · intro h
      rw [isChainValidTraced] at h
      split_ifs at h with hprevious hhash hroot
      iterate 3 cases h
      -- the loop got to the block through those before it
      obtain ⟨before, block, after, rfl, hbefore, hd⟩ := Traced.mem_trace_allPairs.mp h
      simp only [checkBlockTraced_passed] at hbefore
      obtain ⟨hheader, rfl⟩ := mem_checkBlockTraced.mp hd
      rw [Nat.add_comm 1] at hheader
      refine ⟨genesis, before, block, after, rfl, isChainValid_cons.mpr ⟨?_, hbefore⟩, hheader, rfl⟩
      exact ⟨not_not.mp hprevious, not_not.mp hhash, not_not.mp hroot⟩
    · rintro ⟨_, before, block, after, hchain, hbefore, hheader, hd⟩
      obtain ⟨rfl, rfl⟩ := List.cons.inj hchain
      obtain ⟨hgenesis, hpairs⟩ := isChainValid_cons.mp hbefore
      rw [isChainValidTraced, if_neg (not_not.mpr hgenesis.previousHash),
        if_neg (not_not.mpr hgenesis.hash), if_neg (not_not.mpr hgenesis.merkleRoot)]
      refine Traced.mem_trace_allPairs.mpr ⟨before, block, after, rfl, ?_, ?_⟩
      · simp only [checkBlockTraced_passed]
        exact hpairs
      · rw [Nat.add_comm 1]
        exact mem_checkBlockTraced.mpr ⟨hheader, hd⟩

/-- The engine builds no string out of range. -/
theorem powTraced_inBounds {C : Crypto} {now : TimePoint} {block previousBlock : Block}
    {d : UInt32} (h : d ∈ (PoWEngine.validateBlockTraced C now block previousBlock).trace) :
    InBounds d := by
  unfold PoWEngine.validateBlockTraced at h
  split_ifs at h with hrange
  iterate 2 cases h
  all_goals
    obtain rfl := List.mem_singleton.mp h
    simpa only [InBounds, not_or, UInt32.not_lt, gt_iff_lt] using hrange

/-- With proof of work the strings out of range are those of `isChainValid`. -/
theorem validateChainTraced_inBounds_iff {C : Crypto} {adjuster : DifficultyAdjuster}
    {now : TimePoint} {chain : List Block} :
    (∀ d ∈ (validateChainTraced ⟨C, some (.pow adjuster)⟩ now chain).trace, InBounds d) ↔
      ∀ d ∈ (isChainValidTraced C chain).trace, InBounds d := by
  -- the engine checks the bounds before it builds the target
  have hengine : ∀ d ∈ (engineAcceptsTraced C now (.pow adjuster) chain).trace, InBounds d := by
    intro d hd
    cases chain with
    | nil => cases hd
    | cons genesis rest =>
      obtain ⟨before, block, after, -, -, hblock⟩ := Traced.mem_trace_allPairs.mp hd
      exact powTraced_inBounds hblock
  constructor
  · exact fun h d hd => h d (Traced.mem_trace_andThen.mpr (Or.inl hd))
  · intro h d hd
    rcases Traced.mem_trace_andThen.mp hd with hfirst | ⟨-, hsecond⟩
    · exact h d hfirst
    · exact hengine d hsecond

/-- The first block behind the genesis block with a difficulty out of range, if
there is one, does not get to its target: a block before it is invalid, or its
own header is wrong. -/
def StoppedInTime (C : Crypto) (chain : List Block) : Prop :=
  ∀ genesis before block after, chain = genesis :: (before ++ block :: after) →
    (∀ earlier ∈ before, InBounds earlier.difficulty) → ¬ InBounds block.difficulty →
    isChainValid C (genesis :: before) = false ∨
      ¬ CheckedHeader C (before.length + 1)
        ((genesis :: before).getLast (List.cons_ne_nil _ _)) block

/-- The static check builds no string out of range exactly when the first block
out of range is stopped in time: behind it the check does not go on, and before
it all are in range. -/
theorem isChainValidTraced_inBounds_iff {C : Crypto} {chain : List Block} :
    (∀ d ∈ (isChainValidTraced C chain).trace, InBounds d) ↔ StoppedInTime C chain := by
  constructor
  · intro h genesis before block after hchain _ hout
    by_contra hnot
    obtain ⟨hvalid, hheader⟩ := not_or.mp hnot
    rw [Bool.not_eq_false] at hvalid
    exact hout (h _ (mem_isChainValidTraced.mpr
      ⟨genesis, before, block, after, hchain, hvalid, not_not.mp hheader, rfl⟩))
  · intro h d hd
    obtain ⟨genesis, before, block, after, hchain, hvalid, hheader, rfl⟩ :=
      mem_isChainValidTraced.mp hd
    have hpairs := (isChainValid_cons.mp hvalid).2
    -- the blocks before it were checked too, so none of them is the first out of range
    -- by induction from the genesis block, each block before it being valid
    suffices hbefore : ∀ earlier ∈ before, InBounds earlier.difficulty by
      by_contra hout
      rcases h genesis before block after hchain hbefore hout with hinvalid | hno
      · exact Bool.false_ne_true (hinvalid.symm.trans hvalid)
      · exact hno hheader
    clear hd hheader
    induction before using List.reverseRecOn generalizing block after with
    | nil => simp
    | append_singleton before last ih =>
      rw [allPairs_append_singleton, Bool.and_eq_true, checkBlock_iff, Nat.add_comm 1] at hpairs
      have hvalid' := isChainValid_cons.mpr ⟨(isChainValid_cons.mp hvalid).1, hpairs.1⟩
      rw [List.append_assoc, List.singleton_append] at hchain
      have hbefore := ih last (block :: after) hchain hvalid' hpairs.1
      intro earlier hmem
      rcases List.mem_append.mp hmem with hmem | hmem
      · exact hbefore earlier hmem
      · obtain rfl := List.mem_singleton.mp hmem
        by_contra hout
        rcases h genesis before earlier _ hchain hbefore hout with hinvalid | hno
        · exact Bool.false_ne_true (hinvalid.symm.trans hvalid')
        · exact hno hpairs.2.header

/-! ## The calls -/

/-- The calls that pass a chain from outside to `validateChainAgainstConsensus`. -/
inductive Offer
  | acceptBlock (block : Block) (bc : Blockchain)
  | replaceChain (newChain : List Block) (bc : Blockchain)
  /-- the constructor, with what `loadChain` returns -/
  | load (difficulty : UInt32) (loaded : List Block)

namespace Offer

/-- The chain the call validates, when it gets that far. -/
def validated (cfg : NodeConfig) : Offer → Option (List Block)
  | acceptBlock block bc =>
    if block.index ≠ UInt64.ofNat bc.chain.length ∨ block.previousHash ≠ bc.tip.hash then none
    else some (bc.chain ++ [block])
  | replaceChain newChain bc => if !bc.prefersChain cfg newChain then none else some newChain
  | load _ loaded => if loaded.isEmpty then none else some loaded

/-- The lengths of the target strings built during the call's validation. -/
def targets (cfg : NodeConfig) (now : TimePoint) (offer : Offer) : List UInt32 :=
  match offer.validated cfg with
  | none => []
  | some chain => (validateChainTraced cfg now chain).trace

/-- The strings of the static check are among those of the call. -/
theorem mem_targets {cfg : NodeConfig} {now : TimePoint} {offer : Offer} {chain : List Block}
    (hchain : offer.validated cfg = some chain) {d : UInt32}
    (hd : d ∈ (isChainValidTraced cfg.crypto chain).trace) : d ∈ offer.targets cfg now := by
  rw [targets, hchain]
  exact Traced.mem_trace_andThen.mpr (Or.inl hd)

/-- The call takes in what it is offered. -/
def Taken (cfg : NodeConfig) (now : TimePoint) : Offer → Prop
  | acceptBlock block bc => (bc.acceptBlock cfg now block).ret = true
  | replaceChain newChain bc => (bc.replaceChain cfg now newChain).ret = true
  -- a new genesis block would be saved
  | load difficulty loaded =>
    ∃ out, Blockchain.create cfg now difficulty (some loaded) = some out ∧ out.effects = []

/-- The constructor keeps what was loaded exactly when it is valid. -/
theorem create_loads_iff {cfg : NodeConfig} {now : TimePoint} {difficulty : UInt32}
    {loaded : List Block} :
    (∃ out, Blockchain.create cfg now difficulty (some loaded) = some out ∧ out.effects = []) ↔
      validateChainAgainstConsensus cfg now loaded = true := by
  unfold Blockchain.create
  constructor
  · rintro ⟨out, hout, heffects⟩
    split_ifs at hout with hvalid
    · exact hvalid
    · -- a new genesis block is saved
      split at hout
      · cases hout
      · cases hout
        cases heffects
  · intro hvalid
    have hpersisted : validateChainAgainstConsensus cfg now ((some loaded).getD []) = true := hvalid
    rw [dif_pos hpersisted]
    exact ⟨_, rfl, rfl⟩

/-- What a call answers is the answer of the traced validation. -/
theorem taken_iff {cfg : NodeConfig} {now : TimePoint} {offer : Offer} :
    offer.Taken cfg now ↔
      ∃ chain, offer.validated cfg = some chain ∧
        (validateChainTraced cfg now chain).passed = true := by
  simp only [validateChainTraced_passed]
  cases offer with
  | acceptBlock block bc =>
    rw [Taken, Blockchain.acceptBlock_ret, validated]
    constructor
    · intro h
      rw [if_neg (by simp [h.index, h.previousHash])]
      exact ⟨_, rfl, h.valid⟩
    · rintro ⟨chain, hchain, hvalid⟩
      split_ifs at hchain with hlinked
      cases hchain
      rw [not_or, not_not, not_not] at hlinked
      exact ⟨hlinked.1, hlinked.2, hvalid⟩
  | replaceChain newChain bc =>
    rw [Taken, Blockchain.replaceChain_ret, validated]
    constructor
    · intro h
      rw [if_neg (by simp [h.preferred])]
      exact ⟨_, rfl, h.valid⟩
    · rintro ⟨chain, hchain, hvalid⟩
      split_ifs at hchain with hpreferred
      cases hchain
      exact ⟨by simpa using hpreferred, hvalid⟩
  | load difficulty loaded =>
    -- an empty chain is not validated, and would not pass
    rw [Taken, create_loads_iff, validated]
    constructor
    · intro hvalid
      have hne := ne_nil_of_validate hvalid
      exact ⟨loaded, by simp [hne], hvalid⟩
    · rintro ⟨chain, hchain, hvalid⟩
      split_ifs at hchain
      cases hchain
      exact hvalid

end Offer

/-- **When the difficulty is range-checked before use.** With proof of work a
call builds target strings of 1 to 64 characters only, exactly when the first
block out of range of the chain it validates is stopped by what comes before the
target; the range check of the engine comes too late. Whoever finds a hash for a
block that links to the chain decides how long a string the node fills. -/
theorem targets_in_bounds_iff (C : Crypto) (adjuster : DifficultyAdjuster) (now : TimePoint)
    (offer : Offer) :
    (∀ d ∈ offer.targets ⟨C, some (.pow adjuster)⟩ now, InBounds d) ↔
      ∀ chain, offer.validated ⟨C, some (.pow adjuster)⟩ = some chain →
        StoppedInTime C chain := by
  unfold Offer.targets
  cases offer.validated ⟨C, some (.pow adjuster)⟩ with
  | none => simp
  | some chain =>
    rw [validateChainTraced_inBounds_iff, isChainValidTraced_inBounds_iff]
    simp

/-! ## A block of difficulty 4294967295 -/

section Sample

/-- A block of the largest difficulty, with the hash of its header. -/
def hugeBlock : Block where
  index := 1
  timestamp := "2026-03-14T12:00:00Z"
  previousHash := powGenesis.hash
  transactions := [sampleReward1]
  merkleRoot := sampleReward1.txID
  nonce := 0
  difficulty := 4294967295
  hash := "28b7f82596995225b8cfb183e34c64b333ad7a2b6cc11caae3278853dba50587"

/-- The digests of the block and of the genesis block, under proof of work. -/
def hugeConfig : NodeConfig where
  crypto := .ofTable
    ([(buildTxCore sampleGenesisReward, sampleGenesisReward.txID),
      (hugeBlock.headerString, hugeBlock.hash)] ++
      powGenesisHashes.mapIdx fun i hash =>
        (Block.headerString { powGenesis with nonce := UInt64.ofNat i }, hash)) []
  consensusEngine := some (.pow {})

/-- The node starts on the genesis block of difficulty 1. -/
theorem hugeGenesis_created : Block.createGenesis hugeConfig.crypto 1 = some powGenesis := by
  refine powGenesis_ofTable List.lookup_cons_self ?_
  simp only [List.forall_mem_cons, List.not_mem_nil, false_implies, implies_true, and_true]
  exact ⟨rewardCore_head rfl, headerString_head (by decide)⟩

/-- The block links to the tip, so the chain with it is validated. -/
theorem hugeBlock_validated : (Offer.acceptBlock hugeBlock powStart).validated hugeConfig =
    some [powGenesis, hugeBlock] := by
  have hlinked : ¬ (hugeBlock.index ≠ UInt64.ofNat powStart.chain.length ∨
      hugeBlock.previousHash ≠ powStart.tip.hash) := by decide
  rw [Offer.validated, if_neg hlinked]
  rfl

theorem hugeBlock_header : CheckedHeader hugeConfig.crypto 1 powGenesis hugeBlock :=
  ⟨rfl, by decide +kernel, rfl, by decide +kernel⟩

end Sample

/-- A new node is offered the block and fills a string of four gigabytes. -/
theorem targets_in_bounds_counterexample :
    Starts hugeConfig (sampleTime 0) 1 none powStart ∧
      4294967295 ∈ (Offer.acceptBlock hugeBlock powStart).targets hugeConfig (sampleTime 1) ∧
      ¬ InBounds 4294967295 := by
  have hgenesis : isChainValid hugeConfig.crypto [powGenesis] = true := by decide +kernel
  have hbuilt : hugeBlock.difficulty ∈
      (isChainValidTraced hugeConfig.crypto [powGenesis, hugeBlock]).trace :=
    mem_isChainValidTraced.mpr
      ⟨powGenesis, [], hugeBlock, [], rfl, hgenesis, hugeBlock_header, rfl⟩
  have hout : ¬ InBounds hugeBlock.difficulty := by
    rintro ⟨-, hle⟩
    revert hle
    decide
  exact ⟨starts_freshNode hugeGenesis_created _, Offer.mem_targets hugeBlock_validated hbuilt, hout⟩

end PersonalBlockchain
