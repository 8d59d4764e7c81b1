import Std.Data.String.ToNat
import PersonalBlockchain.Ledger.LocalBlocks
import PersonalBlockchain.Model.Validity

/-!
# Personal blockchain — a node and its own blocks

Mining does not validate what it appends. Under proof of work the block it
builds passes every check of `acceptBlock` but possibly one: it is stamped with
the clock, while a block from the network may be stamped up to 120 seconds
ahead of it, and the check wants timestamps that do not decrease. A node that
mines while its tip is ahead of its clock appends a block it would itself
reject, and then holds an invalid chain. It never does exactly when it only
mines on tips that are not ahead.

## Results

* `mined_accepts_iff` — on a valid chain a mined block would be accepted exactly
  when the tip is not ahead of the clock;
* `acceptsItsOwn_history` — a history that mines on no tip ahead leaves a chain
  that stays valid;
* `mined_blocks_accepted_iff` — every mined block is one the node would accept, and
  its chain stays valid, exactly when it mines on no tip ahead of its clock;
* `mined_blocks_counterexample` — a block mined 67 seconds behind its tip.
-/

namespace PersonalBlockchain

open Machine Blockchain AdjacentPairs

/-- The chain of the node is valid from `now` on: time alone does not spoil a
chain, but the question is asked at every later instant. -/
def StaysValid (cfg : NodeConfig) (now : TimePoint) (bc : Blockchain) : Prop :=
  ∀ later, now ≤ later → bc.isChainValid cfg later = true

/-- The clock never goes back, from the construction of the node on. -/
def ClockRuns (now : TimePoint) (tr : List NodeEntry) : Prop :=
  (now :: tr.map fun e => e.call.now).Pairwise (· ≤ ·)

/-- The block a call mined would have been accepted in the same state at that
instant, and the node is left with a chain that stays valid. -/
structure AcceptsItsOwn (cfg : NodeConfig) (e : NodeEntry) : Prop where
  accepted : ∀ minerAddress block, e.call.op = .minePendingTransactions minerAddress →
    e.ret.answer = .block block → (e.pre.acceptBlock cfg e.call.now block).ret = true
  valid : StaysValid cfg e.call.now e.post

/-- A call mines only on a tip whose timestamp is not ahead of the clock. -/
def TipNotAhead (e : NodeEntry) : Prop :=
  ∀ minerAddress, e.call.op = .minePendingTransactions minerAddress →
    parseTimestamp e.pre.tip.timestamp ≤ e.call.now.seconds

/-! ## Validity over time -/

variable {cfg : NodeConfig} {adjuster : DifficultyAdjuster}

/-- Readings of the clock are ordered by their nanoseconds. -/
theorem TimePoint.le_trans {s t u : TimePoint} (hst : s ≤ t) (htu : t ≤ u) : s ≤ u :=
  Nat.le_trans hst htu

/-- A genesis block is a valid chain. -/
theorem validate_genesis {difficulty : UInt32} {genesis : Block}
    (h : Block.createGenesis cfg.crypto difficulty = some genesis) (now : TimePoint) :
    validateChainAgainstConsensus cfg now [genesis] = true := by
  obtain ⟨hprevious, -, hroot, hhash⟩ := Block.createGenesis_spec h
  rw [validate_iff, isChainValid_cons]
  exact ⟨⟨⟨hprevious, hhash, hroot⟩, rfl⟩, fun _ _ => rfl⟩

/-- A new node has validated the chain it loaded, or has its genesis block
alone. -/
theorem staysValid_start {now : TimePoint} {difficulty : UInt32}
    {persisted : Option (List Block)} {start : Blockchain}
    (hstart : Starts cfg now difficulty persisted start) : StaysValid cfg now start := by
  intro later hle
  obtain ⟨-, -, ⟨-, hvalid, -⟩ | ⟨-, genesis, hgenesis, hchain, -⟩⟩ := start_cases hstart
  · exact validate_mono hle hvalid
  · rw [Blockchain.isChainValid, hchain]
    exact validate_genesis hgenesis later

/-! ## The mined block -/

/-- The bounds a difficulty needs. -/
def InBounds (difficulty : UInt32) : Prop := 1 ≤ difficulty ∧ difficulty ≤ 64

/-- The adjuster keeps difficulties in these bounds. -/
structure AdjusterInBounds (adjuster : DifficultyAdjuster) : Prop where
  min : InBounds adjuster.minDifficulty
  max : adjuster.maxDifficulty ≤ 64

/-- The next difficulty is in bounds when the current one and those of the
adjuster are. -/
theorem blockDifficulty_inBounds (hcfg : cfg.consensusEngine = some (.pow adjuster))
    (hadj : AdjusterInBounds adjuster) {bc : Blockchain} (hdiff : InBounds bc.difficulty) :
    InBounds (bc.blockDifficulty cfg) := by
  rw [blockDifficulty, hcfg]
  exact DifficultyAdjuster.calculateNextDifficulty_bounds hadj.min hadj.max hdiff

/-- A mined block is stamped with the clock. -/
theorem Blockchain.Mined.timestamp {now : TimePoint} {minerAddress : String}
    {bc bc' : Blockchain} {block : Block} (hm : Mined cfg now minerAddress bc block bc') :
    block.timestamp = currentTimestamp now :=
  (sealBlock_spec hm.sealed).2.2.2.1

/-- **The mined block passes every check but one.** On a valid chain it would
be accepted exactly when the tip is not ahead of the clock. -/
theorem mined_accepts_iff (hcfg : cfg.consensusEngine = some (.pow adjuster))
    (hadj : AdjusterInBounds adjuster) {now : TimePoint} {minerAddress : String}
    {bc bc' : Blockchain} {block : Block} (hdiff : InBounds bc.difficulty)
    (hpending : ∀ tx ∈ bc.mempool, tx.verify cfg.crypto = true)
    (hvalid : bc.isChainValid cfg now = true)
    (hm : Mined cfg now minerAddress bc block bc') :
    Accepts cfg now block bc ↔ parseTimestamp bc.tip.timestamp ≤ now.seconds := by
  have hsealed := hm.sealed
  simp only [sealBlock, hcfg, ConsensusEngine.sealBlock] at hsealed
  have hmined := Block.mineBlock_spec hsealed
  have hstamp : parseTimestamp block.timestamp = now.seconds := by
    rw [hm.timestamp, parseTimestamp_currentTimestamp]
  have htransactions : block.hasValidTransactions cfg.crypto = true :=
    List.all_eq_true.mpr (hm.verified hpending)
  have hroot : block.merkleRoot = computeMerkleRoot cfg.crypto block.transactions := by
    rw [hmined.merkleRoot, hmined.transactions]
  rw [accepts_iff]
  constructor
  · -- the engine compares the timestamps, and the block carries the clock's
    rintro ⟨-, -, hengine⟩
    have hpow := powValid_iff.mp (hengine _ hcfg)
    rw [← hstamp]
    exact hpow.notBefore
  · intro hahead
    -- all other checks the block passes, being mined here
    have hinBounds : InBounds block.difficulty := by
      rw [hmined.difficulty]
      exact blockDifficulty_inBounds hcfg hadj hdiff
    have hnotBefore : parseTimestamp bc.tip.timestamp ≤ parseTimestamp block.timestamp := by
      rw [hstamp]
      exact hahead
    have hnotAhead : parseTimestamp block.timestamp ≤ now.seconds + 120 := by
      rw [hstamp]
      omega
    refine ⟨hvalid, ⟨hmined.index, hmined.hash, hmined.previousHash, hroot, hmined.target,
      htransactions⟩, fun engine hengine => ?_⟩
    obtain rfl : .pow adjuster = engine := Option.some.inj (hcfg.symm.trans hengine)
    exact powValid_iff.mpr ⟨hinBounds, hmined.hash, hmined.target, hmined.previousHash, hroot,
      hnotBefore, hnotAhead, htransactions⟩

/-! ## Histories -/

/-- A call keeps the difficulty of the node in bounds: only mining sets it. -/
theorem difficulty_inBounds_step (hcfg : cfg.consensusEngine = some (.pow adjuster))
    (hadj : AdjusterInBounds adjuster) {call : Call} {bc bc' : Blockchain} {r : Reply}
    (hI : InBounds bc.difficulty) (h : step cfg call bc = some (r, bc')) :
    InBounds bc'.difficulty := by
  cases step_cases h with
  | unchanged => exact hI
  | queued tx _ _ => exact hI
  | mined minerAddress block _ _ hm =>
    rw [hm.difficulty]
    exact blockDifficulty_inBounds hcfg hadj hI
  | received block _ _ => exact hI
  | adopted newChain _ _ _ => exact hI

/-- **Step lemma.** A call that mines on no tip ahead of the clock mines a block
the node would accept, if it mines one, and leaves a chain that stays valid. -/
theorem acceptsItsOwn_step (hcfg : cfg.consensusEngine = some (.pow adjuster))
    (hadj : AdjusterInBounds adjuster) {call : Call} {bc bc' : Blockchain} {r : Reply}
    (hstep : step cfg call bc = some (r, bc')) (hdiff : InBounds bc.difficulty)
    (hpending : ∀ tx ∈ bc.mempool, tx.verify cfg.crypto = true)
    (hvalid : bc.isChainValid cfg call.now = true) (htip : TipNotAhead ⟨bc, call, r, bc'⟩) :
    AcceptsItsOwn cfg ⟨bc, call, r, bc'⟩ := by
  have hmined : ∀ minerAddress block, Mined cfg call.now minerAddress bc block bc' →
      call.op = .minePendingTransactions minerAddress → Accepts cfg call.now block bc :=
    fun minerAddress block hm hop =>
      (mined_accepts_iff hcfg hadj hdiff hpending hvalid hm).mpr (htip minerAddress hop)
  refine ⟨fun minerAddress block hop hret => ?_, ?_⟩
  · obtain ⟨block', hret', hm⟩ := step_mines hop hstep
    obtain rfl : block = block' := Answer.block.inj (hret.symm.trans hret')
    exact acceptBlock_ret.mpr (hmined minerAddress block hm hop)
  · intro later hle
    refine validate_mono hle ?_
    show validateChainAgainstConsensus cfg call.now bc'.chain = true
    -- whatever replaced the chain had been validated
    cases step_cases hstep with
    | unchanged => exact hvalid
    | queued tx _ _ => exact hvalid
    | mined minerAddress block _ hop hm =>
      rw [hm.chain]
      exact (hmined minerAddress block hm hop).valid
    | received block _ hacc => exact hacc.valid
    | adopted newChain _ _ hado => exact hado.valid

/-- Along a history that mines on no tip ahead of the clock, every call leaves
a chain that stays valid. -/
theorem acceptsItsOwn_history (hcfg : cfg.consensusEngine = some (.pow adjuster))
    (hadj : AdjusterInBounds adjuster) {now : TimePoint} {difficulty : UInt32}
    {persisted : Option (List Block)} {start bc : Blockchain} {tr : List NodeEntry}
    (hdiff : InBounds difficulty) (hstart : Starts cfg now difficulty persisted start)
    (hist : History cfg start tr bc) (hclock : ClockRuns now tr)
    (htips : ∀ e ∈ tr, TipNotAhead e) :
    (∀ e ∈ tr, AcceptsItsOwn cfg e) ∧ InBounds bc.difficulty ∧
      ∀ later, (∀ t ∈ now :: tr.map fun e => e.call.now, t ≤ later) →
        bc.isChainValid cfg later = true := by
  induction hist with
  | nil =>
    have hstays := staysValid_start hstart
    refine ⟨by simp, ?_, fun later hlater => hstays later (hlater now (by simp))⟩
    rw [(start_cases hstart).1]
    exact hdiff
  | @snoc tr bc bc' call r hist hstep ih =>
    rw [ClockRuns, List.map_append, ← List.cons_append, List.pairwise_append] at hclock
    obtain ⟨hbefore, hbounds, hvalid⟩ :=
      ih hclock.1 fun e he => htips e (List.mem_append_left _ he)
    -- the call reads a clock no earlier than every reading before it
    have hvalidNow : bc.isChainValid cfg call.now = true :=
      hvalid _ fun t ht => hclock.2.2 t ht _ (List.mem_singleton_self _)
    have htip : TipNotAhead ⟨bc, call, r, bc'⟩ :=
      htips _ (List.mem_append_right _ (List.mem_singleton_self _))
    have hlast := acceptsItsOwn_step hcfg hadj hstep hbounds (pending_verified hstart hist)
      hvalidNow htip
    refine ⟨?_, difficulty_inBounds_step hcfg hadj hbounds hstep, fun later hlater => ?_⟩
    · intro e he
      rcases List.mem_append.mp he with he | he
      · exact hbefore e he
      · rw [List.mem_singleton.mp he]
        exact hlast
    · exact hlast.valid later (hlater _ (by simp))

/-- **When a node accepts its own blocks.** A node under proof of work, with
difficulties in 1..64, starts with a chain that stays valid. Along every
history whose clock never goes back, every block it mines is one it would have
accepted itself and its chain stays valid after every call, if and only if it
never mines on a tip that is ahead of its clock. -/
theorem mined_blocks_accepted_iff (hcfg : cfg.consensusEngine = some (.pow adjuster))
    (hadj : AdjusterInBounds adjuster) {now : TimePoint} {difficulty : UInt32}
    {persisted : Option (List Block)} {start bc : Blockchain} {tr : List NodeEntry}
    (hdiff : InBounds difficulty) (hstart : Starts cfg now difficulty persisted start)
    (hist : History cfg start tr bc) (hclock : ClockRuns now tr) :
    StaysValid cfg now start ∧
      ((∀ e ∈ tr, AcceptsItsOwn cfg e) ↔ ∀ e ∈ tr, TipNotAhead e) := by
  refine ⟨staysValid_start hstart, fun hown e he minerAddress hop => ?_, fun htips =>
    (acceptsItsOwn_history hcfg hadj hdiff hstart hist hclock htips).1⟩
  -- a mined block that is accepted was not stamped before the tip
  obtain ⟨block, hret, hm⟩ := step_mines hop (hist.entry e he).1
  have hacc := acceptBlock_ret.mp ((hown e he).accepted minerAddress block hop hret)
  obtain ⟨-, -, hengine⟩ := accepts_iff.mp hacc
  have hpow := powValid_iff.mp (hengine _ hcfg)
  rw [← parseTimestamp_currentTimestamp, ← hm.timestamp]
  exact hpow.notBefore

/-! ## Mining on a tip 67 seconds ahead

A node of difficulty 1 accepts a block stamped 83 seconds ahead and mines 16
seconds later. -/

section Sample

/-- The genesis block of difficulty 1. -/
def powGenesis : Block where
  index := 0
  timestamp := "2026-01-01T00:00:00Z"
  previousHash := "0000000000000000000000000000000000000000000000000000000000000000"
  transactions := [sampleGenesisReward]
  merkleRoot := sampleGenesisReward.txID
  nonce := 11
  difficulty := 1
  hash := "0a16966c593ce456fac5db3e6d26da80d44b98e7876c49af65eb144d652d5ddf"

/-- The hashes of the genesis block for the nonces 0, 1, …, 11. -/
def powGenesisHashes : List String :=
  ["8119fe8c46f60175e9ebf6d45ec3534b4cf0bd730750165f4488b4db926683c0",
    "bbcc0cb772ae80e8775bb909f0d30c85f6cda4dbc2fd899245508bff9212ba81",
    "72c3a90eafc49759d74da9c4a0da79343e0bfe05ecd215a2feadd4f5dc204c82",
    "1cbdae22db691414d7c410e4b11f0c5ff938ea67b1c316a906d383c1d7a543a8",
    "e9142d69ccd5cb76e7256bb97c0968da929656b193dc0bc99a7a45ccb3d3c534",
    "b45034e9bb96dd31749cadc25077f416212f0750526c3067fd30434848e2cdeb",
    "fff636d1af9ec559a819b753872ec3b30e7b186955ddfea7b4f2ee7c0c3e9f99",
    "c4e161c0758585544eadbf06323262b22a6372adebba7176c7e2b7c94336733f",
    "4cd9b9ed37b6a8e0e8f7ad7348bb0681ab6d646b5e5e429dfe6445dbd27b7482",
    "6b74964b4f3594f40ab6105c32f6d8e41967cd43aedd3ba6b275a53ec2832cdf",
    "33d5f171069140864c3630b9d5193145f85ee52ba9e8579d03c564ade8a95673",
    "0a16966c593ce456fac5db3e6d26da80d44b98e7876c49af65eb144d652d5ddf"]

theorem powGenesis_header_ne {i j : Nat} (hi : i < 12) (hj : j < i) :
    Block.headerString { powGenesis with nonce := UInt64.ofNat i } ≠
      Block.headerString { powGenesis with nonce := UInt64.ofNat j } := by
  intro hsame
  have hnonce := (String.append_right_inj _).mp ((String.append_left_inj _).mp hsame)
  have hnat : (UInt64.ofNat i).toNat = (UInt64.ofNat j).toNat := Nat.repr_injective hnonce
  have hsize : 12 ≤ UInt64.size := by decide
  rw [UInt64.toNat_ofNat_of_lt' (by omega), UInt64.toNat_ofNat_of_lt' (by omega)] at hnat
  omega

theorem powGenesisHashes_meets :
    ∀ k : Fin 12, substr0 powGenesisHashes[k] 1 = "0" ↔ k = 11 := by
  decide +kernel

/-- The genesis block is found at nonce 11, whatever else is hashed. -/
theorem powGenesis_found {C : Crypto}
    (hreward : C.sha256 (buildTxCore sampleGenesisReward) = sampleGenesisReward.txID)
    (hhashes : ∀ k : Fin 12,
      C.sha256 (Block.headerString { powGenesis with nonce := UInt64.ofNat k }) =
        powGenesisHashes[k]) :
    Block.createGenesis C 1 = some powGenesis := by
  have hcoinbase : Block.genesisCoinbase C = sampleGenesisReward := by
    rw [Block.genesisCoinbase, Transaction.computeTxID]
    exact congrArg (fun id => { sampleGenesisReward with txID := id }) hreward
  have hat : ∀ k : Fin 12, powGenesis.atNonce C k =
      { powGenesis with nonce := UInt64.ofNat k, hash := powGenesisHashes[k] } := by
    intro k
    rw [Block.atNonce, Block.calculateHash, hhashes]
  have hmeets : ∀ k : Fin 12, (powGenesis.atNonce C k).meetsTarget = true ↔ k = 11 := by
    intro k
    rw [hat, ← powGenesisHashes_meets]
    exact decide_eq_true_iff
  -- the twelfth nonce is the first whose hash meets the target
  have hfound := @Block.mineLoop_found C powGenesis 11 ((hmeets 11).mpr rfl)
    (fun k hk => Bool.eq_false_iff.mpr fun h => by
      have heq := (hmeets ⟨k, by omega⟩).mp h
      exact absurd (congrArg Fin.val heq) (by simp; omega)) (2 ^ 64) 0 (by omega) (by omega)
  rw [Block.createGenesis, hcoinbase]
  refine hfound.trans (congrArg some (hat 11))

theorem rewardCore_head {tx : Transaction} (h : tx.senderPublicKey = "COINBASE") :
    (buildTxCore tx).toList.head? ≠ some '0' := by
  simp [buildTxCore, h]

theorem headerString_head {b : Block} (h : (Nat.toDigits 10 b.index.toNat).head? ≠ some '0') :
    b.headerString.toList.head? ≠ some '0' := by
  obtain ⟨c, rest, hdigits⟩ := List.exists_cons_of_ne_nil
    (show Nat.toDigits 10 b.index.toNat ≠ [] from Nat.toDigits_ne_nil)
  rw [hdigits] at h
  simpa [Block.headerString, hdigits] using h

/-- A table for a node of difficulty 1. No other string hashed begins with the
index of the genesis block. -/
theorem powGenesis_ofTable {front : List (String × String)}
    {signed : List (String × String × String)}
    (hreward : front.lookup (buildTxCore sampleGenesisReward) = some sampleGenesisReward.txID)
    (hfront : ∀ entry ∈ front, entry.1.toList.head? ≠ some '0') :
    Block.createGenesis (.ofTable (front ++ powGenesisHashes.mapIdx fun i hash =>
      (Block.headerString { powGenesis with nonce := UInt64.ofNat i }, hash)) signed) 1 =
      some powGenesis := by
  refine powGenesis_found ?_ fun k => ?_
  · simp only [Crypto.ofTable, Crypto.tableDigest, List.lookup_append, hreward, Option.some_or]
  -- the header starts with the index 0, and no string of the front does
  · have hnone : front.lookup (Block.headerString { powGenesis with nonce := UInt64.ofNat k }) =
        none := by
      refine List.lookup_eq_none_iff.mpr fun entry hentry => bne_iff_ne.mpr fun hsame => ?_
      refine hfront entry hentry ?_
      rw [← hsame]
      simp [Block.headerString, powGenesis]
    have hlookup := @Crypto.lookup_mapIdx
      (fun i => Block.headerString { powGenesis with nonce := UInt64.ofNat i }) powGenesisHashes
      k k.isLt fun j hj => powGenesis_header_ne k.isLt hj
    simp only [Crypto.ofTable, Crypto.tableDigest, List.lookup_append, hnone, Option.none_or,
      hlookup]
    rfl

/-- The reward of the block that is ahead. -/
def aheadReward : Transaction :=
  sampleReward "3433f1f0ee3b4065dad7f383d09610dc5149eb424929e92a4680ed13c86f30e1"
    "2026-03-14T12:01:23Z"

/-- A block stamped at 12:01:23. -/
def aheadBlock : Block where
  index := 1
  timestamp := "2026-03-14T12:01:23Z"
  previousHash := powGenesis.hash
  transactions := [aheadReward]
  merkleRoot := aheadReward.txID
  nonce := 0
  difficulty := 1
  hash := "01b5a7940a0c2bf42871d802ee4140108b9dbc94753dc5333202d14a36277959"

/-- The reward of the block the node mines on it. -/
def behindReward : Transaction :=
  { sampleReward "6c75cb185ac02bc55dd952b839bf1b8ee789971bcb8253f34cfe64bdd2823128"
    "2026-03-14T12:00:16Z" with toAddress := samplePayee }

/-- The block the node mines on it. -/
def behindBlock : Block where
  index := 2
  timestamp := "2026-03-14T12:00:16Z"
  previousHash := aheadBlock.hash
  transactions := [behindReward]
  merkleRoot := behindReward.txID
  nonce := 0
  difficulty := 1
  hash := "0091b19c104494c23df680e0c073da40374d064d0b7ce8e92d5bf8cf4df550ae"

/-- The digests of the three blocks, under proof of work with the default
adjuster. -/
def powConfig : NodeConfig where
  crypto := .ofTable
    ([(buildTxCore sampleGenesisReward, sampleGenesisReward.txID),
      (buildTxCore aheadReward, aheadReward.txID), (aheadBlock.headerString, aheadBlock.hash),
      (buildTxCore behindReward, behindReward.txID),
      (behindBlock.headerString, behindBlock.hash)] ++
      powGenesisHashes.mapIdx fun i hash =>
        (Block.headerString { powGenesis with nonce := UInt64.ofNat i }, hash)) []
  consensusEngine := some (.pow {})

/-- The node starts on the genesis block of difficulty 1. -/
theorem powGenesis_created : Block.createGenesis powConfig.crypto 1 = some powGenesis := by
  refine powGenesis_ofTable List.lookup_cons_self ?_
  simp only [List.forall_mem_cons, List.not_mem_nil, false_implies, implies_true, and_true]
  exact ⟨rewardCore_head rfl, rewardCore_head rfl, headerString_head (by decide),
    rewardCore_head rfl, headerString_head (by decide)⟩

/-- The node that has mined it. -/
def powStart : Blockchain := freshNode 1 powGenesis

/-- At 12:00:00 the node accepts the block, which is 83 seconds ahead. -/
theorem aheadBlock_accepted : Accepts powConfig (sampleTime 0) aheadBlock powStart :=
  ⟨rfl, rfl, by decide +kernel⟩

theorem behindBlock_mined :
    sealBlock powConfig ((powStart.receive aheadBlock).candidateBlock powConfig (sampleTime 16)
      samplePayee) = some behindBlock := by
  decide +kernel

/-- It would not have accepted that one: its timestamp is before that of the
tip. -/
theorem behindBlock_rejected :
    ¬ Accepts powConfig (sampleTime 16) behindBlock (powStart.receive aheadBlock) := by
  intro hacc
  obtain ⟨-, -, hengine⟩ := accepts_iff.mp hacc
  have hbefore := (powValid_iff.mp (hengine _ rfl)).notBefore
  revert hbefore
  show ¬ parseTimestamp aheadBlock.timestamp ≤ parseTimestamp behindBlock.timestamp
  decide +kernel

/-- The two calls are a history of the node, with a clock that runs forward. -/
theorem behind_history : ∃ tr bc, History powConfig powStart tr bc ∧ ClockRuns (sampleTime 0) tr ∧
    ∃ e ∈ tr, ¬ AcceptsItsOwn powConfig e := by
  obtain ⟨r, bc, hstep, hanswer⟩ := exists_step_of_sealed behindBlock_mined
  refine ⟨_, bc, Run.snoc (Run.snoc Run.nil (step_acceptBlock aheadBlock_accepted)) hstep, ?_, _,
    List.mem_append_right _ (List.mem_singleton_self _), fun hown => ?_⟩
  · simp only [ClockRuns, List.nil_append, List.map_append, List.map_cons, List.map_nil]
    decide
  · exact behindBlock_rejected (acceptBlock_ret.mp (hown.accepted samplePayee behindBlock rfl
      hanswer))

theorem powAdjuster_inBounds : AdjusterInBounds {} := ⟨⟨by decide, by decide⟩, by decide⟩

end Sample

/-- The node mines a block that it would reject. -/
theorem mined_blocks_counterexample :
    ¬ ∀ (cfg : NodeConfig) (adjuster : DifficultyAdjuster) (now : TimePoint) (difficulty : UInt32)
      (persisted : Option (List Block)) (start bc : Blockchain) (tr : List NodeEntry),
      cfg.consensusEngine = some (.pow adjuster) → AdjusterInBounds adjuster →
      InBounds difficulty → Starts cfg now difficulty persisted start →
      History cfg start tr bc → ClockRuns now tr → ∀ e ∈ tr, AcceptsItsOwn cfg e := by
  intro h
  obtain ⟨tr, bc, hist, hclock, e, he, hno⟩ := behind_history
  exact hno (h powConfig {} (sampleTime 0) 1 none powStart bc tr rfl powAdjuster_inBounds
    ⟨by decide, by decide⟩ (starts_freshNode powGenesis_created _) hist hclock e he)

/-- The theorem on that history: the second call mines on a tip ahead of the
clock. -/
theorem mined_blocks_accepted_iff_sample :
    ∃ (tr : List NodeEntry) (bc : Blockchain), History powConfig powStart tr bc ∧
      StaysValid powConfig (sampleTime 0) powStart ∧ ¬ ∀ e ∈ tr, TipNotAhead e := by
  obtain ⟨tr, bc, hist, hclock, e, he, hno⟩ := behind_history
  obtain ⟨hstart, hiff⟩ := mined_blocks_accepted_iff rfl powAdjuster_inBounds
    ⟨by decide, by decide⟩ (starts_freshNode powGenesis_created (sampleTime 0)) hist hclock
  exact ⟨tr, bc, hist, hstart, fun htips => hno (hiff.mpr htips e he)⟩

end PersonalBlockchain
