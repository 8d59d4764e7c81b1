import PersonalBlockchain.Lib.Binary64
import PersonalBlockchain.Model.Block

/-!
# Personal blockchain — consensus engines

`IConsensusEngine` with its two implementations, `PoWEngine` (the only one the
node starts) and the `PoSEngine` skeleton, and the `DifficultyAdjuster` behind
proof of work.

A retarget is computed in `double`, and each of its operations rounds
(`Rounding.binary64`). The computation is written once for any rounding, so that
it can be compared with the same computation in exact rationals. What the casts
leave undefined (a rounded difficulty below 0 or from 2³² on, an expected span
beyond 64 bits) has some value here and is told apart where it matters.

* `powValid_iff` — the conditions of `PoWEngine::validateBlock`;
* `PoWValid.mono` — a block that passes now passes at every later time;
* `calculateNextDifficulty_bounds` — the next difficulty is the current one or
  within the configured bounds.
-/

namespace PersonalBlockchain

/-! ## Difficulty adjustment -/

/-- `DifficultyAdjuster`, with the defaults of its constructor. -/
structure DifficultyAdjuster where
  targetBlockTimeSec : UInt32 := 10
  windowSize : UInt32 := 10
  maxAdjustmentFactor : Binary64.Double := 4
  minDifficulty : UInt32 := 1
  maxDifficulty : UInt32 := 8

namespace DifficultyAdjuster

/-- `std::round`: halfway cases go away from zero. -/
def stdRound (q : ℚ) : Int :=
  if 0 ≤ q then ⌊q + 1 / 2⌋ else -⌊-q + 1 / 2⌋

/-- `shouldRetarget`: once for every window of blocks behind the genesis. A
window of 0 divides by zero in the source; here it never retargets. -/
def shouldRetarget (adj : DifficultyAdjuster) (chainLength : Nat) : Bool :=
  if chainLength ≤ 1 then false
  else (chainLength - 1) % adj.windowSize.toNat = 0

/-- `newDiffExact`, the difficulty that a window of `actualTimeSpan > 0` seconds asks
for, with the operations rounded by `R`. The window and the target are 32 bits wide and
the difficulty too, so that only the spans are rounded when they become doubles. -/
def newDiffExactIn (R : Rounding) (adj : DifficultyAdjuster) (actualTimeSpan : Int)
    (currentDifficulty : UInt32) : ℚ :=
  let expectedTimeSpan : Int := adj.windowSize.toNat * adj.targetBlockTimeSec.toNat
  let ratio := R.round (R.round expectedTimeSpan / R.round actualTimeSpan)
  let clampedRatio :=
    max (R.round (1 / adj.maxAdjustmentFactor.val)) (min adj.maxAdjustmentFactor.val ratio)
  R.round (currentDifficulty.toNat * clampedRatio)

/-- The retargeted difficulty: rounded to a whole number, cast to 32 bits and only then
clamped to the configured bounds. -/
def retargetIn (R : Rounding) (adj : DifficultyAdjuster) (actualTimeSpan : Int)
    (currentDifficulty : UInt32) : UInt32 :=
  let newDifficulty :=
    UInt32.ofNat (stdRound (adj.newDiffExactIn R actualTimeSpan currentDifficulty)).toNat
  max adj.minDifficulty (min adj.maxDifficulty newDifficulty)

/-- `calculateNextDifficulty`, with the operations of a retarget rounded by `R`. -/
def calculateNextDifficultyIn (R : Rounding) (adj : DifficultyAdjuster) (chain : List Block)
    (currentDifficulty : UInt32) : UInt32 :=
  -- not a full window yet
  if chain.length < (adj.windowSize + 1).toNat then currentDifficulty
  else if !adj.shouldRetarget chain.length then currentDifficulty
  else
    let timeAt (i : Nat) : Int := parseTimestamp ((chain[i]?.map Block.timestamp).getD "")
    let actualTimeSpan :=
      timeAt (chain.length - 1) - timeAt (chain.length - 1 - adj.windowSize.toNat)
    -- a window that took no time keeps the difficulty
    if actualTimeSpan ≤ 0 then currentDifficulty
    else adj.retargetIn R actualTimeSpan currentDifficulty

/-- The retargeted difficulty in doubles. -/
def retarget (adj : DifficultyAdjuster) : Int → UInt32 → UInt32 := adj.retargetIn .binary64

/-- `calculateNextDifficulty`: the operations are those of `double`. -/
def calculateNextDifficulty (adj : DifficultyAdjuster) : List Block → UInt32 → UInt32 :=
  adj.calculateNextDifficultyIn .binary64

-- 7.5 in exact arithmetic, and the double below it in the source
example : retarget { targetBlockTimeSec := 15, maxDifficulty := 16 } 220 11 = 7 := by
  decide +kernel

/-- `validateBlockTimestamp`: not before the previous block, and at most two
minutes ahead of the clock. Equal times pass. -/
def validateBlockTimestamp (now : TimePoint) (block previousBlock : Block) : Bool :=
  let blockTime := parseTimestamp block.timestamp
  let prevTime := parseTimestamp previousBlock.timestamp
  if blockTime < prevTime then false
  -- at most two minutes ahead of the clock
  else if blockTime > now.seconds + 120 then false
  else true

/-- Clamping to bounds that lie in `[lo, hi]` ends in `[lo, hi]`. -/
theorem clamp_bounds {lo hi m M d : UInt32} (hmin : lo ≤ m ∧ m ≤ hi) (hmax : M ≤ hi) :
    lo ≤ max m (min M d) ∧ max m (min M d) ≤ hi := by
  -- `max` and `min` of `UInt32` are these conditionals
  show lo ≤ (if m ≤ (if M ≤ d then M else d) then (if M ≤ d then M else d) else m) ∧
    (if m ≤ (if M ≤ d then M else d) then (if M ≤ d then M else d) else m) ≤ hi
  simp only [UInt32.le_iff_toNat_le] at *
  split_ifs <;> omega

/-- The next difficulty is the current one or within the configured bounds, whatever
the arithmetic. -/
theorem calculateNextDifficultyIn_bounds (R : Rounding) {adj : DifficultyAdjuster}
    {lo hi : UInt32} (hmin : lo ≤ adj.minDifficulty ∧ adj.minDifficulty ≤ hi)
    (hmax : adj.maxDifficulty ≤ hi) {chain : List Block} {current : UInt32}
    (hcur : lo ≤ current ∧ current ≤ hi) :
    lo ≤ adj.calculateNextDifficultyIn R chain current ∧
      adj.calculateNextDifficultyIn R chain current ≤ hi := by
  unfold calculateNextDifficultyIn
  split_ifs
  · exact hcur
  · exact hcur
  · simp only
    split_ifs
    · exact hcur
    · exact clamp_bounds hmin hmax

/-- The next difficulty is the current one or within the configured bounds. -/
theorem calculateNextDifficulty_bounds {adj : DifficultyAdjuster} {lo hi : UInt32}
    (hmin : lo ≤ adj.minDifficulty ∧ adj.minDifficulty ≤ hi) (hmax : adj.maxDifficulty ≤ hi)
    {chain : List Block} {current : UInt32} (hcur : lo ≤ current ∧ current ≤ hi) :
    lo ≤ adj.calculateNextDifficulty chain current ∧
      adj.calculateNextDifficulty chain current ≤ hi :=
  calculateNextDifficultyIn_bounds .binary64 hmin hmax hcur

end DifficultyAdjuster

/-! ## The engines -/

/-- The implementations of `IConsensusEngine`, each with what it is configured
with. -/
inductive ConsensusEngine
  | pow (adjuster : DifficultyAdjuster)
  | pos

/-- `PoWEngine::validateBlock`: a block against the one before it. Of its
difficulty only the range is checked, not that it is the one of the schedule. -/
def PoWEngine.validateBlock (C : Crypto) (now : TimePoint) (block previousBlock : Block) : Bool :=
  if block.difficulty < 1 ∨ block.difficulty > 64 then false
  else if block.hash ≠ block.calculateHash C then false
  else if !block.meetsTarget then false
  else if block.previousHash ≠ previousBlock.hash then false
  else if block.merkleRoot ≠ computeMerkleRoot C block.transactions then false
  else if !DifficultyAdjuster.validateBlockTimestamp now block previousBlock then false
  else if !block.hasValidTransactions C then false
  else true

/-- `PoSEngine::validateBlock`: the link and the root, and nothing about a
stake. -/
def PoSEngine.validateBlock (C : Crypto) (block previousBlock : Block) : Bool :=
  if block.previousHash ≠ previousBlock.hash then false
  else if block.merkleRoot ≠ computeMerkleRoot C block.transactions then false
  else true

/-- `PoSEngine::sealBlock`: the root and the hash, without a search. -/
def PoSEngine.sealBlock (C : Crypto) (block : Block) : Block :=
  let block := { block with merkleRoot := computeMerkleRoot C block.transactions, nonce := 0 }
  { block with hash := block.calculateHash C }

namespace ConsensusEngine

/-- `IConsensusEngine::validateBlock`, by the engine. -/
def validateBlock (C : Crypto) (now : TimePoint) (block previousBlock : Block) :
    ConsensusEngine → Bool
  | pow _ => PoWEngine.validateBlock C now block previousBlock
  | pos => PoSEngine.validateBlock C block previousBlock

/-- `IConsensusEngine::sealBlock`; both engines ignore the context string. -/
def sealBlock (C : Crypto) (block : Block) : ConsensusEngine → Option Block
  | pow _ => block.mineBlock C
  | pos => some (PoSEngine.sealBlock C block)

/-- `IConsensusEngine::shouldAcceptChain`: both engines prefer the longer
chain. -/
def shouldAcceptChain (currentChain candidateChain : List Block) : ConsensusEngine → Bool
  | pow _ => candidateChain.length > currentChain.length
  | pos => candidateChain.length > currentChain.length

/-- `IConsensusEngine::nextDifficulty`: the schedule of the adjuster, or none. -/
def nextDifficulty (chain : List Block) (currentDifficulty : UInt32) : ConsensusEngine → UInt32
  | pow adjuster => adjuster.calculateNextDifficulty chain currentDifficulty
  -- no difficulty in proof of stake
  | pos => 0

/-- Sealing keeps the contents of a block. -/
theorem sealBlock_spec {C : Crypto} {b b' : Block} {engine : ConsensusEngine}
    (h : engine.sealBlock C b = some b') :
    b'.transactions = b.transactions ∧ b'.index = b.index ∧ b'.previousHash = b.previousHash ∧
      b'.timestamp = b.timestamp ∧ b'.difficulty = b.difficulty := by
  cases engine with
  | pow adjuster =>
    have hm := Block.mineBlock_spec h
    exact ⟨hm.transactions, hm.index, hm.previousHash, hm.timestamp, hm.difficulty⟩
  | pos =>
    cases h
    exact ⟨rfl, rfl, rfl, rfl, rfl⟩

end ConsensusEngine

/-! ## What the proof-of-work check says -/

/-- The conditions of `PoWEngine::validateBlock`, in the order of its checks. -/
structure PoWValid (C : Crypto) (now : TimePoint) (block previousBlock : Block) : Prop where
  difficulty : 1 ≤ block.difficulty ∧ block.difficulty ≤ 64
  hash : block.hash = block.calculateHash C
  target : block.meetsTarget = true
  previousHash : block.previousHash = previousBlock.hash
  merkleRoot : block.merkleRoot = computeMerkleRoot C block.transactions
  notBefore : parseTimestamp previousBlock.timestamp ≤ parseTimestamp block.timestamp
  notAhead : parseTimestamp block.timestamp ≤ now.seconds + 120
  transactions : block.hasValidTransactions C = true

theorem validateBlockTimestamp_iff {now : TimePoint} {block previousBlock : Block} :
    DifficultyAdjuster.validateBlockTimestamp now block previousBlock = true ↔
      parseTimestamp previousBlock.timestamp ≤ parseTimestamp block.timestamp ∧
        parseTimestamp block.timestamp ≤ now.seconds + 120 := by
  unfold DifficultyAdjuster.validateBlockTimestamp
  simp only
  split_ifs <;> simp <;> omega

/-- **The proof-of-work check passes exactly under its conditions.** -/
theorem powValid_iff {C : Crypto} {now : TimePoint} {block previousBlock : Block} :
    PoWEngine.validateBlock C now block previousBlock = true ↔
      PoWValid C now block previousBlock := by
  unfold PoWEngine.validateBlock
  constructor
  · intro h
    -- the checks one after another, each with its early return
    split_ifs at h with hdiff hhash htarget hprev hroot htime htxs
    simp only [not_or, UInt32.not_lt, gt_iff_lt, not_not, Bool.not_eq_true',
      Bool.not_eq_false] at *
    obtain ⟨hbefore, hahead⟩ := validateBlockTimestamp_iff.mp htime
    exact ⟨hdiff, hhash, htarget, hprev, hroot, hbefore, hahead, htxs⟩
  · intro h
    have hdiff : ¬ (block.difficulty < 1 ∨ block.difficulty > 64) := by
      simpa only [not_or, UInt32.not_lt, gt_iff_lt] using h.difficulty
    have htime := validateBlockTimestamp_iff.mpr ⟨h.notBefore, h.notAhead⟩
    rw [if_neg hdiff, if_neg (not_not.mpr h.hash), if_neg (by simp [h.target]),
      if_neg (not_not.mpr h.previousHash), if_neg (not_not.mpr h.merkleRoot),
      if_neg (by simp [htime]), if_neg (by simp [h.transactions])]

/-- A block that passes now passes at every later time: the clock only bounds
how far ahead a block may be. -/
theorem PoWValid.mono {C : Crypto} {now later : TimePoint} {block previousBlock : Block}
    (hle : now ≤ later) (h : PoWValid C now block previousBlock) :
    PoWValid C later block previousBlock := by
  have hsec := TimePoint.seconds_mono hle
  exact { h with notAhead := h.notAhead.trans (by omega) }

end PersonalBlockchain
