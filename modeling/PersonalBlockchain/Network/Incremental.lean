import PersonalBlockchain.Model.Validity

/-!
# Personal blockchain — validation block by block

`acceptBlock` validates the whole chain again for every block it is offered.
Validation is a check of each block against the block before it, so only the
last of these checks is new.

## Results

* `validation_incremental` — one more block, a shorter chain, a later clock, and
  what the answer of `acceptBlock` depends on;
* `accepts_iff_follows` — what a node with a valid chain asks of a block.
-/

namespace PersonalBlockchain

open Blockchain

/-- The checks of a block against the block before it, its position apart. -/
structure Follows (cfg : NodeConfig) (now : TimePoint) (previous block : Block) : Prop where
  hash : block.hash = block.calculateHash cfg.crypto
  previousHash : block.previousHash = previous.hash
  merkleRoot : block.merkleRoot = computeMerkleRoot cfg.crypto block.transactions
  target : block.meetsTarget = true
  transactions : block.hasValidTransactions cfg.crypto = true
  engine : ∀ engine, cfg.consensusEngine = some engine →
    engine.validateBlock cfg.crypto now block previous = true

/-- The checks of both validators are the position and what follows from the two
blocks. -/
theorem follows_iff {cfg : NodeConfig} {now : TimePoint} {i : Nat} {previous block : Block} :
    (CheckedBlock cfg.crypto i previous block ∧
        ∀ engine, cfg.consensusEngine = some engine →
          engine.validateBlock cfg.crypto now block previous = true) ↔
      block.index = UInt64.ofNat i ∧ Follows cfg now previous block := by
  constructor
  · rintro ⟨hblock, hengine⟩
    exact ⟨hblock.index, hblock.hash, hblock.previousHash, hblock.merkleRoot, hblock.target,
      hblock.transactions, hengine⟩
  · rintro ⟨hindex, h⟩
    exact ⟨⟨hindex, h.hash, h.previousHash, h.merkleRoot, h.target, h.transactions⟩, h.engine⟩

/-- What a node with a valid chain asks of a block: its position, and that it
follows the tip. The blocks below the tip play no part. -/
theorem accepts_iff_follows {cfg : NodeConfig} {now : TimePoint} {block : Block} {bc : Blockchain}
    (hvalid : bc.isChainValid cfg now = true) :
    (bc.acceptBlock cfg now block).ret = true ↔
      block.index = UInt64.ofNat bc.chain.length ∧ Follows cfg now bc.tip block := by
  rw [acceptBlock_ret, accepts_iff, follows_iff]
  exact and_iff_right hvalid

/-- **Validation is incremental.** One more block adds its own check, a shorter
chain and a later clock take nothing away, and the answer of `acceptBlock` on a
valid chain is a function of the tip, the length, the block and the clock: two
nodes that agree on these answer alike, whatever else their chains hold. -/
theorem validation_incremental (cfg : NodeConfig) :
    (∀ now chain block, ∀ hne : chain ≠ [],
      validateChainAgainstConsensus cfg now (chain ++ [block]) = true ↔
        validateChainAgainstConsensus cfg now chain = true ∧
          block.index = UInt64.ofNat chain.length ∧ Follows cfg now (chain.getLast hne) block) ∧
    (∀ now chain chain', chain <+: chain' → chain ≠ [] →
      validateChainAgainstConsensus cfg now chain' = true →
      validateChainAgainstConsensus cfg now chain = true) ∧
    (∀ now later chain, now ≤ later → validateChainAgainstConsensus cfg now chain = true →
      validateChainAgainstConsensus cfg later chain = true) ∧
    ∀ (now : TimePoint) (block : Block) (bc bc' : Blockchain), bc.isChainValid cfg now = true →
      bc'.isChainValid cfg now = true → bc.tip = bc'.tip → bc.chain.length = bc'.chain.length →
      (bc.acceptBlock cfg now block).ret = (bc'.acceptBlock cfg now block).ret := by
  refine ⟨fun now chain block hne => ?_, ?_, fun now later chain hle => validate_mono hle, ?_⟩
  · rw [validate_append hne, follows_iff]
  · rintro now chain _ ⟨rest, rfl⟩ hne hvalid
    exact validate_prefix hne hvalid
  · intro now block bc bc' hvalid hvalid' htip hlen
    rw [Bool.eq_iff_iff, accepts_iff_follows hvalid, accepts_iff_follows hvalid', htip, hlen]

end PersonalBlockchain
