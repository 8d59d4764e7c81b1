import PersonalBlockchain.Model.Steps
import Mathlib.Data.List.Induction

/-!
# Personal blockchain — what a valid chain satisfies

The checks of chain validation as propositions, and how a valid chain grows: one
block more is a matter of that block and the tip, the rest of the chain being
checked again with the same result.

* `checkBlock_iff`, `isChainValid_cons`, `validate_iff` — the checks;
* `validate_append` — one block more;
* `validate_prefix`, `validate_mono` — a shorter chain, and a later clock;
* `accepts_iff` — what `acceptBlock` asks of a block.
-/

namespace PersonalBlockchain

open AdjacentPairs

/-- What `isChainValid(chain)` checks of block `i`, given the block before: its
place, its hash, its link, its root, its target and its transactions. -/
structure CheckedBlock (C : Crypto) (i : Nat) (previous current : Block) : Prop where
  index : current.index = UInt64.ofNat i
  hash : current.hash = current.calculateHash C
  previousHash : current.previousHash = previous.hash
  merkleRoot : current.merkleRoot = computeMerkleRoot C current.transactions
  target : current.meetsTarget = true
  transactions : current.hasValidTransactions C = true

/-- What it checks of the genesis block; its transactions are not verified. -/
structure CheckedGenesis (C : Crypto) (genesis : Block) : Prop where
  previousHash : genesis.previousHash = Block.zeroHash
  hash : genesis.hash = genesis.calculateHash C
  merkleRoot : genesis.merkleRoot = computeMerkleRoot C genesis.transactions

/-- The body of the loop passes exactly under these conditions. -/
theorem checkBlock_iff {C : Crypto} {i : Nat} {previous current : Block} :
    checkBlock C i previous current = true ↔ CheckedBlock C i previous current := by
  unfold checkBlock
  constructor
  · intro h
    split_ifs at h with hindex hhash hprevious hroot htarget htxs
    simp only [not_not, Bool.not_eq_true', Bool.not_eq_false] at *
    exact ⟨hindex, hhash, hprevious, hroot, htarget, htxs⟩
  · intro h
    rw [if_neg (not_not.mpr h.index), if_neg (not_not.mpr h.hash),
      if_neg (not_not.mpr h.previousHash), if_neg (not_not.mpr h.merkleRoot),
      if_neg (by simp [h.target]), if_neg (by simp [h.transactions])]

/-- A chain is checked from its genesis block, and then pair by pair. -/
theorem isChainValid_cons {C : Crypto} {genesis : Block} {rest : List Block} :
    isChainValid C (genesis :: rest) = true ↔
      CheckedGenesis C genesis ∧ allPairs (checkBlock C) 1 genesis rest = true := by
  rw [isChainValid]
  constructor
  · intro h
    split_ifs at h with hprevious hhash hroot
    exact ⟨⟨not_not.mp hprevious, not_not.mp hhash, not_not.mp hroot⟩, h⟩
  · rintro ⟨hgenesis, h⟩
    rw [if_neg (not_not.mpr hgenesis.previousHash), if_neg (not_not.mpr hgenesis.hash),
      if_neg (not_not.mpr hgenesis.merkleRoot), h]

/-- The static check and the engine's, if there is one. -/
theorem validate_iff {cfg : NodeConfig} {now : TimePoint} {chain : List Block} :
    validateChainAgainstConsensus cfg now chain = true ↔
      isChainValid cfg.crypto chain = true ∧
        ∀ engine, cfg.consensusEngine = some engine →
          engineAccepts cfg.crypto now engine chain = true := by
  unfold validateChainAgainstConsensus
  cases hvalid : isChainValid cfg.crypto chain <;> cases cfg.consensusEngine <;> simp

/-- **One block more.** A longer chain is valid exactly when the shorter one is
and the new block passes both checks against the tip. The whole chain is checked
again, to the same effect as checking the new block alone. -/
theorem validate_append {cfg : NodeConfig} {now : TimePoint} {chain : List Block}
    (hne : chain ≠ []) {block : Block} :
    validateChainAgainstConsensus cfg now (chain ++ [block]) = true ↔
      validateChainAgainstConsensus cfg now chain = true ∧
        CheckedBlock cfg.crypto chain.length (chain.getLast hne) block ∧
        ∀ engine, cfg.consensusEngine = some engine →
          engine.validateBlock cfg.crypto now block (chain.getLast hne) = true := by
  obtain ⟨genesis, rest, rfl⟩ := List.exists_cons_of_ne_nil hne
  simp only [validate_iff, List.cons_append, isChainValid_cons, engineAccepts,
    allPairs_append_singleton, Bool.and_eq_true, checkBlock_iff, List.length_cons,
    Nat.add_comm 1]
  -- both loops end with the new block; the rest is regrouping
  constructor
  · rintro ⟨⟨hgenesis, hrest, hblock⟩, hengine⟩
    exact ⟨⟨⟨hgenesis, hrest⟩, fun engine he => (hengine engine he).1⟩, hblock,
      fun engine he => (hengine engine he).2⟩
  · rintro ⟨⟨⟨hgenesis, hrest⟩, hengine⟩, hblock, hlast⟩
    exact ⟨⟨hgenesis, hrest, hblock⟩, fun engine he => ⟨hengine engine he, hlast engine he⟩⟩

/-- **A shorter chain.** What a valid chain begins with is valid. -/
theorem validate_prefix {cfg : NodeConfig} {now : TimePoint} {chain : List Block} (hne : chain ≠ [])
    {rest : List Block} (h : validateChainAgainstConsensus cfg now (chain ++ rest) = true) :
    validateChainAgainstConsensus cfg now chain = true := by
  -- the blocks behind it are taken off from the end
  induction rest using List.reverseRecOn with
  | nil => rwa [List.append_nil] at h
  | append_singleton rest block ih =>
    rw [← List.append_assoc] at h
    have hne' : chain ++ rest ≠ [] := List.append_ne_nil_of_left_ne_nil hne _
    exact ih ((validate_append hne').mp h).1

/-- No engine refuses later what it accepts now. -/
theorem ConsensusEngine.validateBlock_mono {C : Crypto} {now later : TimePoint} (hle : now ≤ later)
    {block previousBlock : Block} {engine : ConsensusEngine}
    (h : engine.validateBlock C now block previousBlock = true) :
    engine.validateBlock C later block previousBlock = true := by
  cases engine with
  | pow adjuster => exact powValid_iff.mpr ((powValid_iff.mp h).mono hle)
  | pos => exact h

/-- **A later clock.** A chain that is valid stays valid as time goes by. -/
theorem validate_mono {cfg : NodeConfig} {now later : TimePoint} (hle : now ≤ later)
    {chain : List Block} (h : validateChainAgainstConsensus cfg now chain = true) :
    validateChainAgainstConsensus cfg later chain = true := by
  rw [validate_iff] at h ⊢
  refine ⟨h.1, fun engine hengine => ?_⟩
  have haccepts := h.2 engine hengine
  cases chain with
  | nil => rfl
  | cons genesis rest =>
    exact allPairs_imp (fun _ _ _ => ConsensusEngine.validateBlock_mono hle) haccepts

namespace Blockchain

/-- An accepted block is checked against the tip. -/
theorem Accepts.checked {cfg : NodeConfig} {now : TimePoint} {block : Block} {bc : Blockchain}
    (h : Accepts cfg now block bc) : CheckedBlock cfg.crypto bc.chain.length bc.tip block :=
  ((validate_append bc.chain_ne).mp h.valid).2.1

/-- What `acceptBlock` asks of a block: that the node's own chain is valid, and
that the block passes both checks against the tip. -/
theorem accepts_iff {cfg : NodeConfig} {now : TimePoint} {block : Block} {bc : Blockchain} :
    Accepts cfg now block bc ↔
      bc.isChainValid cfg now = true ∧ CheckedBlock cfg.crypto bc.chain.length bc.tip block ∧
        ∀ engine, cfg.consensusEngine = some engine →
          engine.validateBlock cfg.crypto now block bc.tip = true := by
  constructor
  · exact fun h => (validate_append bc.chain_ne).mp h.valid
  · intro h
    have hblock := h.2.1
    exact ⟨hblock.index, hblock.previousHash, (validate_append bc.chain_ne).mpr h⟩

end Blockchain

end PersonalBlockchain
