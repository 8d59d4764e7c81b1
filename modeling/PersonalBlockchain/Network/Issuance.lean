import PersonalBlockchain.Ledger.LocalBlocks

/-!
# Personal blockchain — issuance

Anything labelled `COINBASE` passes `verify`, and neither block nor chain
validation counts the coinbases of a block or looks at their amounts. Local
mining pays exactly one reward of 50; a block, a chain or a persisted file may
issue any number of coins. The rule holds along a history exactly when it
holds of all that was taken in.

## Results

* `issuesByRule_step` — one call keeps the rule exactly when what it takes in
  follows it;
* `issuance_iff` — the chains of a history issue by the rule exactly when the
  loaded chain, the accepted blocks and the adopted chains do;
* `issuance_counterexample` — a block that issues a million coins.
-/

namespace PersonalBlockchain

open Machine Blockchain

/-- One coinbase, the first transaction, and its amount is the reward of 50. -/
def IssuanceRule (block : Block) : Prop :=
  ∃ coinbase others, block.transactions = coinbase :: others ∧ coinbase.isCoinbase = true ∧
    coinbase.amount = 50 ∧ ∀ tx ∈ others, tx.isCoinbase = false

/-- The coins the coinbases of a list of transactions issue. -/
def issuedCoins (txs : List Transaction) : Nat :=
  ((txs.filter Transaction.isCoinbase).map fun tx => tx.amount.toNat).sum

/-- The blocks after the genesis block follow the rule and issue no more than
50 coins each. -/
structure IssuesByRule (chain : List Block) : Prop where
  blocks : ∀ block ∈ chain.tail, IssuanceRule block
  total : issuedCoins (chainTransactions chain.tail) ≤ 50 * chain.tail.length

theorem issuedCoins_append (txs txs' : List Transaction) :
    issuedCoins (txs ++ txs') = issuedCoins txs + issuedCoins txs' := by
  simp [issuedCoins]

/-- A block that follows the rule issues 50 coins. -/
theorem IssuanceRule.issuedCoins {block : Block} (h : IssuanceRule block) :
    issuedCoins block.transactions = 50 := by
  obtain ⟨coinbase, others, htxs, hcb, hamount, hothers⟩ := h
  have hnone : others.filter Transaction.isCoinbase = [] :=
    List.filter_eq_nil_iff.mpr fun tx htx => by simp [hothers tx htx]
  rw [PersonalBlockchain.issuedCoins, htxs, List.filter_cons_of_pos hcb, hnone]
  simp [hamount]

/-- The bound on the coins follows from the rule. -/
theorem issuesByRule_iff {chain : List Block} :
    IssuesByRule chain ↔ ∀ block ∈ chain.tail, IssuanceRule block := by
  refine ⟨IssuesByRule.blocks, fun h => ⟨h, ?_⟩⟩
  -- exactly 50 coins for each block, by induction on the blocks
  suffices heq : ∀ blocks : List Block, (∀ block ∈ blocks, IssuanceRule block) →
      issuedCoins (chainTransactions blocks) = 50 * blocks.length from (heq _ h).le
  intro blocks hblocks
  induction blocks with
  | nil => rfl
  | cons block blocks ih =>
    obtain ⟨hblock, hrest⟩ := List.forall_mem_cons.mp hblocks
    rw [chainTransactions_cons, issuedCoins_append, hblock.issuedCoins, ih hrest,
      List.length_cons]
    omega

theorem tail_append_singleton (bc : Blockchain) (block : Block) :
    (bc.chain ++ [block]).tail = bc.chain.tail ++ [block] :=
  List.tail_append_of_ne_nil bc.chain_ne

/-- One block more: the rule is a matter of that block. -/
theorem issuesByRule_extend {bc : Blockchain} {block : Block} (h : IssuesByRule bc.chain) :
    IssuesByRule (bc.chain ++ [block]) ↔ IssuanceRule block := by
  rw [issuesByRule_iff, tail_append_singleton, List.forall_mem_append,
    and_iff_right h.blocks, List.forall_mem_singleton]

/-- A block of local mining follows the rule. -/
theorem RewardBlock.issuanceRule {block : Block} (h : RewardBlock block) :
    IssuanceRule block := by
  obtain ⟨coinbase, others, htxs, hcb, hamount, -, hothers⟩ := h
  exact ⟨coinbase, others, htxs, hcb, hamount, fun tx htx => (hothers tx htx).notCoinbase⟩

/-- What keeps the rule: the block that is accepted, and every block but the
genesis block of the chain that is adopted, follow it. -/
structure TakesInByRule (cfg : NodeConfig) (bc : Blockchain) (call : Call) : Prop where
  received : ∀ block, call.op = .acceptBlock block → Accepts cfg call.now block bc →
    IssuanceRule block
  adopted : ∀ newChain, call.op.offered cfg.crypto = some newChain →
    Adopts cfg call.now newChain bc → ∀ block ∈ newChain.tail, IssuanceRule block

/-- A call keeps the rule exactly when what it takes in follows it. -/
theorem issuesByRule_step {cfg : NodeConfig} {call : Call} {bc bc' : Blockchain} {r : Reply}
    (hpending : ∀ tx ∈ bc.mempool, Transfer tx) (hP : IssuesByRule bc.chain)
    (h : step cfg call bc = some (r, bc')) :
    IssuesByRule bc'.chain ↔ TakesInByRule cfg bc call := by
  cases step_cases h with
  | unchanged _ hblock hchain =>
    exact iff_of_true hP
      ⟨fun b hb ha => absurd ha (hblock b hb), fun c hc ha => absurd ha (hchain c hc)⟩
  | queued tx hop _ => exact iff_of_true hP ⟨by simp [hop], by simp [hop, Op.offered]⟩
  | mined minerAddress block _ hop hm =>
    -- local mining needs no rule
    rw [hm.chain, issuesByRule_extend hP]
    exact iff_of_true (hm.rewardBlock hpending).issuanceRule
      ⟨by simp [hop], by simp [hop, Op.offered]⟩
  | received block hop hacc =>
    refine (issuesByRule_extend hP).trans ⟨fun hrule => ?_, fun h => h.received block hop hacc⟩
    refine ⟨fun b hb _ => ?_, by simp [hop, Op.offered]⟩
    -- the call names one block only
    obtain rfl : block = b := Op.acceptBlock.inj (hop.symm.trans hb)
    exact hrule
  | adopted newChain _ hop hado =>
    refine issuesByRule_iff.trans ⟨fun hrule => ?_, fun h => h.adopted newChain hop hado⟩
    refine ⟨fun b hb => ?_, fun c hc _ => ?_⟩
    · simp [hb, Op.offered] at hop
    · obtain rfl : newChain = c := Option.some.inj (hop.symm.trans hc)
      exact hrule

/-- **When a node's chain issues by the rule.** In every history of every node
all the chains it holds issue by the rule if and only if the chain it started
with, the blocks it accepted and the chains it adopted do: nothing else is
needed of local mining, and nothing is enforced from outside. -/
theorem issuance_iff {cfg : NodeConfig} {now : TimePoint} {difficulty : UInt32}
    {persisted : Option (List Block)} {start bc : Blockchain} {tr : List NodeEntry}
    (hstart : Starts cfg now difficulty persisted start) (hist : History cfg start tr bc) :
    (IssuesByRule start.chain ∧ ∀ e ∈ tr, IssuesByRule e.post.chain) ↔
    ((∀ chain, persisted = some chain → validateChainAgainstConsensus cfg now chain = true →
        ∀ block ∈ chain.tail, IssuanceRule block) ∧
      ∀ e ∈ tr, TakesInByRule cfg e.pre e.call) := by
  -- the chain the node starts with
  have hload : IssuesByRule start.chain ↔ ∀ chain, persisted = some chain →
      validateChainAgainstConsensus cfg now chain = true →
      ∀ block ∈ chain.tail, IssuanceRule block := by
    rw [issuesByRule_iff]
    obtain ⟨-, -, ⟨hpersisted, hvalid, -⟩ | ⟨hinvalid, genesis, -, hchain, -⟩⟩ :=
      start_cases hstart
    · refine ⟨fun h chain hc _ => ?_, fun h => h _ hpersisted hvalid⟩
      obtain rfl : start.chain = chain := Option.some.inj (hpersisted.symm.trans hc)
      exact h
    · -- nothing was loaded, and a genesis block alone issues by the rule
      rw [hchain]
      refine iff_of_true (by simp) fun chain hc hvalid => ?_
      rw [hc, Option.getD_some, hvalid] at hinvalid
      cases hinvalid
  have hnone : ∀ tx ∈ start.mempool, Transfer tx := by simp [(start_cases hstart).2.1]
  rw [← hload]
  refine and_congr_right fun hP => ?_
  exact hist.forall_post_iff (I := fun bc => ∀ tx ∈ bc.mempool, Transfer tx)
    (P := fun bc => IssuesByRule bc.chain) (C := TakesInByRule cfg) hnone
    (fun _ _ _ _ => pending_transfer_step) hP fun _ _ _ _ => issuesByRule_step

/-! ## A block that issues a million coins -/

section Sample

/-- A reward of a million. -/
def inflationReward : Transaction :=
  { sampleReward1 with
    amount := 1000000
    txID := "f9252a89969ce23590931229425ffdea96243acf2f7cf8529f0c5a056419237b" }

/-- A block with this reward. -/
def inflationBlock : Block :=
  { sampleBlock1 with
    transactions := [inflationReward]
    merkleRoot := inflationReward.txID
    hash := "d079792940637c40f46fd86b5e572a75d9bbb02aa39a2d3ebc1698498801012c" }

/-- The digests of the sample and the hash of the block, without an engine. -/
def inflationConfig : NodeConfig where
  crypto := .ofTable (sampleDigests ++ [(inflationBlock.headerString, inflationBlock.hash)]) []
  consensusEngine := none

theorem inflationGenesis_created :
    Block.createGenesis inflationConfig.crypto 0 = some sampleGenesis := by
  decide +kernel

theorem inflationBlock_accepted :
    Accepts inflationConfig (sampleTime 10) inflationBlock sampleStart :=
  ⟨rfl, rfl, by decide +kernel⟩

theorem inflationBlock_breaks_rule : ¬ IssuanceRule inflationBlock := by
  rintro ⟨coinbase, others, htxs, -, hamount, -⟩
  obtain ⟨rfl, -⟩ := List.cons_eq_cons.mp htxs
  revert hamount
  decide

end Sample

/-- A new node accepts the block, and its chain does not issue by the rule. -/
theorem issuance_counterexample :
    ¬ ∀ (cfg : NodeConfig) (now : TimePoint) (difficulty : UInt32)
      (persisted : Option (List Block)) (start bc : Blockchain) (tr : List NodeEntry),
      Starts cfg now difficulty persisted start → History cfg start tr bc →
      IssuesByRule bc.chain := by
  intro h
  have hstart := starts_freshNode inflationGenesis_created (sampleTime 0)
  have hist := Run.snoc Run.nil (step_acceptBlock inflationBlock_accepted)
  have hissues := h inflationConfig (sampleTime 0) 0 none sampleStart _ _ hstart hist
  have hrule : IssuanceRule inflationBlock :=
    hissues.blocks inflationBlock (by simp [receive, sampleStart, freshNode])
  exact inflationBlock_breaks_rule hrule

/-- The theorem on the run that accepts it. -/
theorem issuance_iff_sample : ∃ (tr : List NodeEntry) (bc : Blockchain),
    History inflationConfig sampleStart tr bc ∧ tr.length = 1 ∧
      ¬ ∀ e ∈ tr, IssuesByRule e.post.chain := by
  have hstart := starts_freshNode inflationGenesis_created (sampleTime 0)
  have hist := Run.snoc Run.nil (step_acceptBlock inflationBlock_accepted)
  refine ⟨_, _, hist, rfl, fun hissues => ?_⟩
  have hfresh : IssuesByRule sampleStart.chain :=
    issuesByRule_iff.mpr (by simp [sampleStart, freshNode])
  obtain ⟨-, hrules⟩ := (issuance_iff hstart hist).mp ⟨hfresh, hissues⟩
  have hrule := hrules _ (List.mem_singleton_self _)
  exact inflationBlock_breaks_rule (hrule.received inflationBlock rfl inflationBlock_accepted)

end PersonalBlockchain
