import PersonalBlockchain.Network.Replay

/-!
# Personal blockchain — one block or the whole chain

A block that `acceptBlock` takes can also reach the node as the last block of
a chain. `replaceChain` then ends with the same chain, the same maps and the
same stamp, since replaying the chain is applying the block. The mempools are
pruned differently: `acceptBlock` drops whatever shares an identifier with any
transaction of the block, `replaceChain` only what the spent set lists, and a
coinbase is never spent while its identifier is never checked.

## Results

* `mempools_agree_iff` — the mempools the two paths leave;
* `block_paths_agree_iff` — both paths leave the same node exactly when no coinbase
  of the block carries the identifier of a pending transaction that the block does
  not confirm;
* `block_paths_counterexample` — a pending transfer that one path drops and the
  other keeps.
-/

namespace PersonalBlockchain

open Machine Blockchain StateManager

/-- The chain path answers true and leaves what the block path leaves: the
chain, the maps, the mempool and the stamp. -/
structure PathsAgree (byBlock byChain : Outcome Bool) : Prop where
  answer : byChain.ret = true
  chain : byChain.node.chain = byBlock.node.chain
  stateManager : byChain.node.stateManager = byBlock.node.stateManager
  mempool : byChain.node.mempool = byBlock.node.mempool
  version : byChain.node.chainUpdateVersion = byBlock.node.chainUpdateVersion

/-- A pending transaction whose identifier a coinbase of the block carries is
also confirmed by a transfer of the block. -/
def CoinbasesNameNoPending (block : Block) (mempool : List Transaction) : Prop :=
  ∀ pending ∈ mempool, ∀ coinbase ∈ block.transactions, coinbase.isCoinbase = true →
    coinbase.txID = pending.txID →
      ∃ tx ∈ block.transactions, tx.isCoinbase = false ∧ tx.txID = pending.txID

/-- Two filters agree on a list when they agree on its members. -/
theorem filter_eq_filter_iff {α : Type} {p q : α → Bool} {l : List α} :
    l.filter p = l.filter q ↔ ∀ x ∈ l, p x = q x := by
  refine ⟨fun h x hx => ?_, fun h => List.filter_congr fun x hx => h x hx⟩
  -- membership in one filter is membership in the other
  have hmem : x ∈ l.filter p ↔ x ∈ l.filter q := by rw [h]
  simp only [List.mem_filter, hx, true_and] at hmem
  exact Bool.eq_iff_iff.mpr hmem

/-! ## Who stays pending

On the chain path it is whoever the chain does not confirm (`mem_kept_adopt`). -/

/-- On the block path: whoever shares no identifier with the block. -/
theorem mem_kept_receive {block : Block} {pending : Transaction} :
    (!block.transactions.any fun confirmed => confirmed.txID = pending.txID) = true ↔
      ∀ tx ∈ block.transactions, tx.txID ≠ pending.txID := by
  simp

/-- The mempools of the two paths agree exactly when no coinbase of the block
names a pending transaction that nothing confirms. Nothing pending was confirmed
before, so the rest of the chain has no say. -/
theorem mempools_agree_iff {bc : Blockchain} (hI : PendingFresh bc) {block : Block}
    (hne : bc.chain ++ [block] ≠ []) :
    (bc.adopt (bc.chain ++ [block]) hne).mempool = (bc.receive block).mempool ↔
      CoinbasesNameNoPending block bc.mempool := by
  unfold adopt receive
  rw [filter_eq_filter_iff]
  refine forall₂_congr fun pending hpending => ?_
  -- nothing pending is confirmed yet, so only the new block counts
  have hchain : (!(bc.stateManager.rebuildState (bc.chain ++ [block])).spentTxIDs.contains
      pending.txID) = true ↔ Unconfirmed block.transactions pending := by
    rw [mem_kept_adopt, chainTransactions_append, unconfirmed_append,
      and_iff_right (hI.unconfirmed pending hpending)]
    simp
  rw [Bool.eq_iff_iff, hchain, mem_kept_receive]
  constructor
  · -- a coinbase that names `pending` drops it on the block path
    intro hsame coinbase hmem _ hid
    by_contra hno
    push Not at hno
    exact hsame.mp (fun tx htx hcb => hno tx htx hcb) coinbase hmem hid
  · intro hnames
    refine ⟨fun hunconfirmed tx htx hid => ?_, fun hnone tx htx _ => hnone tx htx⟩
    cases hcb : tx.isCoinbase with
    | false => exact hunconfirmed tx htx hcb hid
    | true =>
      obtain ⟨tx', htx', hcb', hid'⟩ := hnames tx htx hcb hid
      exact hunconfirmed tx' htx' hcb' hid'

/-- **The one-block path against the whole-chain path.** In every state of
every history, a block that `acceptBlock` takes is also taken as the end of
the extended chain, at the same clock; both paths leave the same node exactly
when no coinbase of the block carries the identifier of a pending transaction
that the block does not confirm. -/
theorem block_paths_agree_iff {cfg : NodeConfig} {started now : TimePoint} {difficulty : UInt32}
    {persisted : Option (List Block)} {start bc : Blockchain} {tr : List NodeEntry}
    (hstart : Starts cfg started difficulty persisted start) (hist : History cfg start tr bc)
    {block : Block} (haccepted : (bc.acceptBlock cfg now block).ret = true) :
    PathsAgree (bc.acceptBlock cfg now block)
        (bc.replaceChain cfg now (bc.chain ++ [block])) ↔
      CoinbasesNameNoPending block bc.mempool := by
  have hacc : Accepts cfg now block bc := acceptBlock_ret.mp haccepted
  have hI : PendingFresh bc :=
    hist.invariant (pendingFresh_start hstart) fun _ _ _ _ => pendingFresh_step
  -- the longer chain is preferred by every engine and was just validated
  have hado : Adopts cfg now (bc.chain ++ [block]) bc :=
    ⟨prefersChain_iff.mpr (by simp), hacc.valid⟩
  rw [acceptBlock_of hacc, replaceChain_of hado]
  refine ⟨fun h => (mempools_agree_iff hI _).mp h.mempool, fun hnames => ?_⟩
  exact {
    answer := rfl
    chain := rfl
    stateManager := (rebuildState_extend hI.refines block).symm
    mempool := (mempools_agree_iff hI _).mpr hnames
    version := rfl }

/-! ## A coinbase with the identifier of a pending transfer -/

section Sample

/-- A reward that carries the identifier of the pending transfer. -/
def namingReward : Transaction :=
  sampleReward sampleTransfer.txID "2026-03-14T12:00:20Z"

/-- A block with this reward. -/
def namingBlock : Block where
  index := 2
  timestamp := "2026-03-14T12:00:20Z"
  previousHash := sampleBlock1.hash
  transactions := [namingReward]
  merkleRoot := sampleTransfer.txID
  nonce := 0
  difficulty := 0
  hash := "f099dab391df4a5039e94ccbe83f8a0cfe9298a9e7358f60833a184fa359559c"

/-- The digests of the sample and the hash of the block, without an engine. -/
def namingConfig : NodeConfig where
  crypto := .ofTable (sampleDigests ++ [(namingBlock.headerString, namingBlock.hash)])
    [(sampleTransfer.txID, sampleTransfer.digitalSignature, samplePublicKey)]
  consensusEngine := none

theorem namingGenesis_created :
    Block.createGenesis namingConfig.crypto 0 = some sampleGenesis := by
  decide +kernel

/-- The node has mined a reward and queued the transfer. -/
theorem naming_history : ∃ tr bc, History namingConfig sampleStart tr bc ∧
    (bc.acceptBlock namingConfig (sampleTime 20) namingBlock).ret = true ∧
      bc.mempool = [sampleTransfer] := by
  obtain ⟨tr, bc, hist, hcheck⟩ := Run.exists_of_exec (step namingConfig)
    [⟨sampleTime 0, .minePendingTransactions sampleMiner⟩,
      ⟨sampleTime 10, .addTransaction sampleTransfer⟩] sampleStart
    (fun r => (r.2.acceptBlock namingConfig (sampleTime 20) namingBlock).ret &&
      r.2.mempool = [sampleTransfer]) (by decide +kernel)
  simp only [Bool.and_eq_true, decide_eq_true_eq] at hcheck
  exact ⟨tr, bc, hist, hcheck⟩

/-- The coinbase of the block names the pending transfer, which nothing
confirms. -/
theorem naming_names : ¬ CoinbasesNameNoPending namingBlock [sampleTransfer] := by
  intro h
  obtain ⟨tx, htx, hcb, -⟩ := h sampleTransfer (List.mem_singleton_self _) namingReward
    (List.mem_singleton_self _) rfl rfl
  rw [List.mem_singleton.mp htx] at hcb
  cases hcb

end Sample

/-- The block drops the pending transfer; the chain that ends in it does not. -/
theorem block_paths_counterexample :
    ¬ ∀ (cfg : NodeConfig) (started now : TimePoint) (difficulty : UInt32)
      (start bc : Blockchain) (tr : List NodeEntry) (block : Block),
      Starts cfg started difficulty none start → History cfg start tr bc →
      (bc.acceptBlock cfg now block).ret = true →
      PathsAgree (bc.acceptBlock cfg now block)
        (bc.replaceChain cfg now (bc.chain ++ [block])) := by
  intro h
  obtain ⟨tr, bc, hist, haccepted, hmempool⟩ := naming_history
  have hstart := starts_freshNode namingGenesis_created (sampleTime 0)
  have hagree := h _ _ _ _ _ _ _ _ hstart hist haccepted
  rw [acceptBlock_of (acceptBlock_ret.mp haccepted)] at hagree
  have hI : PendingFresh bc :=
    hist.invariant (pendingFresh_start hstart) fun _ _ _ _ => pendingFresh_step
  have hado : Adopts namingConfig (sampleTime 20) (bc.chain ++ [namingBlock]) bc :=
    ⟨prefersChain_iff.mpr (by simp), (acceptBlock_ret.mp haccepted).valid⟩
  have hsame := hagree.mempool
  rw [replaceChain_of hado] at hsame
  -- the block's coinbase names the pending transfer, which one path drops and the other keeps
  refine naming_names ?_
  rw [← hmempool]
  exact (mempools_agree_iff hI _).mp hsame

/-- The theorem at the naming block: the two paths part. -/
theorem block_paths_agree_iff_sample : ∃ (tr : List NodeEntry) (bc : Blockchain),
    History namingConfig sampleStart tr bc ∧
      ¬ PathsAgree (bc.acceptBlock namingConfig (sampleTime 20) namingBlock)
        (bc.replaceChain namingConfig (sampleTime 20) (bc.chain ++ [namingBlock])) := by
  obtain ⟨tr, bc, hist, haccepted, hmempool⟩ := naming_history
  have hstart := starts_freshNode namingGenesis_created (sampleTime 0)
  refine ⟨tr, bc, hist, fun hagree => naming_names ?_⟩
  rw [← hmempool]
  exact (block_paths_agree_iff hstart hist haccepted).mp hagree

end PersonalBlockchain
