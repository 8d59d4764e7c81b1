import PersonalBlockchain.Network.Overdraft
import PersonalBlockchain.Network.Replay

/-!
# Personal blockchain — what pruning leaves in the mempool

`addTransaction` lets a transfer in when its nonce is the next one and its
amount is covered. When a block or a chain from the network is confirmed the
mempool is pruned by identifier only: a pending transfer that the confirmed
ones conflict with, by its nonce or by the funds it needs, stays pending and
is mined. The pruned mempool is executable in order exactly when, for every
transfer that stays, the confirmed transactions take its sender's nonce as far
as those pruned before it did, and leave the sender enough.

## Results

* `Confirms.leaves` — the state and the mempool after a call that confirms
  something;
* `executableOn_iff_noConflict` — one pending transfer;
* `pruning_leaves_minable_iff` — the mempool that is left is executable in order
  exactly when nothing that stays is in conflict with what was confirmed;
* `pruning_counterexample` — two transfers with one nonce.
-/

namespace PersonalBlockchain

open Machine Turns Blockchain StateManager

/-- The amount is covered and the nonce is the next one. -/
structure ExecutableOn (sm : StateManager) (tx : Transaction) : Prop where
  funded : tx.amount ≤ sm.getBalance tx.fromAddress
  next : tx.nonce = sm.getLastNonce tx.fromAddress + 1

/-- Every transaction is executable at its turn. -/
def ExecutableInOrder (sm : StateManager) (txs : List Transaction) : Prop :=
  AtEachTurn (fun before tx => ExecutableOn (sm.applyTransactions before) tx) txs

/-- What a call took in from the network: the state it was executed on, the
transactions in order, and which pending transactions stay. -/
inductive Confirms (cfg : NodeConfig) (e : NodeEntry) :
    StateManager → List Transaction → (Transaction → Bool) → Prop
  | block (block : Block) : e.call.op = .acceptBlock block →
      (e.pre.acceptBlock cfg e.call.now block).ret = true →
      Confirms cfg e e.pre.stateManager block.transactions
        (fun pending => block.transactions.all fun tx => tx.txID ≠ pending.txID)
  | chain (newChain : List Block) : e.call.op.offered cfg.crypto = some newChain →
      (e.pre.replaceChain cfg e.call.now newChain).ret = true →
      Confirms cfg e {} (chainTransactions newChain)
        (fun pending => (chainTransactions newChain).all fun tx =>
          tx.isCoinbase || tx.txID ≠ pending.txID)

/-- The mempool the call leaves is executable in order, and so are the
transfers of whatever block is mined next. -/
structure LeavesMinable (e : NodeEntry) : Prop where
  pending : ExecutableInOrder e.post.stateManager e.post.mempool
  mined : ∀ {cfg : NodeConfig} {now : TimePoint} {minerAddress : String} {block : Block}
    {bc' : Blockchain}, Mined cfg now minerAddress e.post block bc' →
      ExecutableInOrder e.post.stateManager block.transactions.tail

/-! ## The condition -/

/-- The largest nonce `address` has used after `txs`, starting from `last`. -/
def nonceReached (last : UInt64) (txs : List Transaction) (address : String) : UInt64 :=
  txs.foldl (fun highest tx =>
    if tx.debited = some address then max highest tx.nonce else highest) last

/-- The balance of `address` after `txs`, starting from `balance`. -/
def balanceReached (balance : UInt64) (txs : List Transaction) (address : String) : UInt64 :=
  txs.foldl (balanceAfter address) balance

/-- A pending `tx` that stays is in no conflict with the transactions `txs`
confirmed on `base`: they take its sender's nonce as far as the pending ones
before it that are pruned did, and leave its sender the amount. `kept` are the
pending ones before it that stay. -/
structure NoConflict (sm base : StateManager) (txs before kept : List Transaction)
    (tx : Transaction) : Prop where
  nonce : nonceReached (base.getLastNonce tx.fromAddress) (txs ++ kept) tx.fromAddress =
    nonceReached (sm.getLastNonce tx.fromAddress) before tx.fromAddress
  funded : tx.amount ≤
    balanceReached (base.getBalance tx.fromAddress) (txs ++ kept) tx.fromAddress

/-- No pending transaction that stays is in conflict with the confirmed ones. -/
def NoConflicts (bc : Blockchain) (base : StateManager) (txs : List Transaction)
    (stays : Transaction → Bool) : Prop :=
  AtEachTurn (fun before tx => stays tx = true →
    NoConflict bc.stateManager base txs before (before.filter stays) tx) bc.mempool

/-! ## Pruning -/

/-- The state and the mempool after a call that confirms something: what it took
in is executed, and the pending transactions that do not stay are gone. -/
theorem Confirms.leaves {cfg : NodeConfig} {e : NodeEntry} {base : StateManager}
    {txs : List Transaction} {stays : Transaction → Bool} (h : Confirms cfg e base txs stays)
    (hstep : step cfg e.call e.pre = some (e.ret, e.post)) :
    e.post.stateManager = base.applyTransactions txs ∧
      e.post.mempool = e.pre.mempool.filter stays := by
  cases h with
  | block block hop hret =>
    rw [step_accepts hop (acceptBlock_ret.mp hret) hstep]
    refine ⟨rfl, List.filter_congr fun pending _ => ?_⟩
    simp [List.any_eq_not_all_not]
  | chain newChain hop hret =>
    rw [step_adopts hop (replaceChain_ret.mp hret) hstep]
    refine ⟨rebuildState_eq e.pre.stateManager newChain, List.filter_congr fun pending _ => ?_⟩
    -- the spent set lists the transfers of the new chain
    rw [Bool.eq_iff_iff, mem_kept_adopt]
    simp [Unconfirmed, or_iff_not_imp_left]

/-- A transaction that was executable at its turn stays so after the confirmed
ones exactly when it is in no conflict with them. -/
theorem executableOn_iff_noConflict {sm base : StateManager} {txs before kept : List Transaction}
    {tx : Transaction} (hexec : ExecutableOn (sm.applyTransactions before) tx) :
    ExecutableOn ((base.applyTransactions txs).applyTransactions kept) tx ↔
      NoConflict sm base txs before kept tx := by
  have hbefore : tx.nonce =
      nonceReached (sm.getLastNonce tx.fromAddress) before tx.fromAddress + 1 := by
    rw [hexec.next, getLastNonce_applyTransactions]
    rfl
  have hbalance : ((base.applyTransactions txs).applyTransactions kept).getBalance
        tx.fromAddress =
      balanceReached (base.getBalance tx.fromAddress) (txs ++ kept) tx.fromAddress := by
    rw [← applyTransactions_append, getBalance_applyTransactions_eq]
    rfl
  have hnonce : ((base.applyTransactions txs).applyTransactions kept).getLastNonce
        tx.fromAddress =
      nonceReached (base.getLastNonce tx.fromAddress) (txs ++ kept) tx.fromAddress := by
    rw [← applyTransactions_append, getLastNonce_applyTransactions]
    rfl
  constructor
  · intro h
    refine ⟨?_, hbalance ▸ h.funded⟩
    -- both are one below the nonce of `tx`
    have hnext := h.next
    rw [hnonce, hbefore] at hnext
    exact (UInt64.add_left_inj 1).mp hnext.symm
  · intro h
    refine ⟨hbalance ▸ h.funded, ?_⟩
    rw [hnonce, h.nonce, hbefore]

/-- A block mined on an executable mempool takes its transfers from the front. -/
theorem executable_mined {cfg : NodeConfig} {now : TimePoint} {minerAddress : String}
    {bc bc' : Blockchain} {block : Block} (hm : Mined cfg now minerAddress bc block bc')
    (h : ExecutableInOrder bc.stateManager bc.mempool) :
    ExecutableInOrder bc.stateManager block.transactions.tail := by
  rw [ExecutableInOrder, ← List.take_append_drop maxTxsPerBlock bc.mempool,
    atEachTurn_append] at h
  rw [hm.transactions]
  exact h.1

/-- **When pruning leaves a minable mempool.** A node in any state whose
mempool is executable in order takes in a block or a chain. The mempool it is
left with is executable in order on the new state, and the next block it mines
confirms no conflicting transfer, if and only if no pending transaction that
stays is in conflict with what was confirmed. -/
theorem pruning_leaves_minable_iff {cfg : NodeConfig} {e : NodeEntry}
    (hstep : step cfg e.call e.pre = some (e.ret, e.post))
    (hexec : ExecutableInOrder e.pre.stateManager e.pre.mempool) {base : StateManager}
    {txs : List Transaction} {stays : Transaction → Bool}
    (hconfirms : Confirms cfg e base txs stays) :
    LeavesMinable e ↔ NoConflicts e.pre base txs stays := by
  obtain ⟨hstate, hmempool⟩ := hconfirms.leaves hstep
  -- what stays pending runs on the new state, each at its own turn
  have hpending : ExecutableInOrder e.post.stateManager e.post.mempool ↔
      NoConflicts e.pre base txs stays := by
    rw [ExecutableInOrder, hstate, hmempool, atEachTurn_filter]
    constructor
    · intro h before tx after hsplit hstays
      exact (executableOn_iff_noConflict (hexec before tx after hsplit)).mp
        (h before tx after hsplit hstays)
    · intro h before tx after hsplit hstays
      exact (executableOn_iff_noConflict (hexec before tx after hsplit)).mpr
        (h before tx after hsplit hstays)
  rw [← hpending]
  exact ⟨fun h => h.pending, fun h => ⟨h, fun hm => executable_mined hm h⟩⟩

/-! ## Two transfers with one nonce

The miner signed two transfers with nonce 1. The node queued the one, and
receives a block with the other. -/

section Sample

/-- The other transfer with nonce 1, of 45. -/
def rivalTransfer : Transaction where
  txID := "782070f138f81f06fa5cd3253177a010be0db9b8821195202c716ab24d9d678b"
  senderPublicKey := samplePublicKey
  fromAddress := sampleMiner
  toAddress := samplePayee
  amount := 45
  nonce := 1
  payload := "loan"
  timestamp := "2026-03-14T12:00:12Z"
  digitalSignature := "304402205ba220b44ea95ae1791a4c32b79e53ce60bd91a48d98f5426535056edc1ef5e1" ++
    "022042bbdee2056eb5bb46b5a8ba34b0d9a803554659db5ac0032d650e9fa8a29145"

/-- The reward of the block that confirms it. -/
def rivalReward : Transaction :=
  { sampleReward "6ee857a9e155d240707223a365e45d453e9033f9ee177125ff27f6157eb694e3"
    "2026-03-14T12:00:20Z" with toAddress := samplePayee }

/-- That block. -/
def rivalBlock : Block where
  index := 2
  timestamp := "2026-03-14T12:00:20Z"
  previousHash := sampleBlock1.hash
  transactions := [rivalReward, rivalTransfer]
  merkleRoot := "8d7c940dd52168d5272675efbe64607e3eb430b873fefdda67e51c224c07e90f"
  nonce := 0
  difficulty := 0
  hash := "383b7cdb8837e2fbcbbe002dd1b1d56ceb76b92415565fc9e102c49644747b9f"

/-- The digests of the sample and of the block, and both signatures. -/
def rivalConfig : NodeConfig where
  crypto := .ofTable (sampleDigests ++
      [(buildTxCore rivalTransfer, rivalTransfer.txID),
        (buildTxCore rivalReward, rivalReward.txID),
        (rivalReward.txID ++ rivalTransfer.txID, rivalBlock.merkleRoot),
        (rivalBlock.headerString, rivalBlock.hash)])
    [(sampleTransfer.txID, sampleTransfer.digitalSignature, samplePublicKey),
      (rivalTransfer.txID, rivalTransfer.digitalSignature, samplePublicKey)]
  consensusEngine := none

/-- The node has mined a reward and queued the transfer of 20 when the block
arrives; the transfer stays pending. -/
theorem rival_history : ∃ bc, Accepts rivalConfig (sampleTime 20) rivalBlock bc ∧
    bc.mempool = [sampleTransfer] ∧ bc.stateManager.getBalance sampleMiner = 50 ∧
    bc.stateManager.getLastNonce sampleMiner = 0 ∧
    (bc.receive rivalBlock).mempool = [sampleTransfer] ∧
    (bc.receive rivalBlock).stateManager.getBalance sampleMiner = 5 := by
  obtain ⟨tr, bc, -, hcheck⟩ := Run.exists_of_exec (step rivalConfig)
    [⟨sampleTime 0, .minePendingTransactions sampleMiner⟩,
      ⟨sampleTime 10, .addTransaction sampleTransfer⟩] sampleStart
    (fun r => (r.2.acceptBlock rivalConfig (sampleTime 20) rivalBlock).ret &&
      r.2.mempool = [sampleTransfer] && r.2.stateManager.getBalance sampleMiner = 50 &&
      r.2.stateManager.getLastNonce sampleMiner = 0 &&
      (r.2.receive rivalBlock).mempool = [sampleTransfer] &&
      (r.2.receive rivalBlock).stateManager.getBalance sampleMiner = 5) (by decide +kernel)
  simp only [Bool.and_eq_true, decide_eq_true_eq, and_assoc] at hcheck
  exact ⟨bc, acceptBlock_ret.mp hcheck.1, hcheck.2⟩

/-- One pending transaction is executable in order when it is executable. -/
theorem executableInOrder_singleton {sm : StateManager} {tx : Transaction} :
    ExecutableInOrder sm [tx] ↔ ExecutableOn sm tx :=
  atEachTurn_singleton

/-- The call that takes the block in leaves a transfer that cannot be executed. -/
theorem rival_leaves : ∃ e : NodeEntry,
    step rivalConfig e.call e.pre = some (e.ret, e.post) ∧
      ExecutableInOrder e.pre.stateManager e.pre.mempool ∧
      (∃ base txs stays, Confirms rivalConfig e base txs stays) ∧ ¬ LeavesMinable e := by
  obtain ⟨bc, hacc, hmempool, hbalance, hnonce, hleft, hspent⟩ := rival_history
  refine ⟨⟨bc, ⟨sampleTime 20, .acceptBlock rivalBlock⟩, _, bc.receive rivalBlock⟩,
    step_acceptBlock hacc, ?_, ⟨_, _, _, .block rivalBlock rfl (acceptBlock_ret.mpr hacc)⟩,
    fun hminable => ?_⟩
  · show ExecutableInOrder bc.stateManager bc.mempool
    rw [hmempool, executableInOrder_singleton]
    refine ⟨?_, ?_⟩
    · show (20 : UInt64) ≤ bc.stateManager.getBalance sampleMiner
      rw [hbalance]
      decide
    · show (1 : UInt64) = bc.stateManager.getLastNonce sampleMiner + 1
      rw [hnonce]
      rfl
  · -- the miner has 5 coins left and 20 pending
    have hpending : ExecutableInOrder (bc.receive rivalBlock).stateManager
        (bc.receive rivalBlock).mempool := hminable.pending
    rw [hleft, executableInOrder_singleton] at hpending
    have hfunded : (20 : UInt64) ≤ (bc.receive rivalBlock).stateManager.getBalance sampleMiner :=
      hpending.funded
    rw [hspent] at hfunded
    revert hfunded
    decide

end Sample

/-- The pending transfer stays although its nonce and its funds are gone, and
the next mined block confirms it. -/
theorem pruning_counterexample :
    ¬ ∀ (cfg : NodeConfig) (e : NodeEntry) (base : StateManager) (txs : List Transaction)
      (stays : Transaction → Bool), step cfg e.call e.pre = some (e.ret, e.post) →
      ExecutableInOrder e.pre.stateManager e.pre.mempool → Confirms cfg e base txs stays →
      LeavesMinable e := by
  intro h
  obtain ⟨e, hstep, hexec, ⟨base, txs, stays, hconfirms⟩, hno⟩ := rival_leaves
  exact hno (h rivalConfig e base txs stays hstep hexec hconfirms)

/-- The theorem on that call: the two transfers are in conflict. -/
theorem pruning_leaves_minable_iff_sample :
    ∃ (e : NodeEntry) (base : StateManager) (txs : List Transaction)
      (stays : Transaction → Bool), Confirms rivalConfig e base txs stays ∧
      ¬ NoConflicts e.pre base txs stays := by
  obtain ⟨e, hstep, hexec, ⟨base, txs, stays, hconfirms⟩, hno⟩ := rival_leaves
  exact ⟨e, base, txs, stays, hconfirms,
    fun h => hno ((pruning_leaves_minable_iff hstep hexec hconfirms).mpr h)⟩

end PersonalBlockchain
