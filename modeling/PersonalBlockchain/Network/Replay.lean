import PersonalBlockchain.Ledger.LocalBlocks

/-!
# Personal blockchain — replayed transactions

The double-spend and nonce rules stand in `addTransaction`. A block or a chain
from the network is not asked them, and a pending transaction was only asked
when it was queued, so a transfer may be confirmed twice and nonces may fall
back. A chain stays free of replays exactly when the rules hold of everything
that is appended to it, at its turn; for mined blocks only the nonces matter,
because pending identifiers are never confirmed ones.

## Results

* `noReplay_iff` — being free of replays, transaction by transaction;
* `pendingFresh_step` — pending identifiers are never confirmed ones, in any
  history of any node;
* `noReplay_step` — a call keeps the chain free of replays exactly under its rule;
* `replay_free_iff` — the same along every history;
* `replay_counterexample` — a transfer that is confirmed twice.
-/

namespace PersonalBlockchain

open Machine Turns Blockchain StateManager

/-- No identifier is confirmed twice, and the nonces of every sender strictly
increase. -/
structure NoReplay (txs : List Transaction) : Prop where
  distinct : ((withoutCoinbases txs).map Transaction.txID).Nodup
  increasing : ∀ address,
    (sentFrom (withoutCoinbases txs) address).Pairwise fun t u => t.nonce < u.nonce

/-- The nonce of `tx` is above those its sender has confirmed. -/
def NonceAbove (past : List Transaction) (tx : Transaction) : Prop :=
  ∀ t ∈ past, t.isCoinbase = false → t.fromAddress = tx.fromAddress → t.nonce < tx.nonce

/-- The identifier of `tx` is not among the confirmed ones. -/
def Unconfirmed (past : List Transaction) (tx : Transaction) : Prop :=
  ∀ t ∈ past, t.isCoinbase = false → t.txID ≠ tx.txID

/-! ## One transaction more -/

theorem noReplay_nil : NoReplay [] :=
  ⟨List.nodup_nil, fun _ => List.Pairwise.nil⟩

/-- Both demands are made of every two transactions, the earlier one first. -/
theorem noReplay_iff_pairwise (txs : List Transaction) :
    NoReplay txs ↔ (withoutCoinbases txs).Pairwise fun t u =>
      t.txID ≠ u.txID ∧ (t.fromAddress = u.fromAddress → t.nonce < u.nonce) := by
  -- the transactions of one sender keep their order in the list of that sender
  have hincreasing : (∀ address, (sentFrom (withoutCoinbases txs) address).Pairwise
        fun t u => t.nonce < u.nonce) ↔
      (withoutCoinbases txs).Pairwise fun t u =>
        t.fromAddress = u.fromAddress → t.nonce < u.nonce := by
    simp only [sentFrom, List.pairwise_filter, decide_eq_true_eq]
    constructor
    · intro h
      rw [List.pairwise_iff_forall_sublist]
      intro t u htu hfrom
      exact List.pairwise_iff_forall_sublist.mp (h u.fromAddress) htu hfrom rfl
    · exact fun h address => h.imp fun hlt ht hu => hlt (ht.trans hu.symm)
  rw [List.pairwise_and_iff, ← hincreasing, ← List.pairwise_map]
  exact ⟨fun h => ⟨h.distinct, h.increasing⟩, fun h => ⟨h.1, h.2⟩⟩

/-- One transaction more: a coinbase makes no difference, a transfer needs a new
identifier and a higher nonce. -/
theorem noReplay_snoc (txs : List Transaction) (tx : Transaction) :
    NoReplay (txs ++ [tx]) ↔
      NoReplay txs ∧ (tx.isCoinbase = false → Unconfirmed txs tx ∧ NonceAbove txs tx) := by
  rw [noReplay_iff_pairwise, noReplay_iff_pairwise, withoutCoinbases_snoc]
  cases hcb : tx.isCoinbase with
  | true => simp
  | false =>
    rw [if_neg Bool.false_ne_true, List.pairwise_append]
    -- `tx` is the later one in every new pair
    simp only [List.pairwise_singleton, List.mem_singleton, forall_eq, true_and,
      mem_withoutCoinbases, forall_prop_of_true]
    refine and_congr_right fun _ => ⟨fun h => ⟨?_, ?_⟩, ?_⟩
    · exact fun t ht htcb => (h t ⟨ht, htcb⟩).1
    · exact fun t ht htcb => (h t ⟨ht, htcb⟩).2
    · rintro ⟨hid, hnonce⟩ t ⟨ht, htcb⟩
      exact ⟨hid t ht htcb, hnonce t ht htcb⟩

/-- Being free of replays is a check at each turn, against what came before. -/
theorem noReplay_iff (txs : List Transaction) :
    NoReplay txs ↔ AtEachTurn (fun past tx =>
      tx.isCoinbase = false → Unconfirmed past tx ∧ NonceAbove past tx) txs :=
  iff_atEachTurn noReplay_nil noReplay_snoc txs

/-! ## Pending transactions are unconfirmed -/

/-- The pending transactions are transfers with distinct identifiers, none of
them confirmed. -/
structure PendingFresh (bc : Blockchain) : Prop where
  refines : LedgerMatches bc
  transfers : ∀ tx ∈ bc.mempool, Transfer tx
  distinct : (bc.mempool.map Transaction.txID).Nodup
  unconfirmed : ∀ tx ∈ bc.mempool, Unconfirmed (chainTransactions bc.chain) tx

/-- The spent set answers for the confirmed transactions. -/
theorem unconfirmed_iff {past : List Transaction} {tx : Transaction} :
    Unconfirmed past tx ↔ (applyTransactions {} past).isDoubleSpend tx.txID = false := by
  rw [← Bool.not_eq_true, isDoubleSpend_applyTransactions]
  simp [Unconfirmed, isDoubleSpend]

/-- An adopted chain keeps pending whoever its own spent set does not list. -/
theorem mem_kept_adopt {sm : StateManager} {chain : List Block} {pending : Transaction} :
    (!(sm.rebuildState chain).spentTxIDs.contains pending.txID) = true ↔
      Unconfirmed (chainTransactions chain) pending := by
  rw [rebuildState_eq, unconfirmed_iff, Bool.not_eq_true']
  rfl

/-- An identifier is new to two lists when it is new to each. -/
theorem unconfirmed_append {past txs : List Transaction} {tx : Transaction} :
    Unconfirmed (past ++ txs) tx ↔ Unconfirmed past tx ∧ Unconfirmed txs tx :=
  List.forall_mem_append

/-- A nonce is above those of two lists when it is above those of each. -/
theorem nonceAbove_append {past txs : List Transaction} {tx : Transaction} :
    NonceAbove (past ++ txs) tx ↔ NonceAbove past tx ∧ NonceAbove txs tx :=
  List.forall_mem_append

theorem pendingFresh_start {cfg : NodeConfig} {now : TimePoint} {difficulty : UInt32}
    {persisted : Option (List Block)} {start : Blockchain}
    (h : Starts cfg now difficulty persisted start) : PendingFresh start := by
  have hmem := (start_cases h).2.1
  exact ⟨ledgerMatches_start h, by simp [hmem], by simp [hmem], by simp [hmem]⟩

/-- **Step lemma.** Every call of every node keeps pending identifiers apart
from confirmed ones. -/
theorem pendingFresh_step {cfg : NodeConfig} {call : Call} {bc bc' : Blockchain} {r : Reply}
    (hI : PendingFresh bc) (h : step cfg call bc = some (r, bc')) : PendingFresh bc' := by
  have hrefines := ledgerMatches_step hI.refines h
  have htransfers := pending_transfer_step hI.transfers h
  cases step_cases h with
  | unchanged => exact hI
  | queued tx _ hadm =>
    have hnew : Unconfirmed (chainTransactions bc.chain) tx := by
      rw [unconfirmed_iff, ← hI.refines.eq_applyTransactions]
      exact hadm.unspent
    refine ⟨hrefines, htransfers, nodup_txID_snoc hI.distinct hadm.not_pending, ?_⟩
    intro t ht
    rcases List.mem_append.mp ht with ht | ht
    · exact hI.unconfirmed t ht
    · rw [List.mem_singleton.mp ht]
      exact hnew
  | mined minerAddress block _ _ hm =>
    have hsplit := hI.distinct
    rw [← List.take_append_drop maxTxsPerBlock bc.mempool, List.map_append,
      List.nodup_append] at hsplit
    have hdistinct : (bc'.mempool.map Transaction.txID).Nodup := by
      rw [hm.mempool]
      exact hsplit.2.1
    refine ⟨hrefines, htransfers, hdistinct, ?_⟩
    rw [hm.mempool, hm.chain, chainTransactions_append]
    intro tx htx
    refine unconfirmed_append.mpr ⟨hI.unconfirmed tx (List.mem_of_mem_drop htx), ?_⟩
    -- the block holds the reward and the pending transactions before `tx`
    intro t ht htcb
    rw [chainTransactions_cons, chainTransactions_nil, List.append_nil, hm.transactions] at ht
    rcases List.mem_cons.mp ht with rfl | ht
    · cases htcb
    · exact hsplit.2.2 _ (List.mem_map_of_mem ht) _ (List.mem_map_of_mem htx)
  | received block _ _ =>
    refine ⟨hrefines, htransfers, hI.distinct.sublist (List.filter_sublist.map _), ?_⟩
    intro tx htx
    -- what the block confirms has left the mempool
    obtain ⟨hmem, hkeep⟩ := List.mem_filter.mp htx
    rw [receive, chainTransactions_append, unconfirmed_append]
    refine ⟨hI.unconfirmed tx hmem, fun t ht _ hid => ?_⟩
    simp only [Bool.not_eq_true', List.any_eq_false, decide_eq_true_eq] at hkeep
    exact hkeep t (by simpa using ht) hid
  | adopted newChain _ _ _ =>
    refine ⟨hrefines, htransfers, hI.distinct.sublist (List.filter_sublist.map _), ?_⟩
    intro tx htx
    -- the pending ones are compared with the spent set of the new chain
    have hkeep := (List.mem_filter.mp htx).2
    rw [rebuildState_eq] at hkeep
    show Unconfirmed (chainTransactions newChain) tx
    rw [unconfirmed_iff]
    simpa [isDoubleSpend] using hkeep

/-! ## What has to hold of a call -/

/-- The checks of `addTransaction`, made of each of `txs` at its turn: it is
no double spend, and its nonce is above those of its sender. -/
def ReplayChecked (sm : StateManager) (past txs : List Transaction) : Prop :=
  AtEachTurn (fun before tx => tx.isCoinbase = false →
    (sm.applyTransactions before).isDoubleSpend tx.txID = false ∧
      NonceAbove (past ++ before) tx) txs

/-- What keeps the chain free of replays: the checks on whatever is taken in
from the network, and the nonce check on the pending transactions that are
mined. -/
structure KeepsReplayRules (cfg : NodeConfig) (bc : Blockchain) (call : Call) : Prop where
  mined : ∀ minerAddress, call.op = .minePendingTransactions minerAddress →
    AtEachTurn (fun before tx => NonceAbove (chainTransactions bc.chain ++ before) tx)
      (bc.mempool.take 100)
  received : ∀ block, call.op = .acceptBlock block → Accepts cfg call.now block bc →
    ReplayChecked bc.stateManager (chainTransactions bc.chain) block.transactions
  adopted : ∀ newChain, call.op.offered cfg.crypto = some newChain →
    Adopts cfg call.now newChain bc → ReplayChecked {} [] (chainTransactions newChain)

/-- More transactions are free of replays when they pass the checks. -/
theorem noReplay_append {past txs : List Transaction} :
    NoReplay (past ++ txs) ↔
      NoReplay past ∧ ReplayChecked (applyTransactions {} past) past txs := by
  rw [noReplay_iff, atEachTurn_append, ← noReplay_iff]
  simp only [ReplayChecked, unconfirmed_iff, applyTransactions_append]

/-- Of a mined block only the nonces can go wrong. -/
theorem noReplay_mined {past transfers : List Transaction} {coinbase : Transaction}
    (hcb : coinbase.isCoinbase = true) (htransfers : ∀ tx ∈ transfers, tx.isCoinbase = false)
    (hdistinct : (transfers.map Transaction.txID).Nodup)
    (hunconfirmed : ∀ tx ∈ transfers, Unconfirmed past tx) :
    NoReplay (past ++ coinbase :: transfers) ↔
      NoReplay past ∧ AtEachTurn (fun before tx => NonceAbove (past ++ before) tx) transfers := by
  rw [noReplay_iff, atEachTurn_append, ← noReplay_iff, ← List.singleton_append, atEachTurn_append]
  -- the reward in front neither confirms an identifier nor uses a nonce
  have hnonce : ∀ before tx, NonceAbove (past ++ ([coinbase] ++ before)) tx ↔
      NonceAbove (past ++ before) tx := by
    intro before tx
    have hreward : NonceAbove [coinbase] tx := by simp [NonceAbove, hcb]
    rw [nonceAbove_append, nonceAbove_append, nonceAbove_append, and_iff_right hreward]
  refine and_congr_right fun _ => ⟨fun h => h.2.imp fun before tx htx hturn => ?_, fun h =>
    ⟨atEachTurn_singleton.mpr (by simp [hcb]), ?_⟩⟩
  · exact (hnonce before tx).mp (hturn (htransfers tx htx)).2
  · intro before tx after hsplit _
    have hold : Unconfirmed past tx := hunconfirmed tx (by simp [hsplit])
    have hreward : Unconfirmed [coinbase] tx := by simp [Unconfirmed, hcb]
    have hothers : Unconfirmed before tx := by
      intro t ht _ hid
      rw [hsplit, List.map_append, List.nodup_append] at hdistinct
      exact hdistinct.2.2 _ (List.mem_map_of_mem ht) tx.txID (by simp) hid
    refine ⟨?_, (hnonce before tx).mpr (h before tx after hsplit)⟩
    rw [unconfirmed_append, unconfirmed_append]
    exact ⟨hold, hreward, hothers⟩

/-- A call keeps the chain free of replays exactly under its rule. -/
theorem noReplay_step {cfg : NodeConfig} {call : Call} {bc bc' : Blockchain} {r : Reply}
    (hI : PendingFresh bc) (hP : NoReplay (chainTransactions bc.chain))
    (h : step cfg call bc = some (r, bc')) :
    NoReplay (chainTransactions bc'.chain) ↔ KeepsReplayRules cfg bc call := by
  cases step_cases h with
  | unchanged hmine hblock hchain =>
    exact iff_of_true hP ⟨fun m hm => absurd hm (hmine m), fun b hb ha => absurd ha (hblock b hb),
      fun c hc ha => absurd ha (hchain c hc)⟩
  | queued tx hop _ =>
    exact iff_of_true hP ⟨by simp [hop], by simp [hop], by simp [hop, Op.offered]⟩
  | mined minerAddress block _ hop hm =>
    -- what is pending is new to the chain, so that only the reward matters
    have htake : ∀ tx ∈ bc.mempool.take maxTxsPerBlock, tx ∈ bc.mempool :=
      fun tx => List.mem_of_mem_take
    have htransfers : ∀ tx ∈ bc.mempool.take maxTxsPerBlock, tx.isCoinbase = false :=
      fun tx htx => (hI.transfers tx (htake tx htx)).notCoinbase
    have hdistinct := hI.distinct.sublist ((List.take_sublist maxTxsPerBlock _).map _)
    have hunconfirmed : ∀ tx ∈ bc.mempool.take maxTxsPerBlock,
        Unconfirmed (chainTransactions bc.chain) tx :=
      fun tx htx => hI.unconfirmed tx (htake tx htx)
    rw [hm.chain, chainTransactions_append, chainTransactions_cons, chainTransactions_nil,
      List.append_nil, hm.transactions, noReplay_mined rfl htransfers hdistinct hunconfirmed,
      and_iff_right hP]
    constructor
    · exact fun hnonces => ⟨fun _ _ => hnonces, by simp [hop], by simp [hop, Op.offered]⟩
    · exact fun hrules => hrules.mined minerAddress hop
  | received block hop hacc =>
    -- the block follows the chain that was there
    rw [receive, chainTransactions_append, noReplay_append, and_iff_right hP,
      ← hI.refines.eq_applyTransactions, chainTransactions_cons, chainTransactions_nil,
      List.append_nil]
    constructor
    · intro hchecked
      refine ⟨by simp [hop], fun b hb _ => ?_, by simp [hop, Op.offered]⟩
      obtain rfl : block = b := Op.acceptBlock.inj (hop.symm.trans hb)
      exact hchecked
    · exact fun hrules => hrules.received block hop hacc
  | adopted newChain _ hop hado =>
    -- the new chain stands by itself
    show NoReplay ([] ++ chainTransactions newChain) ↔ _
    rw [noReplay_append, and_iff_right noReplay_nil]
    constructor
    · intro hchecked
      refine ⟨fun m hm => ?_, fun b hb => ?_, fun c hc _ => ?_⟩
      · simp [hm, Op.offered] at hop
      · simp [hb, Op.offered] at hop
      · obtain rfl : newChain = c := Option.some.inj (hop.symm.trans hc)
        exact hchecked
    · exact fun hrules => hrules.adopted newChain hop hado

/-- **When a node's chain is free of replays.** In every history of every
node, the chain it starts with and all the chains it goes through are free of
replays if and only if the loaded chain passes the checks of `addTransaction`
and every call keeps the rules. -/
theorem replay_free_iff {cfg : NodeConfig} {now : TimePoint} {difficulty : UInt32}
    {persisted : Option (List Block)} {start bc : Blockchain} {tr : List NodeEntry}
    (hstart : Starts cfg now difficulty persisted start) (hist : History cfg start tr bc) :
    (NoReplay (chainTransactions start.chain) ∧
      ∀ e ∈ tr, NoReplay (chainTransactions e.post.chain)) ↔
    (ReplayChecked {} [] (chainTransactions start.chain) ∧
      ∀ e ∈ tr, KeepsReplayRules cfg e.pre e.call) := by
  have hload : NoReplay (chainTransactions start.chain) ↔
      ReplayChecked {} [] (chainTransactions start.chain) := by
    rw [← List.nil_append (chainTransactions start.chain), noReplay_append,
      and_iff_right noReplay_nil, List.nil_append]
    rfl
  rw [← hload]
  refine and_congr_right fun hP => ?_
  exact hist.forall_post_iff (P := fun bc => NoReplay (chainTransactions bc.chain))
    (C := KeepsReplayRules cfg) (pendingFresh_start hstart)
    (fun _ _ _ _ => pendingFresh_step) hP fun _ _ _ _ => noReplay_step

/-! ## A transfer that is confirmed twice -/

section Sample

/-- A third block with the transfer of the second. -/
def replayBlock : Block where
  index := 3
  timestamp := "2026-03-14T12:00:30Z"
  previousHash := sampleBlock2.hash
  transactions := [sampleTransfer]
  merkleRoot := sampleTransfer.txID
  nonce := 0
  difficulty := 0
  hash := "0778515cba4bbab314593fde41f583bd6a8da52c59db4adbf6a2adf99c95c5b1"

/-- The digests of the sample and of the block, without an engine. -/
def replayConfig : NodeConfig where
  crypto := .ofTable (sampleDigests ++ [(replayBlock.headerString, replayBlock.hash)])
    [(sampleTransfer.txID, sampleTransfer.digitalSignature, samplePublicKey)]
  consensusEngine := none

theorem replayGenesis_created :
    Block.createGenesis replayConfig.crypto 0 = some sampleGenesis := by
  decide +kernel

/-- A new node adopts the sample chain and accepts the third block. -/
theorem replay_history : ∃ tr bc, History replayConfig sampleStart tr bc ∧
    (∃ e ∈ tr, e.post.chain = bc.chain) ∧
    bc.chain = [sampleGenesis, sampleBlock1, sampleBlock2, replayBlock] := by
  obtain ⟨tr, bc, hist, hcheck⟩ := Run.exists_of_exec (step replayConfig)
    [⟨sampleTime 30, .replaceChain [sampleGenesis, sampleBlock1, sampleBlock2]⟩,
      ⟨sampleTime 40, .acceptBlock replayBlock⟩] sampleStart
    (fun r => r.1.any (fun e => e.post.chain = r.2.chain) &&
      r.2.chain = [sampleGenesis, sampleBlock1, sampleBlock2, replayBlock]) (by decide +kernel)
  simp only [Bool.and_eq_true, decide_eq_true_eq, List.any_eq_true] at hcheck
  exact ⟨tr, bc, hist, hcheck⟩

/-- The chain with the third block confirms one identifier twice. -/
theorem replayed_chain : ¬ NoReplay
    (chainTransactions [sampleGenesis, sampleBlock1, sampleBlock2, replayBlock]) := by
  intro h
  have hdistinct := h.distinct
  revert hdistinct
  decide +kernel

end Sample

/-- The node confirms the same transfer twice. -/
theorem replay_counterexample :
    ¬ ∀ (cfg : NodeConfig) (now : TimePoint) (difficulty : UInt32)
      (persisted : Option (List Block)) (start bc : Blockchain) (tr : List NodeEntry),
      Starts cfg now difficulty persisted start → History cfg start tr bc →
      NoReplay (chainTransactions bc.chain) := by
  intro h
  obtain ⟨tr, bc, hist, -, hchain⟩ := replay_history
  have hstart := starts_freshNode replayGenesis_created (sampleTime 0)
  have hno := h replayConfig (sampleTime 0) 0 none sampleStart bc tr hstart hist
  rw [hchain] at hno
  exact replayed_chain hno

/-- The theorem on that run: the rules are not kept. -/
theorem replay_free_iff_sample : ∃ (tr : List NodeEntry) (bc : Blockchain),
    History replayConfig sampleStart tr bc ∧
      ¬ (ReplayChecked {} [] (chainTransactions sampleStart.chain) ∧
        ∀ e ∈ tr, KeepsReplayRules replayConfig e.pre e.call) := by
  obtain ⟨tr, bc, hist, ⟨e, he, hpost⟩, hchain⟩ := replay_history
  refine ⟨tr, bc, hist, fun hrules => ?_⟩
  have hstart := starts_freshNode replayGenesis_created (sampleTime 0)
  have hfree := ((replay_free_iff hstart hist).mpr hrules).2 e he
  rw [hpost, hchain] at hfree
  exact replayed_chain hfree

end PersonalBlockchain
