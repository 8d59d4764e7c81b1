import PersonalBlockchain.Ledger.Maps
import PersonalBlockchain.Ledger.Refinement
import PersonalBlockchain.Lib.Filing

/-!
# Personal blockchain — the history of a wallet

`transactionsByAddress_` is appended to in two places: a transaction is filed
under the address it credits and then under the address it debits. When the two
are the same it is filed there twice.

## Results

* `history_rebuildState` — the history of an address is what is filed under it;
* `history_exact_iff` — it lists what concerns the address once and in order
  exactly when the address never pays itself;
* `history_exact_counterexample` — a payment to oneself is listed twice.
-/

namespace PersonalBlockchain

open Std Filing FiniteMap Machine

namespace Transaction

/-- The addresses a transaction is filed under, the credited one first. -/
def filedUnder (tx : Transaction) : List String := tx.credited.toList ++ tx.debited.toList

/-- A transaction to the address, or one from it that is no coinbase. -/
def Concerns (address : String) (tx : Transaction) : Prop :=
  tx.toAddress = address ∨ tx.isCoinbase = false ∧ tx.fromAddress = address

instance (address : String) (tx : Transaction) : Decidable (tx.Concerns address) :=
  inferInstanceAs (Decidable (_ ∨ _))

/-- Sender and receiver are the same. -/
def SelfTransfer (tx : Transaction) : Prop :=
  tx.isCoinbase = false ∧ tx.fromAddress = tx.toAddress

variable {tx : Transaction} {address : String}

theorem credited_eq_some_iff :
    tx.credited = some address ↔ tx.toAddress = address ∧ address ≠ "" := by
  unfold credited
  split_ifs with h
  · simp only [false_iff, not_and, not_not]
    rintro rfl
    exact h
  · rw [Option.some_inj]
    exact ⟨fun heq => ⟨heq, heq ▸ h⟩, And.left⟩

/-- How often a transaction is filed under an address: at most once for each
side. -/
theorem count_filedUnder : tx.filedUnder.count address =
    (if tx.credited = some address then 1 else 0) +
      if tx.debited = some address then 1 else 0 := by
  have hcount : ∀ o : Option String,
      o.toList.count address = if o = some address then 1 else 0 := by
    intro o
    cases o <;> simp [List.count_singleton]
  rw [filedUnder, List.count_append, hcount, hcount]

/-- A transaction is filed under the addresses it concerns. -/
theorem mem_filedUnder : address ∈ tx.filedUnder ↔ tx.Concerns address ∧ address ≠ "" := by
  rw [filedUnder, List.mem_append, Option.mem_toList, Option.mem_toList, credited_eq_some_iff,
    debited_eq_some_iff, ← and_assoc, ← or_and_right]
  rfl

/-- Only a transfer to itself is filed twice. -/
theorem count_filedUnder_le_one_iff (h : address ≠ "") :
    tx.filedUnder.count address ≤ 1 ↔ (tx.Concerns address → ¬ tx.SelfTransfer) := by
  have hboth : tx.toAddress = address ∧ tx.isCoinbase = false ∧ tx.fromAddress = address ↔
      tx.Concerns address ∧ tx.SelfTransfer := by
    constructor
    · rintro ⟨hto, hcb, hfrom⟩
      exact ⟨.inl hto, hcb, hfrom.trans hto.symm⟩
    · rintro ⟨hto | ⟨-, hfrom⟩, hcb, hself⟩
      · exact ⟨hto, hcb, hself.trans hto⟩
      · exact ⟨hself.symm.trans hfrom, hcb, hfrom⟩
  rw [← not_and, ← hboth, count_filedUnder]
  simp only [credited_eq_some_iff, debited_eq_some_iff, h, ne_eq, not_false_eq_true, and_true]
  split_ifs <;> simp_all

end Transaction

namespace StateManager

variable {sm : StateManager} {tx : Transaction} {address other : String}

/-! ## What is filed -/

theorem history_recordTransaction :
    (sm.recordTransaction other tx).getTransactionsForAddress address =
      sm.getTransactionsForAddress address ++ if other = address then [tx] else [] := by
  unfold recordTransaction
  rw [getTransactionsForAddress, ExtTreeMap.getD_eq_getD_getElem?, getElem?_insert_eq]
  split
  next heq =>
    rw [heq]
    rfl
  next =>
    rw [List.append_nil, getTransactionsForAddress, ExtTreeMap.getD_eq_getD_getElem?]

theorem history_credit : (sm.credit tx).getTransactionsForAddress address =
    sm.getTransactionsForAddress address ++ if tx.credited = some address then [tx] else [] := by
  unfold credit Transaction.credited
  split
  · simp
  · rw [history_recordTransaction]
    simp only [Option.some.injEq]
    rfl

theorem history_debit : (sm.debit tx).getTransactionsForAddress address =
    sm.getTransactionsForAddress address ++ if tx.debited = some address then [tx] else [] := by
  unfold debit Transaction.debited
  split
  next hcb => simp [hcb, getTransactionsForAddress]
  next hcb =>
    split
    next hempty => simp [hempty, getTransactionsForAddress]
    next hfrom =>
      rw [history_recordTransaction, if_neg (not_or.mpr ⟨hcb, hfrom⟩)]
      simp only [Option.some.injEq]
      rfl

/-- One transaction is filed as often as it names the address. -/
theorem history_applyTransaction : (sm.applyTransaction tx).getTransactionsForAddress address =
    sm.getTransactionsForAddress address ++
      List.replicate (tx.filedUnder.count address) tx := by
  rw [applyTransaction, history_debit, history_credit, Transaction.count_filedUnder,
    List.replicate_add, List.append_assoc]
  split_ifs <;> rfl

theorem history_applyTransactions {txs : List Transaction} :
    (sm.applyTransactions txs).getTransactionsForAddress address =
      sm.getTransactionsForAddress address ++ filed Transaction.filedUnder txs address := by
  induction txs generalizing sm with
  | nil => exact (List.append_nil _).symm
  | cons tx txs ih =>
    rw [applyTransactions_cons, ih, history_applyTransaction, filed_cons, List.append_assoc]

/-- Blocks applied one by one are replayed with those before them. -/
theorem applyBlockState_rebuildState (first rest : List Block) :
    rest.foldl applyBlockState (sm.rebuildState first) = sm.rebuildState (first ++ rest) :=
  List.foldl_append.symm

/-- The history of an address after a replay is what is filed under it, of the
whole chain and in its order. -/
theorem history_rebuildState {chain : List Block} :
    (sm.rebuildState chain).getTransactionsForAddress address =
      filed Transaction.filedUnder (chainTransactions chain) address := by
  rw [rebuildState_eq, history_applyTransactions]
  rfl

end StateManager

/-- What is filed under an address lists what concerns it once and in order,
exactly when there is no transfer to itself among it. -/
theorem filed_exact_iff {txs : List Transaction} {address : String} :
    filed Transaction.filedUnder txs address = (txs.filter fun tx => tx.Concerns address) ↔
      ∀ tx ∈ txs, tx.Concerns address → address ≠ "" ∧ ¬ tx.SelfTransfer := by
  by_cases hempty : address = ""
  · -- nothing is filed under the empty text
    have hnone : filed Transaction.filedUnder txs address = [] := by
      refine List.flatMap_eq_nil_iff.mpr fun tx _ => ?_
      have hnot : address ∉ tx.filedUnder := fun h => (Transaction.mem_filedUnder.mp h).2 hempty
      rw [List.count_eq_zero.mpr hnot, List.replicate_zero]
    rw [hnone, eq_comm, List.filter_eq_nil_iff]
    simp [hempty]
  · have hfilter : (txs.filter fun tx => tx.Concerns address) =
        txs.filter fun tx => address ∈ tx.filedUnder :=
      List.filter_congr fun tx _ => by simp [Transaction.mem_filedUnder, hempty]
    rw [hfilter, filed_eq_filter_iff]
    refine forall₂_congr fun tx _ => ?_
    rw [Transaction.count_filedUnder_le_one_iff hempty]
    simp [hempty]

/-- **When the history of an address is exact.** After the replay of a chain
and any number of blocks more, it lists what concerns the address once and in
the order of the chain, exactly when there is no transfer of the address to
itself among it. (Nothing is filed under the empty text.) -/
theorem history_exact_iff (sm : StateManager) (first rest : List Block) (address : String) :
    (rest.foldl StateManager.applyBlockState (sm.rebuildState first)).getTransactionsForAddress
        address = ((chainTransactions (first ++ rest)).filter fun tx => tx.Concerns address) ↔
      ∀ tx ∈ chainTransactions (first ++ rest), tx.Concerns address →
        address ≠ "" ∧ ¬ tx.SelfTransfer := by
  rw [StateManager.applyBlockState_rebuildState, StateManager.history_rebuildState,
    filed_exact_iff]

/-! ## A note to oneself

A reward, and a signed transfer of 20 from its receiver to itself. The digests
and the signature are genuine. -/

section Sample

/-- The key the transfer is signed with. -/
def selfPublicKey : String :=
  "03b38dac60ce064c4b975e5865897d8f6e791da21988dd78401c3d5a0670edbe6f"
def selfAddress : String := "PCN_3d463b32eb824bc9463119baeab56e374170f71c"

/-- A reward for the wallet. -/
def selfReward : Transaction :=
  { sampleReward "bf537595682d65b6ef47fd3e38bd90183a90c0048bf98bcd52548599643573d3"
      "2026-03-14T12:00:00Z" with toAddress := selfAddress }

/-- The signed transfer of 20 to the wallet itself. -/
def selfTransfer : Transaction where
  txID := "4724446373ebb35f0c26374c5590d82c5c773c6db0577cb05861c16d5643c8bd"
  senderPublicKey := selfPublicKey
  fromAddress := selfAddress
  toAddress := selfAddress
  amount := 20
  nonce := 1
  payload := "note to self"
  timestamp := "2026-03-14T12:00:10Z"
  digitalSignature := "3045022075d8ffe0a48c98918094caa90d1baadd32881696139962eeae71e0a80342" ++
    "b5a7022100bee088404cdd448ae4147c39475e818e1a8b49c3c5a1e0aeb1ea1e225a8ea6bb"

/-- The block with the reward. -/
def selfBlock1 : Block where
  index := 1
  timestamp := "2026-03-14T12:00:00Z"
  previousHash := sampleGenesis.hash
  transactions := [selfReward]
  merkleRoot := selfReward.txID
  nonce := 0
  difficulty := 0
  hash := "50c073371185a6272c701d236755d7b9b2dd65bb15107518fb04ba235a712b3c"

/-- The block with the transfer. -/
def selfBlock2 : Block where
  index := 2
  timestamp := "2026-03-14T12:00:20Z"
  previousHash := selfBlock1.hash
  transactions := [sampleReward2, selfTransfer]
  merkleRoot := "e97f7ecfee590b6327a781708a57c429c0a6d925ba4f573c2af6413ee98c955c"
  nonce := 0
  difficulty := 0
  hash := "008c2e2e8fdaefd782c61fb65c48c4e356260fc9bacafa7bae0a3227c1b697f4"

/-- The digests of the sample and both signatures, without an engine. -/
def selfConfig : NodeConfig where
  crypto := .ofTable
    (sampleDigests ++
      [(selfPublicKey, "3d463b32eb824bc9463119baeab56e374170f71ca439459bee776fec48ed8110"),
        (buildTxCore selfReward, selfReward.txID),
        (selfBlock1.headerString, selfBlock1.hash),
        (buildTxCore selfTransfer, selfTransfer.txID),
        (sampleReward2.txID ++ selfTransfer.txID, selfBlock2.merkleRoot),
        (selfBlock2.headerString, selfBlock2.hash)])
    [(selfTransfer.txID, selfTransfer.digitalSignature, selfPublicKey)]
  consensusEngine := none

end Sample

/-- A node mines a reward, queues the transfer and mines it: the transfer is in
the chain once and in the history twice. -/
theorem history_exact_counterexample :
    ∃ tr bc, History selfConfig sampleStart tr bc ∧
      bc.chain = [sampleGenesis, selfBlock1, selfBlock2] ∧
      ((chainTransactions bc.chain).filter fun tx => tx.Concerns selfAddress) =
        [selfReward, selfTransfer] ∧
      bc.getTransactionsForAddress selfAddress = [selfReward, selfTransfer, selfTransfer] := by
  obtain ⟨tr, bc, hist, hcheck⟩ := Run.exists_of_exec (step selfConfig)
    [⟨sampleTime 0, .minePendingTransactions selfAddress⟩,
      ⟨sampleTime 10, .addTransaction selfTransfer⟩,
      ⟨sampleTime 20, .minePendingTransactions sampleMiner⟩] sampleStart
    (fun r => decide (r.2.chain = [sampleGenesis, selfBlock1, selfBlock2] ∧
      r.2.getTransactionsForAddress selfAddress = [selfReward, selfTransfer, selfTransfer]))
    (by decide +kernel)
  obtain ⟨hchain, hhistory⟩ := of_decide_eq_true hcheck
  refine ⟨tr, bc, hist, hchain, ?_, hhistory⟩
  rw [hchain]
  decide +kernel

end PersonalBlockchain
