import PersonalBlockchain.Ledger.LocalBlocks

/-!
# Personal blockchain — local mining keeps the transactions in order

A node on its own moves transactions from the mempool to the chain and never
anywhere else: the confirmed transfers followed by the pending ones are the
transactions that `addTransaction` accepted, in the order of acceptance. Their
identifiers are distinct and every sender's nonces count up from 1.

Main result: `local_mining_in_order`.
-/

namespace PersonalBlockchain

open Machine Blockchain StateManager

/-- The confirmed transactions that are no coinbase, then the pending ones. -/
def Blockchain.confirmedThenPending (bc : Blockchain) : List Transaction :=
  withoutCoinbases (chainTransactions bc.chain) ++ bc.mempool

/-- The transaction a call of `addTransaction` was given, if it answered true. -/
def acceptedBy (e : NodeEntry) : Option Transaction :=
  match e.call.op, e.ret.answer with
  | .addTransaction tx, .bool true => some tx
  | _, _ => none

/-- The transactions for which `addTransaction` answered true, in order. -/
def acceptedTransactions (tr : List NodeEntry) : List Transaction :=
  tr.filterMap acceptedBy

/-! ## Nothing is lost or reordered -/

theorem confirmedThenPending_enqueue (bc : Blockchain) (tx : Transaction) :
    (bc.enqueue tx).confirmedThenPending = bc.confirmedThenPending ++ [tx] :=
  (List.append_assoc _ _ _).symm

/-- Mining moves transactions over the boundary between chain and mempool, and
changes nothing of their order. -/
theorem confirmedThenPending_mined {cfg : NodeConfig} {now : TimePoint} {minerAddress : String}
    {bc bc' : Blockchain} {block : Block} (hpending : ∀ tx ∈ bc.mempool, Transfer tx)
    (hm : Mined cfg now minerAddress bc block bc') :
    bc'.confirmedThenPending = bc.confirmedThenPending := by
  -- of the new block only the reward is dropped
  have htake := hm.withoutCoinbases hpending
  unfold confirmedThenPending
  rw [hm.chain, hm.mempool, chainTransactions_append, chainTransactions_cons,
    chainTransactions_nil, List.append_nil]
  unfold withoutCoinbases at htake ⊢
  rw [List.filter_append, htake, List.append_assoc, List.take_append_drop]

/-- What a local call adds to the transactions of the node is what it accepted. -/
theorem confirmedThenPending_step {cfg : NodeConfig} {call : Call} {bc bc' : Blockchain}
    {r : Reply} (hpending : ∀ tx ∈ bc.mempool, Transfer tx) (hlocal : call.isLocal = true)
    (h : step cfg call bc = some (r, bc')) :
    bc'.confirmedThenPending = bc.confirmedThenPending ++
      (acceptedBy ⟨bc, call, r, bc'⟩).toList := by
  obtain ⟨now, op⟩ := call
  cases op with
  -- accepted, the transaction goes to the end of the mempool
  | addTransaction tx =>
    cases h
    rcases addTransaction_cases cfg now tx bc with hrej | ⟨-, hout⟩
    · simp [hrej, acceptedBy, rejected]
    · simp [hout, acceptedBy, confirmedThenPending_enqueue]
  -- the pending part becomes confirmed, in its order
  | minePendingTransactions minerAddress =>
    simp only [step, Option.map_eq_some_iff] at h
    obtain ⟨out, hout, hr⟩ := h
    cases hr
    rw [confirmedThenPending_mined hpending (mine_spec hout).1]
    exact (List.append_nil _).symm
  | acceptBlock block => cases hlocal
  | replaceChain newChain => cases hlocal
  | chainFromJson j => cases hlocal

/-! ## Distinct identifiers, consecutive nonces -/

/-- The largest nonce among the transactions from an address, 0 without any. -/
def highestNonce (txs : List Transaction) (address : String) : UInt64 :=
  txs.foldl (fun highest tx =>
    if tx.fromAddress = address then max highest tx.nonce else highest) 0

/-- Identifiers do not repeat, and each sender that stays below the 64-bit
range has used the nonces 1, 2, …, the last of them being the largest. -/
structure Sequenced (txs : List Transaction) : Prop where
  distinct : (txs.map Transaction.txID).Nodup
  nonces : ∀ address, (sentFrom txs address).length < 2 ^ 64 →
    (sentFrom txs address).map (fun tx => tx.nonce.toNat) =
      List.range' 1 (sentFrom txs address).length
  highest : ∀ address, (sentFrom txs address).length < 2 ^ 64 →
    (highestNonce txs address).toNat = (sentFrom txs address).length

theorem sequenced_nil : Sequenced [] :=
  ⟨List.nodup_nil, fun _ _ => rfl, fun _ _ => rfl⟩

/-- One transaction more raises the largest nonce of its sender. -/
theorem highestNonce_snoc (txs : List Transaction) (tx : Transaction) (address : String) :
    highestNonce (txs ++ [tx]) address =
      if tx.fromAddress = address then max (highestNonce txs address) tx.nonce
      else highestNonce txs address := by
  rw [highestNonce, List.foldl_append]
  rfl

/-- One transaction more, with a fresh identifier and the next nonce. -/
theorem Sequenced.snoc {txs : List Transaction} {tx : Transaction} (h : Sequenced txs)
    (hfresh : tx.txID ∉ txs.map Transaction.txID)
    (hnonce : tx.nonce = highestNonce txs tx.fromAddress + 1) : Sequenced (txs ++ [tx]) := by
  -- as long as the count fits in 64 bits the sum does not wrap
  have hnext : (sentFrom txs tx.fromAddress).length + 1 < 2 ^ 64 →
      tx.nonce.toNat = (sentFrom txs tx.fromAddress).length + 1 := by
    intro hlen
    have hhighest := h.highest tx.fromAddress (by omega)
    rw [hnonce, UInt64.toNat_add, hhighest]
    exact Nat.mod_eq_of_lt hlen
  refine ⟨?_, fun address hlen => ?_, fun address hlen => ?_⟩
  · exact nodup_txID_snoc h.distinct hfresh
  · by_cases hfrom : tx.fromAddress = address
    · subst hfrom
      rw [sentFrom_snoc_self, List.length_append, List.length_singleton] at hlen ⊢
      have hbefore := h.nonces tx.fromAddress (by omega)
      rw [List.map_append, hbefore, List.range'_concat, List.map_singleton, hnext hlen,
        Nat.one_mul, Nat.add_comm 1]
    · rw [sentFrom_snoc_ne hfrom] at hlen ⊢
      exact h.nonces address hlen
  · rw [highestNonce_snoc]
    by_cases hfrom : tx.fromAddress = address
    · subst hfrom
      rw [sentFrom_snoc_self, List.length_append, List.length_singleton] at hlen ⊢
      have hbefore := h.highest tx.fromAddress (by omega)
      have hle : highestNonce txs tx.fromAddress ≤ tx.nonce := by
        rw [UInt64.le_iff_toNat_le, hbefore, hnext hlen]
        exact Nat.le_succ _
      rw [if_pos rfl]
      show (if highestNonce txs tx.fromAddress ≤ tx.nonce then tx.nonce
        else highestNonce txs tx.fromAddress).toNat = _
      rw [if_pos hle, hnext hlen]
    · rw [sentFrom_snoc_ne hfrom] at hlen
      rw [if_neg hfrom, sentFrom_snoc_ne hfrom]
      exact h.highest address hlen

/-- On a node on its own the highest nonce `addTransaction` sees is that of all
transactions, confirmed and pending: the confirmed ones are in the map, the
others in the mempool. -/
theorem highestSeenNonce_eq {bc : Blockchain} (h : LocalLedger bc) {address : String}
    (haddr : address ≠ "") :
    bc.highestSeenNonce address = highestNonce bc.confirmedThenPending address := by
  have hconfirmed : bc.stateManager.getLastNonce address =
      highestNonce (withoutCoinbases (chainTransactions bc.chain)) address := by
    rw [h.refines.eq_applyTransactions, getLastNonce_applyTransactions, highestNonce,
      withoutCoinbases, List.foldl_filter]
    congr 1
    funext highest tx
    -- a coinbase debits no account, whatever its sender address
    cases hcb : tx.isCoinbase <;>
      simp [Transaction.debited_eq_some_iff, hcb, haddr]
  rw [highestSeenNonce, hconfirmed, highestNonce, highestNonce, confirmedThenPending,
    List.foldl_append]

/-- A transaction that passes the spent set and the mempool is new. -/
theorem fresh_of_admitted {cfg : NodeConfig} {now : TimePoint} {tx : Transaction}
    {bc : Blockchain} (h : LocalLedger bc) (hadm : Admitted cfg now tx bc) :
    tx.txID ∉ bc.confirmedThenPending.map Transaction.txID := by
  rw [confirmedThenPending, List.map_append, List.mem_append, not_or]
  refine ⟨fun hmem => ?_, hadm.not_pending⟩
  -- a confirmed one is in the spent set
  obtain ⟨tx', htx', hid⟩ := List.mem_map.mp hmem
  obtain ⟨hchain, hcb⟩ := List.mem_filter.mp htx'
  have hspent : bc.stateManager.isDoubleSpend tx.txID = true := by
    rw [h.refines.eq_applyTransactions, isDoubleSpend_applyTransactions]
    exact Or.inr ⟨tx', hchain, by simpa using hcb, hid⟩
  rw [hadm.unspent] at hspent
  cases hspent

/-- Queueing and mining keep the order: a queued transaction comes with a fresh
identifier and the next nonce, a mined block only moves the boundary. -/
theorem sequenced_step {cfg : NodeConfig} {call : Call} {bc bc' : Blockchain} {r : Reply}
    (hI : LocalLedger bc ∧ Sequenced bc.confirmedThenPending) (hlocal : call.isLocal = true)
    (h : step cfg call bc = some (r, bc')) :
    LocalLedger bc' ∧ Sequenced bc'.confirmedThenPending := by
  refine ⟨localLedger_step hI.1 hlocal h, ?_⟩
  rcases local_cases hlocal h with rfl | ⟨tx, hadm, rfl⟩ | ⟨minerAddress, block, hm⟩
  · exact hI.2
  · rw [confirmedThenPending_enqueue]
    refine hI.2.snoc (fresh_of_admitted hI.1 hadm) ?_
    rw [hadm.nonce_eq, highestSeenNonce_eq hI.1 hadm.transfer.from_ne]
  · rw [confirmedThenPending_mined hI.1.pending hm]
    exact hI.2

/-! ## Histories -/

/-- A new node has confirmed its genesis reward only. -/
theorem confirmedThenPending_start {cfg : NodeConfig} {now : TimePoint} {difficulty : UInt32}
    {start : Blockchain} (h : Starts cfg now difficulty none start) :
    start.confirmedThenPending = [] := by
  obtain ⟨-, hmem, genesis, hgenesis, hchain, -⟩ := start_fresh h
  rw [confirmedThenPending, hmem, hchain, chainTransactions_cons,
    (Block.createGenesis_spec hgenesis).2.1]
  rfl

/-- What a node on its own has, confirmed and then pending, is what it accepted.
-/
theorem confirmedThenPending_history {cfg : NodeConfig} {now : TimePoint} {difficulty : UInt32}
    {start bc : Blockchain} {tr : List NodeEntry}
    (hstart : Starts cfg now difficulty none start) (hist : History cfg start tr bc)
    (hlocal : ∀ e ∈ tr, e.call.isLocal = true) :
    bc.confirmedThenPending = acceptedTransactions tr := by
  -- on the history from its end: the last call adds what it accepted
  induction hist with
  | nil => exact confirmedThenPending_start hstart
  | @snoc tr bc bc' call r hist hstep ih =>
    have hbefore : ∀ e ∈ tr, e.call.isLocal = true := fun e he =>
      hlocal e (List.mem_append_left _ he)
    have hcall := hlocal _ (List.mem_append_right _ (List.mem_singleton_self _))
    have hpending := (localLedger_history hstart hist hbefore).pending
    have hlast : acceptedTransactions [⟨bc, call, r, bc'⟩] =
        (acceptedBy ⟨bc, call, r, bc'⟩).toList := by
      unfold acceptedTransactions
      cases hby : acceptedBy ⟨bc, call, r, bc'⟩ <;> simp [hby]
    rw [confirmedThenPending_step hpending hcall hstep, ih hbefore, ← hlast]
    exact List.filterMap_append.symm

/-- **Local mining loses, duplicates and reorders nothing.** After any history
of queueing and mining:

* the confirmed transactions that are no coinbase, then the pending ones, are
  those `addTransaction` accepted, in the order of acceptance;
* their identifiers are pairwise distinct;
* every block carries one coinbase, first, and at most 100 others;
* the nonces a sender used are 1, 2, …, k in this order, below 2^64 of them. -/
theorem local_mining_in_order {cfg : NodeConfig} {now : TimePoint} {difficulty : UInt32}
    {start bc : Blockchain} {tr : List NodeEntry}
    (hstart : Starts cfg now difficulty none start) (hist : History cfg start tr bc)
    (hlocal : ∀ e ∈ tr, e.call.isLocal = true) :
    withoutCoinbases (chainTransactions bc.chain) ++ bc.mempool = acceptedTransactions tr ∧
    ((acceptedTransactions tr).map Transaction.txID).Nodup ∧
    (∀ block ∈ bc.chain, ∃ coinbase others, block.transactions = coinbase :: others ∧
      coinbase.isCoinbase = true ∧ (∀ tx ∈ others, tx.isCoinbase = false) ∧
      others.length ≤ 100) ∧
    ∀ address, (sentFrom (acceptedTransactions tr) address).length < 2 ^ 64 →
      (sentFrom (acceptedTransactions tr) address).map (fun tx => tx.nonce.toNat) =
        List.range' 1 (sentFrom (acceptedTransactions tr) address).length := by
  have haccepted := confirmedThenPending_history hstart hist hlocal
  have hnone : Sequenced start.confirmedThenPending := by
    rw [confirmedThenPending_start hstart]
    exact sequenced_nil
  -- one invariant of the run for the blocks and the order
  obtain ⟨hI, hseq⟩ := hist.invariant_of
    (I := fun bc => LocalLedger bc ∧ Sequenced bc.confirmedThenPending)
    (C := fun _ call => call.isLocal = true) ⟨localLedger_start hstart, hnone⟩
    (fun _ _ _ _ => sequenced_step) hlocal
  rw [haccepted] at hseq
  refine ⟨haccepted, hseq.distinct, ?_, hseq.nonces⟩
  intro block hblock
  obtain ⟨coinbase, others, htxs, hcb, -, hlen, hothers⟩ := hI.blocks block hblock
  exact ⟨coinbase, others, htxs, hcb, fun tx htx => (hothers tx htx).notCoinbase, hlen⟩

/-- The sample node queues the transfer and mines it. -/
theorem local_mining_in_order_sample :
    ∃ (tr : List NodeEntry) (bc : Blockchain), tr.length = 3 ∧ bc.mempool = [] ∧
      withoutCoinbases (chainTransactions bc.chain) ++ bc.mempool = [sampleTransfer] := by
  obtain ⟨tr, bc, hist, hcheck⟩ := Run.exists_of_exec (step sampleConfig)
    [⟨sampleTime 0, .minePendingTransactions sampleMiner⟩,
      ⟨sampleTime 10, .addTransaction sampleTransfer⟩,
      ⟨sampleTime 20, .minePendingTransactions sampleMiner⟩] sampleStart
    (fun r => r.1.length = 3 && r.1.all (fun e => e.call.isLocal) &&
      r.2.mempool = [] && acceptedTransactions r.1 = [sampleTransfer]) (by decide +kernel)
  simp only [Bool.and_eq_true, decide_eq_true_eq, List.all_eq_true] at hcheck
  obtain ⟨⟨⟨hlen, hlocal⟩, hmem⟩, haccepted⟩ := hcheck
  have hstart := starts_freshNode sampleGenesis_created (sampleTime 0)
  obtain ⟨heq, -⟩ := local_mining_in_order hstart hist hlocal
  exact ⟨tr, bc, hlen, hmem, heq.trans haccepted⟩

end PersonalBlockchain
