import PersonalBlockchain.Ledger.LocalBlocks

/-!
# Personal blockchain — solvency of a node on its own

A node that only queues and mines admits a transaction when the sender's
confirmed balance, with everything pending to it and from it, covers the
amount. The invariant behind that check is that the confirmed transactions
followed by the pending ones are `Posting.Covered`: executed in this order,
every sender holds the amount at its turn. A reward in between does no harm,
so mining keeps it; while fewer than 2^63 coins are issued no balance wraps,
so the `uint64_t` maps are exactly the posted balances.

## Results

* `executes_of_covered` — covered transactions are executed in full, with the
  posted integers for balances;
* `solvent_step`, `solvent_history` — the invariant, kept by queueing and mining;
* `local_solvency` — solvency and conservation in every history of such a node.
-/

namespace PersonalBlockchain

open Machine Blockchain StateManager

/-! ## Totals of a list of transactions -/

/-- All that the transactions credit to an address. -/
def totalCredited (txs : List Transaction) (address : String) : Nat :=
  ((txs.filter fun tx => tx.credited = some address).map fun tx => tx.amount.toNat).sum

/-- All that the transactions debit from an address. -/
def totalDebited (txs : List Transaction) (address : String) : Nat :=
  ((txs.filter fun tx => tx.debited = some address).map fun tx => tx.amount.toNat).sum

/-- The amounts of the transfers without a recipient address. -/
def burnedCoins (txs : List Transaction) : Nat :=
  ((txs.filter fun tx => !tx.isCoinbase && tx.toAddress = "").map fun tx => tx.amount.toNat).sum

/-- The block pays its reward to somebody. -/
def Block.rewardsSomebody (block : Block) : Bool :=
  block.transactions.any fun tx => tx.isCoinbase && tx.toAddress ≠ ""

/-- The transactions as postings of integers. -/
def postings (txs : List Transaction) : List (Posting String ℤ) :=
  txs.map (Transaction.posting toInt)

theorem postings_append (txs txs' : List Transaction) :
    postings (txs ++ txs') = postings txs ++ postings txs' :=
  List.map_append

theorem postings_nonneg (txs : List Transaction) : ∀ p ∈ postings txs, 0 ≤ p.amount := by
  intro p hp
  obtain ⟨tx, -, rfl⟩ := List.mem_map.mp hp
  exact Int.natCast_nonneg _

/-- A sum of selected amounts, as the postings add it up. -/
theorem sum_selected (select : Transaction → Bool) (txs : List Transaction) :
    ((((txs.filter select).map fun tx => tx.amount.toNat).sum : Nat) : ℤ) =
      (txs.map fun tx => if select tx then toInt tx.amount else 0).sum := by
  induction txs with
  | nil => rfl
  | cons tx txs ih =>
    by_cases h : select tx = true <;> simp [h, ih, toInt]

/-- The credits of an account are what the transactions credit to it. -/
theorem credits_postings (txs : List Transaction) (address : String) :
    Posting.credits (postings txs) address = totalCredited txs address := by
  rw [totalCredited, sum_selected, Posting.credits, postings, List.map_map]
  congr 1
  refine List.map_congr_left fun tx _ => ?_
  by_cases h : tx.credited = some address <;> simp [Posting.credit, Transaction.posting, h]

/-- The debits of an account are what the transactions debit from it. -/
theorem debits_postings (txs : List Transaction) (address : String) :
    Posting.debits (postings txs) address = totalDebited txs address := by
  rw [totalDebited, sum_selected, Posting.debits, postings, List.map_map]
  congr 1
  refine List.map_congr_left fun tx _ => ?_
  by_cases h : tx.debited = some address <;> simp [Posting.debit, Transaction.posting, h]

theorem burned_postings {txs : List Transaction}
    (htxs : ∀ tx ∈ txs, tx.isCoinbase = true ∨ Transfer tx) :
    Posting.burned (postings txs) = burnedCoins txs := by
  rw [burnedCoins, sum_selected, Posting.burned, postings, List.map_map]
  congr 1
  refine List.map_congr_left fun tx htx => ?_
  rcases htxs tx htx with hcb | htransfer
  · simp [Transaction.posting, Transaction.debited, hcb]
  · simp [Transaction.posting, htransfer.debited, htransfer.notCoinbase, Transaction.credited]

theorem issued_transfers {txs : List Transaction} (htxs : ∀ tx ∈ txs, Transfer tx) :
    Posting.issued (postings txs) = 0 := by
  rw [Posting.issued, postings, List.map_map]
  refine List.sum_eq_zero fun x hx => ?_
  obtain ⟨tx, htx, rfl⟩ := List.mem_map.mp hx
  simp [Transaction.posting, (htxs tx htx).debited]

/-- A block issues 50 coins, unless nobody receives them. -/
theorem issued_rewardBlock {block : Block} (h : RewardBlock block) :
    Posting.issued (postings block.transactions) = if block.rewardsSomebody then 50 else 0 := by
  obtain ⟨coinbase, transfers, htxs, hcb, hamount, -, htransfers⟩ := h
  -- the transfers neither issue nor count as rewards
  have hrest : (transfers.any fun tx => tx.isCoinbase && tx.toAddress ≠ "") = false := by
    simp only [List.any_eq_false, Bool.and_eq_true, not_and]
    intro tx htx hcb'
    rw [(htransfers tx htx).notCoinbase] at hcb'
    cases hcb'
  have hissued := issued_transfers htransfers
  rw [Block.rewardsSomebody, htxs, List.any_cons, hrest, Bool.or_false, hcb, Bool.true_and]
  simp only [postings, Posting.issued, List.map_cons, List.sum_cons] at hissued ⊢
  rw [hissued]
  by_cases hto : coinbase.toAddress = "" <;>
    simp [Transaction.posting, Transaction.debited, Transaction.credited, hcb, hto, hamount, toInt]

/-- A chain issues 50 coins for every block that rewards somebody. -/
theorem issued_rewardBlocks {chain : List Block} (h : ∀ block ∈ chain, RewardBlock block) :
    Posting.issued (postings (chainTransactions chain)) =
      50 * chain.countP Block.rewardsSomebody := by
  induction chain with
  | nil => rfl
  | cons block chain ih =>
    obtain ⟨hblock, hchain⟩ := List.forall_mem_cons.mp h
    rw [chainTransactions_cons, postings_append, Posting.issued_append, ih hchain,
      issued_rewardBlock hblock, List.countP_cons]
    split_ifs <;> push_cast <;> omega

/-! ## Covered transactions are executed in full -/

/-- A sender who holds the amount before the credit pays in full, unless the
credit wraps its balance. -/
theorem paysInFull_of_funded {sm : StateManager} {tx : Transaction}
    (htx : tx.isCoinbase = true ∨ Transfer tx)
    (hfunded : ∀ payer, tx.debited = some payer → tx.amount ≤ sm.getBalance payer)
    (hroom : ∀ a, toInt (sm.getBalance a) + Posting.credit a (tx.posting toInt) < 2 ^ 64) :
    sm.paysInFull tx = true := by
  rw [paysInFull_iff]
  intro hcb
  have htransfer : Transfer tx := by simpa [hcb] using htx
  refine ⟨htransfer.from_ne, (sm.credit tx).getBalance tx.fromAddress, ?_, ?_⟩
  · -- an amount that is not zero is only held by an account with an entry
    have hentry : (sm.credit tx).balances.contains tx.fromAddress = true := by
      have hknown : sm.balances.contains tx.fromAddress = true := by
        by_contra hno
        have hle := hfunded _ htransfer.debited
        rw [getBalance, Std.ExtTreeMap.getD_eq_fallback (by simpa using hno),
          UInt64.le_iff_toNat_le] at hle
        exact htransfer.amount_ne (UInt64.toNat_inj.mp (Nat.le_zero.mp hle))
      rw [credit_balances]
      split_ifs
      · exact hknown
      · simp [Std.ExtTreeMap.contains_insert, hknown]
    exact Std.ExtTreeMap.getElem?_eq_some_getD_of_contains hentry
  · -- the credit only adds to what was held before
    have hle := hfunded _ htransfer.debited
    have hno := hroom tx.fromAddress
    rw [getBalance_credit]
    rw [← credit_toInt] at hno
    rw [UInt64.le_iff_toNat_le] at hle ⊢
    rw [UInt64.toNat_add]
    unfold toInt at hno
    omega

/-- **Refinement of the balances.** When every sender holds the amount at its
turn and fewer than 2^63 coins are issued, the replay debits in full and its
balances are the posted integers. -/
theorem executes_of_covered {txs : List Transaction}
    (htxs : ∀ tx ∈ txs, tx.isCoinbase = true ∨ Transfer tx)
    (hcov : Posting.Covered 0 (postings txs)) (hsupply : Posting.issued (postings txs) < 2 ^ 63) :
    executesInFull {} txs = true ∧
      ∀ address, toInt ((applyTransactions {} txs).getBalance address) =
        Posting.postAll 0 (postings txs) address := by
  induction txs using List.reverseRecOn with
  | nil => exact ⟨rfl, fun _ => rfl⟩
  | append_singleton txs tx ih =>
    have hsnoc : postings (txs ++ [tx]) = postings txs ++ [tx.posting toInt] :=
      postings_append txs [tx]
    have hamounts := postings_nonneg (txs ++ [tx])
    rw [hsnoc] at hcov hsupply hamounts ⊢
    have hcredit := hcov.credit_le_issued hamounts
    obtain ⟨hcovtxs, hcovtx⟩ := Posting.covered_append.mp hcov
    have hissued : Posting.issued (postings txs) ≤
        Posting.issued (postings txs ++ [tx.posting toInt]) := by
      rw [Posting.issued_append]
      exact le_add_of_nonneg_right (Posting.issued_nonneg (postings_nonneg [tx]))
    have hbefore : ∀ t ∈ txs, t.isCoinbase = true ∨ Transfer t :=
      fun t ht => htxs t (List.mem_append_left _ ht)
    obtain ⟨hexec, hbal⟩ := ih hbefore hcovtxs (hissued.trans_lt hsupply)
    -- a balance and a credit are each at most what was issued
    have hroom : ∀ a, toInt ((applyTransactions {} txs).getBalance a) +
        Posting.credit a (tx.posting toInt) < 2 ^ 64 := by
      intro a
      have hheld := hcovtxs.le_issued (postings_nonneg txs) a
      have hreceived := hcredit a
      rw [hbal a]
      omega
    have hfunded : ∀ payer, tx.debited = some payer →
        tx.amount ≤ (applyTransactions {} txs).getBalance payer := by
      intro payer hpayer
      have hpaid := hcovtx.1 payer hpayer
      rw [← hbal payer] at hpaid
      rw [UInt64.le_iff_toNat_le]
      exact Int.ofNat_le.mp hpaid
    have hpays := paysInFull_of_funded (htxs tx (by simp)) hfunded hroom
    refine ⟨?_, fun a => ?_⟩
    · rw [executesInFull_append, hexec]
      simp [executesInFull, hpays]
    · rw [applyTransactions_append, Posting.postAll_append, applyTransactions_cons,
        applyTransactions_nil, (toInt_getBalance_applyTransaction hpays a).2 (hroom a)]
      simp only [Posting.postAll_cons, Posting.postAll_nil, hbal]

/-! ## Admission checks the balance after the pending transactions -/

/-- A loop that adds the selected amounts. -/
theorem foldl_selected (select : Transaction → Prop) [DecidablePred select] (start : UInt64)
    (txs : List Transaction) :
    txs.foldl (fun sum tx => if select tx then sum + tx.amount else sum) start =
      start + ((txs.filter fun tx => select tx).map Transaction.amount).sum := by
  induction txs generalizing start with
  | nil => simp
  | cons tx txs ih =>
    rw [List.foldl_cons, ih]
    by_cases h : select tx <;> simp [h, add_assoc]

/-- What is pending to an address, as `addTransaction` adds it up. -/
theorem pendingIncoming_eq (bc : Blockchain) (address : String) :
    bc.pendingIncoming address = receivedBy bc.mempool address := by
  rw [pendingIncoming, foldl_selected, zero_add, receivedBy]

theorem pendingOutgoing_eq {bc : Blockchain} (hpending : ∀ tx ∈ bc.mempool, Transfer tx)
    (address : String) : bc.pendingOutgoing address = sentBy bc.mempool address := by
  rw [pendingOutgoing, foldl_selected, zero_add, sentBy]
  congr 2
  refine List.filter_congr fun tx htx => ?_
  rw [(hpending tx htx).notCoinbase, Bool.not_false, Bool.true_and]

/-- The available balance `addTransaction` computes is the balance after the
pending transactions, so admission compares the amount with what the sender will
hold at its turn. -/
theorem availableBalance_eq {bc : Blockchain} {address : String} (haddr : address ≠ "")
    (hpending : ∀ tx ∈ bc.mempool, Transfer tx)
    (hexec : bc.stateManager.executesInFull bc.mempool = true) :
    bc.stateManager.getBalance address + bc.pendingIncoming address -
        bc.pendingOutgoing address =
      (bc.stateManager.applyTransactions bc.mempool).getBalance address := by
  rw [getBalance_applyTransactions hexec, Posting.postAll_eq, credits_eq_receivedBy _ haddr,
    debits_eq_sentBy _ haddr, pendingIncoming_eq, pendingOutgoing_eq hpending]

/-! ## The invariant -/

/-- The confirmed transactions, then the pending ones, are covered in this
order while fewer than 2^63 coins are issued. -/
def Solvent (bc : Blockchain) : Prop :=
  50 * bc.chain.countP Block.rewardsSomebody < 2 ^ 63 →
    Posting.Covered 0 (postings (chainTransactions bc.chain ++ bc.mempool))

/-- What the node issued, on the chain and with its pending transactions. -/
theorem LocalLedger.issued {bc : Blockchain} (h : LocalLedger bc) :
    Posting.issued (postings (chainTransactions bc.chain ++ bc.mempool)) =
      50 * bc.chain.countP Block.rewardsSomebody := by
  rw [postings_append, Posting.issued_append, issued_rewardBlocks h.blocks,
    issued_transfers h.pending, add_zero]

/-- All transactions of the node are coinbases and transfers. -/
theorem LocalLedger.transactions {bc : Blockchain} (h : LocalLedger bc) :
    ∀ tx ∈ chainTransactions bc.chain ++ bc.mempool, tx.isCoinbase = true ∨ Transfer tx := by
  intro tx htx
  rcases List.mem_append.mp htx with hchain | hpending
  · exact transfer_of_rewardBlocks h.blocks tx hchain
  · exact Or.inr (h.pending tx hpending)

/-- The maps of a solvent node hold the posted balances at every prefix of its
transactions. -/
theorem LocalLedger.executes {bc : Blockchain} (h : LocalLedger bc) (hsolvent : Solvent bc)
    (hsupply : 50 * bc.chain.countP Block.rewardsSomebody < 2 ^ 63) {txs txs' : List Transaction}
    (hsplit : txs ++ txs' = chainTransactions bc.chain ++ bc.mempool) :
    executesInFull {} txs = true ∧
      ∀ address, toInt ((applyTransactions {} txs).getBalance address) =
        Posting.postAll 0 (postings txs) address := by
  have hcov := hsolvent hsupply
  have hissued := h.issued
  have htxs := h.transactions
  rw [← hsplit] at hcov hissued htxs
  rw [postings_append] at hcov hissued
  rw [Posting.issued_append] at hissued
  -- a prefix issues no more than the whole
  have hrest := Posting.issued_nonneg (postings_nonneg txs')
  have hless : Posting.issued (postings txs) < 2 ^ 63 := by omega
  exact executes_of_covered (fun tx htx => htxs tx (List.mem_append_left _ htx))
    (Posting.covered_append.mp hcov).1 hless

/-- A queued transaction is covered by what admission checked. -/
theorem solvent_queued {cfg : NodeConfig} {now : TimePoint} {tx : Transaction} {bc : Blockchain}
    (h : LocalLedger bc) (hsolvent : Solvent bc) (hadm : Admitted cfg now tx bc) :
    Solvent (bc.enqueue tx) := by
  intro hsupply
  obtain ⟨hexec, hbal⟩ := h.executes hsolvent hsupply (List.append_nil _)
  rw [executesInFull_append, Bool.and_eq_true, ← h.refines.eq_applyTransactions] at hexec
  -- what admission compared the amount with is the balance at its turn
  have hfunded := hadm.funded
  rw [availableBalance_eq hadm.transfer.from_ne h.pending hexec.2] at hfunded
  show Posting.Covered 0 (postings (chainTransactions bc.chain ++ (bc.mempool ++ [tx])))
  rw [← List.append_assoc, postings_append, Posting.covered_append]
  refine ⟨hsolvent hsupply, fun payer hpayer => ?_, Posting.covered_nil _⟩
  obtain ⟨-, rfl, -⟩ := Transaction.debited_eq_some_iff.mp hpayer
  rw [← hbal, applyTransactions_append, ← h.refines.eq_applyTransactions]
  exact Int.ofNat_le.mpr (UInt64.le_iff_toNat_le.mp hfunded)

/-- A mined block keeps everything covered: its reward comes in between, and the
others keep their turns. -/
theorem solvent_mined {cfg : NodeConfig} {now : TimePoint} {minerAddress : String}
    {bc bc' : Blockchain} {block : Block} (hsolvent : Solvent bc)
    (hm : Mined cfg now minerAddress bc block bc') : Solvent bc' := by
  intro hsupply
  rw [hm.chain, List.countP_append] at hsupply
  have hcov := hsolvent (by omega)
  -- the reward goes in between the confirmed and the pending transactions
  rw [hm.chain, hm.mempool, chainTransactions_append, chainTransactions_cons,
    chainTransactions_nil, List.append_nil, hm.transactions, List.append_assoc, List.cons_append,
    List.take_append_drop]
  rw [postings_append] at hcov ⊢
  exact Posting.Covered.insert rfl (Int.natCast_nonneg _) hcov

/-- **Step lemma.** Queueing and mining keep a node solvent. -/
theorem solvent_step {cfg : NodeConfig} {call : Call} {bc bc' : Blockchain} {r : Reply}
    (hI : LocalLedger bc ∧ Solvent bc) (hlocal : call.isLocal = true)
    (h : step cfg call bc = some (r, bc')) : LocalLedger bc' ∧ Solvent bc' := by
  refine ⟨localLedger_step hI.1 hlocal h, ?_⟩
  rcases local_cases hlocal h with rfl | ⟨tx, hadm, rfl⟩ | ⟨minerAddress, block, hm⟩
  · exact hI.2
  · exact solvent_queued hI.1 hI.2 hadm
  · exact solvent_mined hI.2 hm

/-- A new node has its genesis reward and nothing to pay. -/
theorem solvent_start {cfg : NodeConfig} {now : TimePoint} {difficulty : UInt32}
    {start : Blockchain} (h : Starts cfg now difficulty none start) : Solvent start := by
  intro _
  obtain ⟨-, hmem, genesis, hgenesis, hchain, -⟩ := start_fresh h
  rw [hchain, hmem, chainTransactions_cons, (Block.createGenesis_spec hgenesis).2.1]
  -- the genesis reward debits nobody
  refine ⟨fun payer hpayer => ?_, Posting.covered_nil _⟩
  cases hpayer

theorem solvent_history {cfg : NodeConfig} {now : TimePoint} {difficulty : UInt32}
    {start bc : Blockchain} {tr : List NodeEntry}
    (hstart : Starts cfg now difficulty none start) (hist : History cfg start tr bc)
    (hlocal : ∀ e ∈ tr, e.call.isLocal = true) : LocalLedger bc ∧ Solvent bc :=
  hist.invariant_of (I := fun bc => LocalLedger bc ∧ Solvent bc)
    (C := fun _ call => call.isLocal = true) ⟨localLedger_start hstart, solvent_start hstart⟩
    (fun _ _ _ _ => solvent_step) hlocal

/-! ## Solvency and conservation -/

/-- **A node on its own is solvent.** After any history of queueing and mining
that issued fewer than 2^63 coins:

* executing the pending transactions in order debits in full, and each sender
  holds the amount at its turn;
* every block of the chain debited in full, so a balance is what was credited
  minus what was debited;
* all balances together are 50 for every block that rewards somebody, minus
  the transfers to nobody. -/
theorem local_solvency {cfg : NodeConfig} {now : TimePoint} {difficulty : UInt32}
    {start bc : Blockchain} {tr : List NodeEntry}
    (hstart : Starts cfg now difficulty none start) (hist : History cfg start tr bc)
    (hlocal : ∀ e ∈ tr, e.call.isLocal = true)
    (hsupply : 50 * bc.chain.countP Block.rewardsSomebody < 2 ^ 63) :
    (bc.stateManager.executesInFull bc.mempool = true ∧
      ∀ before tx after, bc.mempool = before ++ tx :: after →
        tx.amount ≤ (bc.stateManager.applyTransactions before).getBalance tx.fromAddress) ∧
    ((∀ before block after, bc.chain = before ++ block :: after →
        (rebuildState {} before).executesInFull block.transactions = true) ∧
      ∀ address, (bc.getBalanceForAddress address).toNat +
          totalDebited (chainTransactions bc.chain) address =
        totalCredited (chainTransactions bc.chain) address) ∧
    bc.stateManager.totalBalance + burnedCoins (chainTransactions bc.chain) =
      50 * bc.chain.countP Block.rewardsSomebody := by
  obtain ⟨hI, hsolvent⟩ := solvent_history hstart hist hlocal
  have hchain := hI.executes hsolvent hsupply (rfl : chainTransactions bc.chain ++ _ = _)
  have hall := hI.executes hsolvent hsupply (List.append_nil _)
  rw [← hI.refines.eq_applyTransactions] at hchain
  refine ⟨⟨?_, ?_⟩, ⟨?_, ?_⟩, ?_⟩
  -- the pending transactions
  · have hexec := hall.1
    rw [executesInFull_append, Bool.and_eq_true, ← hI.refines.eq_applyTransactions] at hexec
    exact hexec.2
  · intro before tx after hsplit
    have hcov := hsolvent hsupply
    rw [hsplit, ← List.append_assoc, postings_append, Posting.covered_append] at hcov
    have htransfer : Transfer tx := hI.pending tx (by simp [hsplit])
    have hpaid := hcov.2.1 tx.fromAddress htransfer.debited
    have hturn : (chainTransactions bc.chain ++ before) ++ tx :: after =
        chainTransactions bc.chain ++ bc.mempool := by rw [hsplit, List.append_assoc]
    obtain ⟨-, hbal⟩ := hI.executes hsolvent hsupply hturn
    rw [← hbal, applyTransactions_append, ← hI.refines.eq_applyTransactions] at hpaid
    exact UInt64.le_iff_toNat_le.mpr (Int.ofNat_le.mp hpaid)
  -- the chain, block by block
  · intro before block after hsplit
    have hexec := hchain.1
    rw [hsplit, chainTransactions_append, chainTransactions_cons, executesInFull_append,
      executesInFull_append] at hexec
    simp only [Bool.and_eq_true] at hexec
    rw [rebuildState_eq]
    exact hexec.2.1
  · intro address
    have hbal := hchain.2 address
    rw [Posting.postAll_eq, credits_postings, debits_postings] at hbal
    simp only [Pi.zero_apply, zero_add, toInt] at hbal
    show (bc.stateManager.getBalance address).toNat + _ = _
    omega
  -- the total
  · have htotal := totalBalance_of_posted hchain.2
    rw [issued_rewardBlocks hI.blocks, burned_postings (transfer_of_rewardBlocks hI.blocks)]
      at htotal
    omega

/-- The sample node mines, queues the transfer and mines it: 150 coins. -/
theorem local_solvency_sample :
    ∃ (tr : List NodeEntry) (bc : Blockchain), tr.length = 3 ∧
      bc.chain = [sampleGenesis, sampleBlock1, sampleBlock2] ∧
      bc.stateManager.totalBalance + burnedCoins (chainTransactions bc.chain) = 150 := by
  obtain ⟨tr, bc, hist, hcheck⟩ := Run.exists_of_exec (step sampleConfig)
    [⟨sampleTime 0, .minePendingTransactions sampleMiner⟩,
      ⟨sampleTime 10, .addTransaction sampleTransfer⟩,
      ⟨sampleTime 20, .minePendingTransactions sampleMiner⟩] sampleStart
    (fun r => r.1.length = 3 && r.1.all (fun e => e.call.isLocal) &&
      r.2.chain = [sampleGenesis, sampleBlock1, sampleBlock2]) (by decide +kernel)
  simp only [Bool.and_eq_true, decide_eq_true_eq, List.all_eq_true] at hcheck
  obtain ⟨⟨hlen, hlocal⟩, hchain⟩ := hcheck
  -- the genesis coinbase and one reward a block
  have hrewards : bc.chain.countP Block.rewardsSomebody = 3 := by
    rw [hchain]
    decide +kernel
  have hstart := starts_freshNode sampleGenesis_created (sampleTime 0)
  obtain ⟨-, -, htotal⟩ := local_solvency hstart hist hlocal (by omega)
  exact ⟨tr, bc, hlen, hchain, by omega⟩

end PersonalBlockchain
