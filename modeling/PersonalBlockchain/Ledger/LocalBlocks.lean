import PersonalBlockchain.Ledger.Maps
import PersonalBlockchain.Ledger.Refinement

/-!
# Personal blockchain — blocks and pending transactions

What every node keeps pending, and the shape of the blocks of a node that
takes nothing in from the network: a reward of 50 first, then at most 100
transfers that were pending.

* `pending_step` — what `addTransaction` checks of a transaction holds of
  everything pending;
* `LocalLedger` — the invariant of a node on its own.
-/

namespace PersonalBlockchain

open Machine Blockchain

/-- A transaction that moves coins of an account: no coinbase, with an amount
and a sender address. -/
structure Transfer (tx : Transaction) : Prop where
  notCoinbase : tx.isCoinbase = false
  amount_ne : tx.amount ≠ 0
  from_ne : tx.fromAddress ≠ ""

theorem Transfer.debited {tx : Transaction} (h : Transfer tx) :
    tx.debited = some tx.fromAddress :=
  Transaction.debited_of h.notCoinbase h.from_ne

theorem Blockchain.Admitted.transfer {cfg : NodeConfig} {now : TimePoint} {tx : Transaction}
    {bc : Blockchain} (h : Admitted cfg now tx bc) : Transfer tx where
  notCoinbase := h.notCoinbase
  amount_ne := h.amount_ne
  from_ne := by
    rw [h.from_eq]
    exact deriveAddressV2_ne _ _

/-- It has an identifier that no pending transaction has. -/
theorem Blockchain.Admitted.not_pending {cfg : NodeConfig} {now : TimePoint} {tx : Transaction}
    {bc : Blockchain} (h : Admitted cfg now tx bc) :
    tx.txID ∉ bc.mempool.map Transaction.txID := by
  intro hmem
  obtain ⟨pending, hpending, hid⟩ := List.mem_map.mp hmem
  have hin : bc.isInMempool tx.txID = true :=
    List.any_eq_true.mpr ⟨pending, hpending, by simpa using hid⟩
  rw [h.notPending] at hin
  cases hin

/-! ## Selecting transactions -/

/-- The transactions that are no coinbase. -/
def withoutCoinbases (txs : List Transaction) : List Transaction :=
  txs.filter fun tx => !tx.isCoinbase

/-- The transactions from an address. -/
def sentFrom (txs : List Transaction) (address : String) : List Transaction :=
  txs.filter fun tx => tx.fromAddress = address

/-- What is left are the transactions that are no coinbase. -/
theorem mem_withoutCoinbases {txs : List Transaction} {tx : Transaction} :
    tx ∈ withoutCoinbases txs ↔ tx ∈ txs ∧ tx.isCoinbase = false := by
  simp [withoutCoinbases]

theorem withoutCoinbases_transfers {txs : List Transaction} (h : ∀ tx ∈ txs, Transfer tx) :
    withoutCoinbases txs = txs :=
  List.filter_eq_self.mpr fun tx htx => by simp [(h tx htx).notCoinbase]

/-- One transaction more, left out if it is a coinbase. -/
theorem withoutCoinbases_snoc (txs : List Transaction) (tx : Transaction) :
    withoutCoinbases (txs ++ [tx]) =
      withoutCoinbases txs ++ if tx.isCoinbase then [] else [tx] := by
  rw [withoutCoinbases, List.filter_append, List.filter_singleton]
  cases tx.isCoinbase <;> simp [withoutCoinbases]

theorem sentFrom_snoc_self (txs : List Transaction) (tx : Transaction) :
    sentFrom (txs ++ [tx]) tx.fromAddress = sentFrom txs tx.fromAddress ++ [tx] := by
  simp [sentFrom]

theorem sentFrom_snoc_ne {txs : List Transaction} {tx : Transaction} {address : String}
    (h : tx.fromAddress ≠ address) : sentFrom (txs ++ [tx]) address = sentFrom txs address := by
  simp [sentFrom, h]

theorem nodup_txID_snoc {txs : List Transaction} {tx : Transaction}
    (hdistinct : (txs.map Transaction.txID).Nodup) (hfresh : tx.txID ∉ txs.map Transaction.txID) :
    ((txs ++ [tx]).map Transaction.txID).Nodup := by
  rw [List.map_append, List.nodup_append]
  refine ⟨hdistinct, List.nodup_singleton _, ?_⟩
  rintro a ha b hb rfl
  rw [List.map_singleton, List.mem_singleton] at hb
  exact hfresh (hb ▸ ha)

/-! ## Pending transactions -/

/-- What admission gives holds of everything pending, since nothing else is ever
added to the mempool. -/
theorem pending_step {cfg : NodeConfig} {Q : Transaction → Prop}
    (hadmitted : ∀ now tx bc, Admitted cfg now tx bc → Q tx) {call : Call} {bc bc' : Blockchain}
    {r : Reply} (hI : ∀ tx ∈ bc.mempool, Q tx) (h : step cfg call bc = some (r, bc')) :
    ∀ tx ∈ bc'.mempool, Q tx := by
  cases step_cases h with
  | unchanged => exact hI
  | queued tx _ hadm =>
    intro tx' htx'
    rcases List.mem_append.mp htx' with hold | hnew
    · exact hI tx' hold
    · rw [List.mem_singleton.mp hnew]
      exact hadmitted _ _ _ hadm
  | mined minerAddress block _ _ hm =>
    intro tx htx
    rw [hm.mempool] at htx
    exact hI tx (List.mem_of_mem_drop htx)
  -- what came from the network only removes pending transactions
  | received block _ _ => exact fun tx htx => hI tx (List.mem_filter.mp htx).1
  | adopted newChain _ _ _ => exact fun tx htx => hI tx (List.mem_filter.mp htx).1

theorem pending_transfer_step {cfg : NodeConfig} {call : Call} {bc bc' : Blockchain} {r : Reply}
    (hI : ∀ tx ∈ bc.mempool, Transfer tx) (h : step cfg call bc = some (r, bc')) :
    ∀ tx ∈ bc'.mempool, Transfer tx :=
  pending_step (fun _ _ _ hadm => hadm.transfer) hI h

/-- Every pending transaction of every node is verified. -/
theorem pending_verified {cfg : NodeConfig} {now : TimePoint} {difficulty : UInt32}
    {persisted : Option (List Block)} {start bc : Blockchain} {tr : List NodeEntry}
    (hstart : Starts cfg now difficulty persisted start) (hist : History cfg start tr bc) :
    ∀ tx ∈ bc.mempool, tx.verify cfg.crypto = true :=
  hist.invariant (I := fun bc => ∀ tx ∈ bc.mempool, tx.verify cfg.crypto = true)
    (by simp [(start_cases hstart).2.1])
    fun _ _ _ _ => pending_step fun _ _ _ hadm => hadm.verified

/-- A mined block holds verified transactions and its reward. -/
theorem Blockchain.Mined.verified {cfg : NodeConfig} {now : TimePoint} {minerAddress : String}
    {bc bc' : Blockchain} {block : Block} (h : Mined cfg now minerAddress bc block bc')
    (hpending : ∀ tx ∈ bc.mempool, tx.verify cfg.crypto = true) :
    ∀ tx ∈ block.transactions, tx.verify cfg.crypto = true := by
  intro tx htx
  rw [h.transactions] at htx
  rcases List.mem_cons.mp htx with rfl | htx
  · exact Transaction.verify_of_isCoinbase rfl
  · exact hpending tx (List.mem_of_mem_take htx)

/-! ## Blocks with one reward -/

/-- A block with the reward of 50 first and at most 100 transfers behind it. -/
def RewardBlock (block : Block) : Prop :=
  ∃ coinbase transfers, block.transactions = coinbase :: transfers ∧
    coinbase.isCoinbase = true ∧ coinbase.amount = 50 ∧
    transfers.length ≤ 100 ∧ ∀ tx ∈ transfers, Transfer tx

theorem Blockchain.Mined.rewardBlock {cfg : NodeConfig} {now : TimePoint} {minerAddress : String}
    {bc bc' : Blockchain} {block : Block} (h : Mined cfg now minerAddress bc block bc')
    (hpending : ∀ tx ∈ bc.mempool, Transfer tx) : RewardBlock block :=
  ⟨_, _, h.transactions, rfl, rfl, List.length_take_le _ _,
    fun tx htx => hpending tx (List.mem_of_mem_take htx)⟩

/-- Without its reward a mined block holds what was pending first. -/
theorem Blockchain.Mined.withoutCoinbases {cfg : NodeConfig} {now : TimePoint}
    {minerAddress : String} {bc bc' : Blockchain} {block : Block}
    (h : Mined cfg now minerAddress bc block bc') (hpending : ∀ tx ∈ bc.mempool, Transfer tx) :
    withoutCoinbases block.transactions = bc.mempool.take maxTxsPerBlock := by
  rw [h.transactions]
  exact withoutCoinbases_transfers fun tx htx => hpending tx (List.mem_of_mem_take htx)

/-- Every transaction of a chain of such blocks is a coinbase or a transfer. -/
theorem transfer_of_rewardBlocks {chain : List Block} (h : ∀ block ∈ chain, RewardBlock block) :
    ∀ tx ∈ chainTransactions chain, tx.isCoinbase = true ∨ Transfer tx := by
  intro tx htx
  obtain ⟨block, hblock, htx⟩ := List.mem_flatMap.mp htx
  obtain ⟨coinbase, transfers, htxs, hcb, -, -, htransfers⟩ := h block hblock
  rw [htxs] at htx
  rcases List.mem_cons.mp htx with rfl | htx
  · exact Or.inl hcb
  · exact Or.inr (htransfers tx htx)

/-! ## A node on its own -/

/-- The calls that take nothing in from the network. -/
def Call.isLocal (call : Call) : Bool :=
  match call.op with
  | .addTransaction _ | .minePendingTransactions _ => true
  | _ => false

/-- What holds of a node that has only queued and mined: its maps are those of
its chain, all its blocks have one reward and transfers, and so has its mempool.
-/
structure LocalLedger (bc : Blockchain) : Prop where
  refines : LedgerMatches bc
  blocks : ∀ block ∈ bc.chain, RewardBlock block
  pending : ∀ tx ∈ bc.mempool, Transfer tx

/-- What a local call can do: nothing, queue a transaction or mine a block. -/
theorem local_cases {cfg : NodeConfig} {call : Call} {bc bc' : Blockchain} {r : Reply}
    (hlocal : call.isLocal = true) (h : step cfg call bc = some (r, bc')) :
    bc' = bc ∨ (∃ tx, Admitted cfg call.now tx bc ∧ bc' = bc.enqueue tx) ∨
      ∃ minerAddress block, Mined cfg call.now minerAddress bc block bc' := by
  cases step_cases h with
  | unchanged => exact Or.inl rfl
  | queued tx _ hadm => exact Or.inr (Or.inl ⟨tx, hadm, rfl⟩)
  | mined minerAddress block _ _ hm => exact Or.inr (Or.inr ⟨minerAddress, block, hm⟩)
  | received block hop _ => simp [Call.isLocal, hop] at hlocal
  | adopted newChain _ hop _ =>
    -- no local call offers a chain
    unfold Call.isLocal at hlocal
    split at hlocal
    · simp_all [Op.offered]
    · simp_all [Op.offered]
    · cases hlocal

theorem localLedger_start {cfg : NodeConfig} {now : TimePoint} {difficulty : UInt32}
    {start : Blockchain} (h : Starts cfg now difficulty none start) : LocalLedger start := by
  obtain ⟨-, hmem, genesis, hgenesis, hchain, -⟩ := start_fresh h
  refine ⟨ledgerMatches_start h, ?_, by simp [hmem]⟩
  rw [hchain]
  intro block hblock
  rw [List.mem_singleton.mp hblock]
  -- the genesis block has its reward and no transfers
  have htxs := (Block.createGenesis_spec hgenesis).2.1
  exact ⟨_, [], htxs, rfl, rfl, by simp, by simp⟩

theorem localLedger_step {cfg : NodeConfig} {call : Call} {bc bc' : Blockchain} {r : Reply}
    (hI : LocalLedger bc) (hlocal : call.isLocal = true) (h : step cfg call bc = some (r, bc')) :
    LocalLedger bc' := by
  refine ⟨ledgerMatches_step hI.refines h, ?_, pending_transfer_step hI.pending h⟩
  rcases local_cases hlocal h with rfl | ⟨tx, -, rfl⟩ | ⟨minerAddress, block, hm⟩
  · exact hI.blocks
  · exact hI.blocks
  · rw [hm.chain]
    intro block' hblock'
    rcases List.mem_append.mp hblock' with hold | hnew
    · exact hI.blocks block' hold
    · rw [List.mem_singleton.mp hnew]
      exact hm.rewardBlock hI.pending

theorem localLedger_history {cfg : NodeConfig} {now : TimePoint} {difficulty : UInt32}
    {start bc : Blockchain} {tr : List NodeEntry}
    (hstart : Starts cfg now difficulty none start) (hist : History cfg start tr bc)
    (hlocal : ∀ e ∈ tr, e.call.isLocal = true) : LocalLedger bc :=
  hist.invariant_of (C := fun _ call => call.isLocal = true) (localLedger_start hstart)
    (fun _ _ _ _ => localLedger_step) hlocal

end PersonalBlockchain
