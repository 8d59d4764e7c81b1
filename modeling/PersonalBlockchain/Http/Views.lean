import PersonalBlockchain.Ledger.LocalMining
import PersonalBlockchain.Ledger.WalletHistory
import PersonalBlockchain.Lib.Reading
import PersonalBlockchain.Model.HttpServer
import PersonalBlockchain.Network.Replay

/-!
# Personal blockchain — what the API shows of the ledger

`handleGetTransactions` and `handleGetWalletBalance` look at the ledger several
times, and each look is one locked method: other threads queue, mine and take in
blocks in between. The handlers are `Reader`s over the ledger.

* The list of transactions reads the chain first. What is mined before it reads
  the mempool is in neither. And a pending transaction is left out when the chain
  has any transaction of its identifier, be it another one: the identifier of a
  coinbase is whatever its block says.
* The wallet reads balance, nonce and mempool. When the two confirmed values stay
  as they are meanwhile, everything is as in the state of the last look.

Main result: `api_views_consistent` — the conditions under which a transaction that
the ledger holds all the time has one row, and a wallet is that of one state, with any
calls of other threads between the looks.
-/

namespace PersonalBlockchain

open Machine Reading Reader Blockchain

namespace HttpServer

/-! ## `handleGetTransactions` -/

/-- A row of the list; its aliases of `txID` and of the addresses are left out. -/
structure TransactionRow where
  tx : Transaction
  status : String
  /-- `null` for a pending transaction -/
  blockHeight : Option UInt64
  blockHash : String
  deriving DecidableEq

/-- The body of the response, with its three lists. -/
structure TransactionList where
  count : Nat
  transactions : List TransactionRow
  confirmedTransactions : List TransactionRow
  pendingTransactions : List TransactionRow
  deriving DecidableEq

/-- The loop over the chain. -/
def confirmedRows (chain : List Block) : List TransactionRow :=
  chain.flatMap fun block => block.transactions.map fun tx =>
    ⟨tx, "confirmed", some block.index, block.hash⟩

/-- The loop over the mempool. -/
def pendingRows (confirmedTxIds : List String) (mempool : List Transaction) :
    List TransactionRow :=
  (mempool.filter fun tx => !confirmedTxIds.contains tx.txID).map fun tx =>
    ⟨tx, "pending", none, ""⟩

/-- The list that is built from the chain and the mempool, read at two times. -/
def listTransactions (chain : List Block) (mempool : List Transaction) : TransactionList :=
  let confirmed := confirmedRows chain
  let pending := pendingRows (confirmed.map fun row => row.tx.txID) mempool
  { count := (confirmed ++ pending).length
    transactions := confirmed ++ pending
    confirmedTransactions := confirmed
    pendingTransactions := pending }

/-- `handleGetTransactions`: two looks. -/
def handleGetTransactions : Reader Blockchain TransactionList := do
  let chain ← observe Blockchain.chain
  let mempool ← observe Blockchain.mempool
  return listTransactions chain mempool

/-! ## `handleGetWalletBalance` -/

/-- The totals of the loop over the mempool. -/
structure PendingTotals where
  pendingSent : UInt64
  pendingReceived : UInt64
  highestPendingNonce : UInt64

/-- What a pending transaction adds to the totals of an address; the sums wrap
around. -/
def addPending (address : String) (totals : PendingTotals) (tx : Transaction) : PendingTotals where
  pendingSent :=
    if tx.fromAddress = address then totals.pendingSent + tx.amount else totals.pendingSent
  pendingReceived :=
    if tx.toAddress = address then totals.pendingReceived + tx.amount else totals.pendingReceived
  highestPendingNonce :=
    if tx.fromAddress = address then max totals.highestPendingNonce tx.nonce
    else totals.highestPendingNonce

/-- The body of the response. -/
structure WalletBalance where
  address : String
  balance : UInt64
  confirmedBalance : UInt64
  pendingBalance : Int64
  pendingSent : UInt64
  pendingReceived : UInt64
  nextNonce : UInt64
  deriving DecidableEq

/-- The wallet that is built from the three values read. -/
def walletBalance (address : String) (confirmedBalance confirmedNonce : UInt64)
    (mempool : List Transaction) : WalletBalance :=
  let totals := mempool.foldl (addPending address) ⟨0, 0, confirmedNonce⟩
  { address := address
    balance := confirmedBalance
    confirmedBalance := confirmedBalance
    -- in `int64_t`
    pendingBalance := confirmedBalance.toInt64 + totals.pendingReceived.toInt64 -
      totals.pendingSent.toInt64
    pendingSent := totals.pendingSent
    pendingReceived := totals.pendingReceived
    nextNonce := totals.highestPendingNonce + 1 }

/-- `handleGetWalletBalance`: three looks. -/
def handleGetWalletBalance (address : String) :
    Reader Blockchain (Except ErrorResponse WalletBalance) :=
  if !isValidAddress address then
    return .error ⟨400, "Bad Request", "INVALID_ADDRESS", "Wallet address format is invalid"⟩
  else do
    let confirmedBalance ← observe fun bc => bc.getBalanceForAddress address
    let confirmedNonce ← observe fun bc => bc.getLastNonceForAddress address
    let mempool ← observe Blockchain.mempool
    return .ok (walletBalance address confirmedBalance confirmedNonce mempool)

/-! ## The list, from what was read -/

/-- How many rows a transaction has. -/
def TransactionList.rows (list : TransactionList) (tx : Transaction) : Nat :=
  (list.transactions.map TransactionRow.tx).count tx

theorem confirmedRows_tx (chain : List Block) :
    (confirmedRows chain).map TransactionRow.tx = chainTransactions chain := by
  simp only [confirmedRows, chainTransactions, List.map_flatMap, List.map_map]
  exact List.flatMap_congr fun block _ => List.map_id _

theorem pendingRows_tx (confirmedTxIds : List String) (mempool : List Transaction) :
    (pendingRows confirmedTxIds mempool).map TransactionRow.tx =
      mempool.filter fun tx => !confirmedTxIds.contains tx.txID := by
  rw [pendingRows, List.map_map]
  exact List.map_id _

/-- What has the identifier of something confirmed is not listed as pending. -/
theorem count_pending (tx : Transaction) (ids : List String) (mempool : List Transaction) :
    (mempool.filter fun tx => !ids.contains tx.txID).count tx =
      if tx.txID ∈ ids then 0 else mempool.count tx := by
  split
  next hmem => exact List.count_eq_zero.mpr fun h => by simp [hmem] at h
  next hmem => exact List.count_filter (by simpa using hmem)

/-- **The rows of a transaction**: those of the chain, and those of the mempool
unless the chain has its identifier. -/
theorem rows_listTransactions (chain : List Block) (mempool : List Transaction)
    (tx : Transaction) :
    (listTransactions chain mempool).rows tx = (chainTransactions chain).count tx +
      if tx.txID ∈ (chainTransactions chain).map Transaction.txID then 0
      else mempool.count tx := by
  have hids : ((confirmedRows chain).map fun row => row.tx.txID) =
      (chainTransactions chain).map Transaction.txID := by
    rw [← confirmedRows_tx, List.map_map]
    rfl
  rw [TransactionList.rows, listTransactions, List.map_append, confirmedRows_tx, hids,
    pendingRows_tx, List.count_append, count_pending]

/-- **When a transaction has one row.** Either it stands in the chain once, or
nothing of the chain has its identifier and it is pending. -/
theorem rows_eq_one_iff {chain : List Block} {mempool : List Transaction} {tx : Transaction}
    (hdistinct : (mempool.map Transaction.txID).Nodup) :
    (listTransactions chain mempool).rows tx = 1 ↔
      (chainTransactions chain).count tx = 1 ∨
        tx.txID ∉ (chainTransactions chain).map Transaction.txID ∧ tx ∈ mempool := by
  rw [rows_listTransactions]
  split
  next hmem => exact ⟨.inl, fun h => h.resolve_right fun h => h.1 hmem⟩
  next hmem =>
    have hnone : (chainTransactions chain).count tx = 0 :=
      List.count_eq_zero.mpr fun htx => hmem (List.mem_map_of_mem htx)
    rw [hnone, Nat.zero_add]
    constructor
    -- no row from the chain, so the one row is the mempool's
    · intro hone
      exact .inr ⟨hmem, List.count_pos_iff.mp (hone ▸ Nat.one_pos)⟩
    · rintro (hone | ⟨-, hpending⟩)
      · cases hone
      · -- the mempool has no identifier twice, so no transaction either
        exact List.count_eq_one_of_mem hdistinct.of_map hpending

/-! ## The looks of a request -/

variable {cfg : NodeConfig} {s s' : Blockchain} {segs : List (List NodeEntry)}

/-- The two looks of `handleGetTransactions`. -/
theorem serves_transactions {list : TransactionList}
    (h : Serves (step cfg) handleGetTransactions s segs s' list) :
    ∃ before meanwhile after t u, segs = [before, meanwhile, after] ∧
      History cfg s before t ∧ History cfg t meanwhile u ∧
      list = listTransactions t.chain u.mempool := by
  cases h with
  | @look _ _ t _ before _ _ hbefore h =>
    cases h with
    | @look _ _ u _ meanwhile _ _ hmeanwhile h =>
      cases h with
      | @done _ _ _ after _ => exact ⟨before, meanwhile, after, t, u, rfl, hbefore, hmeanwhile, rfl⟩

/-- The balance and the last nonce of an address are left alone. -/
def SameWallet (address : String) (bc bc' : Blockchain) : Prop :=
  bc'.getBalanceForAddress address = bc.getBalanceForAddress address ∧
    bc'.getLastNonceForAddress address = bc.getLastNonceForAddress address

/-- The looks at the wallet tell nothing else. -/
theorem handleGetWalletBalance_unnoticed (address : String) :
    (handleGetWalletBalance address).Unnoticed (SameWallet address) := by
  unfold handleGetWalletBalance
  split
  · trivial
  · intro bc
    -- three readings: the balance, the nonce, the pending transactions
    refine ⟨fun bc₁ => ⟨fun bc₂ => ⟨trivial, fun h => Bool.noConfusion h⟩, fun _ bc' hsame => ?_⟩,
      fun _ bc' hsame => ?_⟩
    · show Except.ok (walletBalance _ _ (bc₁.getLastNonceForAddress address) _) =
        .ok (walletBalance _ _ (bc'.getLastNonceForAddress address) _)
      rw [hsame.2]
    · show Except.ok (walletBalance _ (bc.getBalanceForAddress address) _ _) =
        .ok (walletBalance _ (bc'.getBalanceForAddress address) _ _)
      rw [hsame.1]

theorem SameWallet.refl (address : String) (bc : Blockchain) : SameWallet address bc bc :=
  ⟨rfl, rfl⟩

theorem SameWallet.trans {address : String} (bc₁ bc₂ bc₃ : Blockchain)
    (h : SameWallet address bc₁ bc₂) (h' : SameWallet address bc₂ bc₃) :
    SameWallet address bc₁ bc₃ :=
  ⟨h'.1.trans h.1, h'.2.trans h.2⟩

/-- The transaction is in the chain or in the mempool. -/
def Holds (bc : Blockchain) (tx : Transaction) : Prop :=
  tx ∈ chainTransactions bc.chain ∨ tx ∈ bc.mempool

/-- The chain has the transaction at most once, and no other one of its
identifier. -/
structure StandsAlone (bc : Blockchain) (tx : Transaction) : Prop where
  once : (chainTransactions bc.chain).count tx ≤ 1
  only : ∀ tx' ∈ chainTransactions bc.chain, tx'.txID = tx.txID → tx' = tx

theorem pendingFresh_run (hs : PendingFresh s) {tr : List NodeEntry} (h : History cfg s tr s') :
    PendingFresh s' :=
  Run.invariant hs (fun _ _ _ _ => pendingFresh_step) h

/-- A transaction that stays pending from the one look to the other is listed. -/
theorem transactions_complete {list : TransactionList} {tx : Transaction} (hs : PendingFresh s)
    (h : Serves (step cfg) handleGetTransactions s segs s' list)
    (hholds : ∀ t ∈ states s segs.flatten, Holds t tx)
    (halone : ∀ t ∈ states s segs.flatten, StandsAlone t tx)
    (hkept : ∀ e ∈ between segs, tx ∈ e.pre.mempool → tx ∈ e.post.mempool) :
    list.rows tx = 1 := by
  obtain ⟨before, meanwhile, after, t, u, rfl, hbefore, hmeanwhile, rfl⟩ :=
    serves_transactions h
  have hpending := pendingFresh_run (pendingFresh_run hs hbefore) hmeanwhile
  have ht : t ∈ states s [before, meanwhile, after].flatten :=
    states_append_left (last_mem_states hbefore)
  refine (rows_eq_one_iff hpending.distinct).mpr ?_
  by_cases hconfirmed : tx ∈ chainTransactions t.chain
  · have hpos := List.count_pos_iff.mpr hconfirmed
    have hle := (halone t ht).once
    exact .inl (by omega)
  · -- not confirmed when the chain was read, so still pending when the mempool was
    have hstays : tx ∈ t.mempool → tx ∈ u.mempool :=
      related_of_run (R := fun bc bc' => tx ∈ bc.mempool → tx ∈ bc'.mempool) (fun _ => id)
        (fun _ _ _ h h' => h' ∘ h) hmeanwhile fun e he => hkept e (by simpa [between] using he)
    refine .inr ⟨fun hid => hconfirmed ?_, hstays ((hholds t ht).resolve_left hconfirmed)⟩
    obtain ⟨tx', hmem, hid⟩ := List.mem_map.mp hid
    exact (halone t ht).only tx' hmem hid ▸ hmem

/-- **Views of the API.** In every history of every node, with any calls between
the looks of a request:

* a transaction that is in the chain or in the mempool all through a request for
  the list has one row, if it stands in the chain once at most, no other transaction
  of the chain has its identifier, and it does not leave the mempool between the two
  looks;
* what a request for a wallet answers is what one state of the ledger during the
  request gives, if no call between its first look and its last changes the
  balance or the last nonce of the address. -/
theorem api_views_consistent {now : TimePoint} {difficulty : UInt32}
    {persisted : Option (List Block)} {start : Blockchain} {tr : List NodeEntry}
    (hstart : Starts cfg now difficulty persisted start) (hist : History cfg start tr s) :
    (∀ segs s' list, Serves (step cfg) handleGetTransactions s segs s' list → ∀ tx,
      (∀ t ∈ states s segs.flatten, Holds t tx) →
      (∀ t ∈ states s segs.flatten, StandsAlone t tx) →
      (∀ e ∈ between segs, tx ∈ e.pre.mempool → tx ∈ e.post.mempool) →
      list.rows tx = 1) ∧
    ∀ address segs s' response, Serves (step cfg) (handleGetWalletBalance address) s segs s'
      response → (∀ e ∈ between segs, SameWallet address e.pre e.post) →
      ∃ t ∈ states s segs.flatten, response = (handleGetWalletBalance address).alone t := by
  have hs := pendingFresh_run (pendingFresh_start hstart) hist
  refine ⟨fun segs s' list h tx hholds halone hkept => ?_, fun address segs s' response h hsame =>
    ?_⟩
  · exact transactions_complete hs h hholds halone hkept
  · exact h.snapshot (SameWallet.refl address) SameWallet.trans
      (handleGetWalletBalance_unnoticed address) hsame

/-! ## A block between two looks -/

section Sample

/-- The sample node queues the transfer. -/
def viewCalls : List Call :=
  [⟨sampleTime 0, .minePendingTransactions sampleMiner⟩,
    ⟨sampleTime 10, .addTransaction sampleTransfer⟩]

/-- What another thread mines meanwhile. -/
def viewMining : List Call := [⟨sampleTime 20, .minePendingTransactions sampleMiner⟩]

/-- A list around `meanwhile`. -/
theorem serves_transactions_around {t u : Blockchain} {meanwhile : List NodeEntry}
    (h : History cfg t meanwhile u) :
    Serves (step cfg) handleGetTransactions t [[], meanwhile, []] u
      (listTransactions t.chain u.mempool) :=
  .look .nil (.look h (.done .nil))

/-- A wallet whose mempool is read after `meanwhile`. -/
theorem serves_wallet_around {address : String} (haddress : isValidAddress address = true)
    {t u : Blockchain} {meanwhile : List NodeEntry} (h : History cfg t meanwhile u) :
    Serves (step cfg) (handleGetWalletBalance address) t [[], [], meanwhile, []] u
      (.ok (walletBalance address (t.getBalanceForAddress address)
        (t.getLastNonceForAddress address) u.mempool)) := by
  rw [handleGetWalletBalance, haddress]
  exact .look .nil (.look .nil (.look h (.done .nil)))

/-- The list misses the transfer, though the ledger holds it all the time. -/
def missed (t u : Blockchain) (meanwhile : List NodeEntry) : Bool :=
  ((states t meanwhile).all fun bc => (chainTransactions bc.chain).contains sampleTransfer ||
      bc.mempool.contains sampleTransfer) &&
    (listTransactions t.chain u.mempool).rows sampleTransfer = 0

/-- The wallet is that of none of the states. -/
def mixed (t u : Blockchain) (meanwhile : List NodeEntry) : Bool :=
  (states t meanwhile).all fun bc =>
    Except.ok (walletBalance sampleMiner (t.getBalanceForAddress sampleMiner)
      (t.getLastNonceForAddress sampleMiner) u.mempool) ≠
        (handleGetWalletBalance sampleMiner).alone bc

theorem mined_meanwhile : ∃ tr s meanwhile s', History sampleConfig sampleStart tr s ∧
    History sampleConfig s meanwhile s' ∧ acceptedTransactions tr = [sampleTransfer] ∧
      missed s s' meanwhile = true ∧ mixed s s' meanwhile = true := by
  obtain ⟨tr, s, hist, hcheck⟩ := Run.exists_of_exec (step sampleConfig) viewCalls sampleStart
    (fun r => acceptedTransactions r.1 = [sampleTransfer] &&
      (exec (step sampleConfig) viewMining r.2).any fun r' =>
        missed r.2 r'.2 r'.1 && mixed r.2 r'.2 r'.1) (by decide +kernel)
  rw [Bool.and_eq_true, decide_eq_true_eq] at hcheck
  obtain ⟨meanwhile, s', hmeanwhile, hviews⟩ := Run.exists_of_exec _ _ _ _ hcheck.2
  rw [Bool.and_eq_true] at hviews
  exact ⟨tr, s, meanwhile, s', hist, hmeanwhile, hcheck.1, hviews.1, hviews.2⟩

end Sample

/-- A transfer is mined between two looks: the list misses it, and the wallet
shows the old balance without what is pending and a nonce that is used. -/
theorem api_views_counterexample :
    (¬ ∀ (cfg : NodeConfig) (now : TimePoint) (difficulty : UInt32) (start s s' : Blockchain)
      (tr : List NodeEntry) (segs : List (List NodeEntry)) (list : TransactionList)
      (tx : Transaction), Starts cfg now difficulty none start → History cfg start tr s →
      Serves (step cfg) handleGetTransactions s segs s' list → tx ∈ acceptedTransactions tr →
      (∀ t ∈ states s segs.flatten, Holds t tx) → list.rows tx = 1) ∧
    ¬ ∀ (cfg : NodeConfig) (now : TimePoint) (difficulty : UInt32) (start s s' : Blockchain)
      (tr : List NodeEntry) (segs : List (List NodeEntry)) (address : String)
      (response : Except ErrorResponse WalletBalance), Starts cfg now difficulty none start →
      History cfg start tr s →
      Serves (step cfg) (handleGetWalletBalance address) s segs s' response →
      ∃ t ∈ states s segs.flatten, response = (handleGetWalletBalance address).alone t := by
  obtain ⟨tr, s, meanwhile, s', hist, hmeanwhile, haccepted, hmissed, hmixed⟩ := mined_meanwhile
  have hstart := starts_freshNode sampleGenesis_created (sampleTime 0)
  rw [missed, Bool.and_eq_true, decide_eq_true_eq, List.all_eq_true] at hmissed
  -- the transfer is mined between the two readings, in both cases
  refine ⟨fun h => ?_, fun h => ?_⟩
  · have hone := h _ _ _ _ s s' tr _ _ sampleTransfer hstart hist
      (serves_transactions_around hmeanwhile) (by simp [haccepted]) fun t ht => by
        simpa [Holds] using hmissed.1 t (by simpa using ht)
    rw [hmissed.2] at hone
    cases hone
  · obtain ⟨t, ht, heq⟩ := h _ _ _ _ s s' tr _ sampleMiner _ hstart hist
      (serves_wallet_around (by decide) hmeanwhile)
    have hne := List.all_eq_true.mp hmixed t (by simpa using ht)
    exact absurd heq (by simpa using hne)

/-! ## A transfer between two looks -/

section Sample

/-- A gift from the wallet that has written a note to itself. -/
def secondTransfer : Transaction where
  txID := "20ff7e94b2080933b0ed3f7300faea00d97daf9d048df709c37e251ce36889d1"
  senderPublicKey := selfPublicKey
  fromAddress := selfAddress
  toAddress := samplePayee
  amount := 5
  nonce := 2
  payload := "gift"
  timestamp := "2026-03-14T12:00:20Z"
  digitalSignature := "30450221009c7b2ebee16f8e150e7527cc10c4157214f165db2d1ecbc34d960807d49" ++
    "2512002205033450e7a26b0fb12f784f0c0d3cca3e4b8da6b8cc674165351872593f3e9e6"

def viewConfig : NodeConfig where
  crypto := .ofTable
    (sampleDigests ++
      [(selfPublicKey, "3d463b32eb824bc9463119baeab56e374170f71ca439459bee776fec48ed8110"),
        (buildTxCore selfReward, selfReward.txID),
        (selfBlock1.headerString, selfBlock1.hash),
        (buildTxCore selfTransfer, selfTransfer.txID),
        (buildTxCore secondTransfer, secondTransfer.txID)])
    [(selfTransfer.txID, selfTransfer.digitalSignature, selfPublicKey),
      (secondTransfer.txID, secondTransfer.digitalSignature, selfPublicKey)]
  consensusEngine := none

theorem viewGenesis_created : Block.createGenesis viewConfig.crypto 0 = some sampleGenesis := by
  decide +kernel

/-- The conditions on what other threads do meanwhile, for the first transfer and for
its wallet. -/
def Undisturbed (t : Blockchain) (meanwhile : List NodeEntry) : Prop :=
  (∀ bc ∈ states t meanwhile, selfTransfer ∈ bc.mempool ∧
      ∀ tx ∈ chainTransactions bc.chain, tx.txID ≠ selfTransfer.txID) ∧
    ∀ e ∈ meanwhile, SameWallet selfAddress e.pre e.post

instance (t : Blockchain) (meanwhile : List NodeEntry) : Decidable (Undisturbed t meanwhile) :=
  inferInstanceAs (Decidable ((∀ _ ∈ _, _ ∧ ∀ _ ∈ _, _) ∧ ∀ _ ∈ _, _ ∧ _))

/-- The wallet queues a transfer, and another thread a second one meanwhile. -/
theorem queued_meanwhile : ∃ tr s meanwhile s', History viewConfig sampleStart tr s ∧
    History viewConfig s meanwhile s' ∧
      meanwhile.map Entry.call = [⟨sampleTime 20, .addTransaction secondTransfer⟩] ∧
      s'.mempool = [selfTransfer, secondTransfer] ∧ Undisturbed s meanwhile := by
  obtain ⟨tr, s, hist, hcheck⟩ := Run.exists_of_exec (step viewConfig)
    [⟨sampleTime 0, .minePendingTransactions selfAddress⟩,
      ⟨sampleTime 10, .addTransaction selfTransfer⟩] sampleStart
    (fun r => (exec (step viewConfig) [⟨sampleTime 20, .addTransaction secondTransfer⟩] r.2).any
      fun (r' : List NodeEntry × Blockchain) =>
        decide (r'.2.mempool = [selfTransfer, secondTransfer] ∧ Undisturbed r.2 r'.1))
    (by decide +kernel)
  obtain ⟨meanwhile, s', hmeanwhile, hcalls, hviews⟩ := Run.exists_of_exec_map _ _ _ _ hcheck
  exact ⟨tr, s, meanwhile, s', hist, hmeanwhile, hcalls, of_decide_eq_true hviews⟩

end Sample

/-- A second transfer is queued between two looks: the first one has its row, and the
wallet is that of one state. -/
theorem api_views_interleaved : ∃ tr s meanwhile s', History viewConfig sampleStart tr s ∧
    History viewConfig s meanwhile s' ∧
    meanwhile.map Entry.call = [⟨sampleTime 20, .addTransaction secondTransfer⟩] ∧
    s'.mempool = [selfTransfer, secondTransfer] ∧
    (listTransactions s.chain s'.mempool).rows selfTransfer = 1 ∧
    ∃ t ∈ states s meanwhile, Except.ok (walletBalance selfAddress
      (s.getBalanceForAddress selfAddress) (s.getLastNonceForAddress selfAddress) s'.mempool) =
        (handleGetWalletBalance selfAddress).alone t := by
  obtain ⟨tr, s, meanwhile, s', hist, hmeanwhile, hcalls, hmempool, hpending, hwallet⟩ :=
    queued_meanwhile
  have hstart := starts_freshNode viewGenesis_created (sampleTime 0)
  obtain ⟨hlist, hbalance⟩ := api_views_consistent hstart hist
  refine ⟨tr, s, meanwhile, s', hist, hmeanwhile, hcalls, hmempool, ?_, ?_⟩
  -- the other transfer comes in between the readings of the chain and of the mempool
  · refine hlist _ _ _ (serves_transactions_around hmeanwhile) selfTransfer ?_ ?_ ?_
    · intro t ht
      exact .inr (hpending t (by simpa using ht)).1
    · intro t ht
      have hid := (hpending t (by simpa using ht)).2
      exact ⟨(List.count_eq_zero.mpr fun hmem => hid _ hmem rfl).trans_le (Nat.zero_le 1),
        fun tx' hmem heq => absurd heq (hid tx' hmem)⟩
    · intro e he _
      have hpost : e.post ∈ states s meanwhile :=
        List.mem_cons_of_mem _ (List.mem_map_of_mem (by simpa [between] using he))
      exact (hpending e.post hpost).1
  · obtain ⟨t, ht, heq⟩ := hbalance selfAddress _ _ _
      (serves_wallet_around (by decide) hmeanwhile) fun e he =>
        hwallet e (by simpa [between] using he)
    exact ⟨t, by simpa using ht, heq⟩

end HttpServer

end PersonalBlockchain
