import PersonalBlockchain.Ledger.Maps
import PersonalBlockchain.Ledger.Refinement

/-!
# Personal blockchain — overdrafts from the network

`addTransaction` checks the sender's balance, `acceptBlock` and `replaceChain`
do not: they validate structure, hashes and signatures, and `applyBlockState`
clamps whatever is missing. So a block from the network may spend coins that
nobody has. It does not exactly when each of its transfers names a known
sender whose confirmed balance, with what the block paid in and out so far,
covers the amount — the check `addTransaction` makes.

## Results

* `paysInFull_iff_fundedAt` — paying in full at a turn is being funded there;
* `executesInFull_iff_funded` — a list is executed in full exactly when it passes
  the netting check;
* `network_overdraft_iff` — whatever a call takes in overdraws nobody exactly when
  it passes the netting check;
* `network_overdraft_counterexample` — 1000 coins of an account that holds none.
-/

namespace PersonalBlockchain

open Machine Turns Blockchain StateManager

/-- What a completed call took in from the network: the state it was executed
on and the transactions, in order. -/
inductive TakenIn (cfg : NodeConfig) (e : NodeEntry) : StateManager → List Transaction → Prop
  | block (block : Block) : e.call.op = .acceptBlock block →
      (e.pre.acceptBlock cfg e.call.now block).ret = true →
      TakenIn cfg e e.pre.stateManager block.transactions
  | chain (newChain : List Block) : e.call.op.offered cfg.crypto = some newChain →
      (e.pre.replaceChain cfg e.call.now newChain).ret = true →
      TakenIn cfg e {} (chainTransactions newChain)

/-- Executed in order, every transfer has a sender that holds the amount after
the credit, so no debit is clamped or dropped and no transfer creates coins. -/
def NoOverdraft (sm : StateManager) (txs : List Transaction) : Prop :=
  AtEachTurn (fun before tx => tx.isCoinbase = false →
    tx.fromAddress ≠ "" ∧
    (∃ balance, ((sm.applyTransactions before).credit tx).balances[tx.fromAddress]? =
      some balance ∧ tx.amount ≤ balance) ∧
    (sm.applyTransactions (before ++ [tx])).totalBalance ≤
      (sm.applyTransactions before).totalBalance) txs

/-! ## The netting check -/

/-- The sender of `tx` is known and its confirmed balance covers the amount,
net of what the transactions before it paid in and out. -/
structure FundedAt (sm : StateManager) (before : List Transaction) (tx : Transaction) : Prop where
  from_ne : tx.fromAddress ≠ ""
  known : sm.balances.contains tx.fromAddress = true ∨
    ∃ t ∈ before ++ [tx], t.toAddress = tx.fromAddress
  covered : tx.amount ≤ sm.getBalance tx.fromAddress +
    receivedBy (before ++ [tx]) tx.fromAddress - sentBy before tx.fromAddress

/-- Every transfer is funded at its position. -/
def Funded (sm : StateManager) (txs : List Transaction) : Prop :=
  AtEachTurn (fun before tx => tx.isCoinbase = false → FundedAt sm before tx) txs

/-! ## Exactness -/

/-- A transfer pays in full exactly when its sender has an entry that, after
the credit, holds the amount. -/
theorem entry_iff {sm : StateManager} {tx : Transaction} {address : String} :
    (∃ balance, (sm.credit tx).balances[address]? = some balance ∧ tx.amount ≤ balance) ↔
      (sm.balances.contains address = true ∨ tx.credited = some address) ∧
        tx.amount ≤ sm.getBalance address + Posting.credit address (tx.posting id) := by
  rw [← contains_credit, ← getBalance_credit]
  constructor
  · rintro ⟨balance, hentry, hle⟩
    rw [getBalance_of_entry hentry, Std.ExtTreeMap.contains_eq_isSome_getElem?, hentry]
    exact ⟨rfl, hle⟩
  · rintro ⟨hknown, hle⟩
    exact ⟨_, Std.ExtTreeMap.getElem?_eq_some_getD_of_contains hknown, hle⟩

/-- At the turn of a transfer, everything before it being paid in full, paying
in full is being funded. -/
theorem paysInFull_iff_fundedAt {sm : StateManager} {before : List Transaction}
    {tx : Transaction} (hcb : tx.isCoinbase = false) (hexec : sm.executesInFull before = true) :
    (sm.applyTransactions before).paysInFull tx = true ↔ FundedAt sm before tx := by
  -- who is credited is who stands in `toAddress`, for an account that has a name
  have hcredited : ∀ t : Transaction, tx.fromAddress ≠ "" →
      (t.credited = some tx.fromAddress ↔ t.toAddress = tx.fromAddress) := by
    intro t hfrom
    unfold Transaction.credited
    split_ifs with hto
    · simp [hto, hfrom.symm]
    · simp
  -- the balance the debit finds, in closed form
  have hbalance : tx.fromAddress ≠ "" →
      (sm.applyTransactions before).getBalance tx.fromAddress +
          Posting.credit tx.fromAddress (tx.posting id) =
        sm.getBalance tx.fromAddress + receivedBy (before ++ [tx]) tx.fromAddress -
          sentBy before tx.fromAddress := by
    intro hfrom
    rw [getBalance_applyTransactions hexec, Posting.postAll_eq, debits_eq_sentBy _ hfrom,
      ← credits_eq_receivedBy _ hfrom, List.map_append]
    simp only [Posting.credits, List.map_append, List.sum_append, List.map_cons, List.map_nil,
      List.sum_singleton]
    abel
  rw [paysInFull_iff, forall_prop_of_true hcb, entry_iff, contains_applyTransactions]
  constructor
  · rintro ⟨hfrom, hknown, hle⟩
    refine ⟨hfrom, ?_, by rwa [← hbalance hfrom]⟩
    -- known before the list, through an earlier credit, or through its own
    rcases hknown with (hknown | ⟨t, ht, hto⟩) | hself
    · exact Or.inl hknown
    · exact Or.inr ⟨t, List.mem_append_left _ ht, (hcredited t hfrom).mp hto⟩
    · exact Or.inr ⟨tx, by simp, (hcredited tx hfrom).mp hself⟩
  · rintro ⟨hfrom, hknown, hle⟩
    refine ⟨hfrom, ?_, by rwa [hbalance hfrom]⟩
    rcases hknown with hknown | ⟨t, ht, hto⟩
    · exact Or.inl (Or.inl hknown)
    · rcases List.mem_append.mp ht with ht | ht
      · exact Or.inl (Or.inr ⟨t, ht, (hcredited t hfrom).mpr hto⟩)
      · rw [List.mem_singleton.mp ht] at hto
        exact Or.inr ((hcredited tx hfrom).mpr hto)

/-- An execution without an overdraft is one that debits in full. -/
theorem noOverdraft_iff_executesInFull {sm : StateManager} {txs : List Transaction} :
    NoOverdraft sm txs ↔ sm.executesInFull txs = true := by
  rw [executesInFull_iff]
  constructor
  · refine fun h => h.imp fun before tx _ hturn => ?_
    rw [paysInFull_iff]
    intro hcb
    obtain ⟨hfrom, hentry, -⟩ := hturn hcb
    exact ⟨hfrom, hentry⟩
  -- that no coin is made follows from the two others
  · refine fun h => h.imp fun before tx _ hpays hcb => ?_
    obtain ⟨hfrom, hentry⟩ := paysInFull_iff.mp hpays hcb
    have hcoins := totalBalance_applyTransaction_le hcb hpays
    rw [applyTransactions_append]
    exact ⟨hfrom, hentry, hcoins⟩

/-- A list is executed in full exactly when it passes the netting check. -/
theorem executesInFull_iff_funded {sm : StateManager} {txs : List Transaction} :
    sm.executesInFull txs = true ↔ Funded sm txs := by
  refine iff_atEachTurn (R := fun txs => sm.executesInFull txs = true) rfl (fun txs tx => ?_) txs
  simp only [executesInFull_append, executesInFull, Bool.and_true, Bool.and_eq_true]
  -- what comes before is paid in full, so its balances are the netted ones
  refine and_congr_right fun hexec => ?_
  cases hcb : tx.isCoinbase with
  | true => simp [paysInFull, hcb]
  | false => simpa using paysInFull_iff_fundedAt hcb hexec

/-- A call that takes something in executes just that. -/
theorem TakenIn.executed {cfg : NodeConfig} {e : NodeEntry} {sm : StateManager}
    {txs : List Transaction} (h : TakenIn cfg e sm txs)
    (hstep : step cfg e.call e.pre = some (e.ret, e.post)) :
    e.post.stateManager = sm.applyTransactions txs := by
  cases h with
  | block block hop hret =>
    rw [step_accepts hop (acceptBlock_ret.mp hret) hstep]
    rfl
  | chain newChain hop hret =>
    rw [step_adopts hop (replaceChain_ret.mp hret) hstep]
    exact rebuildState_eq e.pre.stateManager newChain

/-- **Network blocks overspend exactly when the netting check fails.** In any
history of any node, whatever a call takes in from the network is executed
without an overdraft if and only if each of its transfers is funded at its
position. -/
theorem network_overdraft_iff {cfg : NodeConfig} {start bc : Blockchain} {tr : List NodeEntry}
    (hist : History cfg start tr bc) :
    ∀ e ∈ tr, ∀ sm txs, TakenIn cfg e sm txs →
      e.post.stateManager = sm.applyTransactions txs ∧ (NoOverdraft sm txs ↔ Funded sm txs) := by
  intro e he sm txs htaken
  exact ⟨htaken.executed (hist.entry e he).1,
    noOverdraft_iff_executesInFull.trans executesInFull_iff_funded⟩

/-! ## A block that spends 1000 coins of an empty account -/

section Sample

/-- A signed transfer of 1000. -/
def overdraftTransfer : Transaction where
  txID := "4266440957e5c652c00e015652886444fad5e9fdea3e5744c4e139499f90953b"
  senderPublicKey := samplePublicKey
  fromAddress := sampleMiner
  toAddress := samplePayee
  amount := 1000
  nonce := 1
  payload := "loan"
  timestamp := "2026-03-14T12:00:10Z"
  digitalSignature := "3045022100fa8682aa6b4de4a2e6669e2e10a32d842699aba988b3506983c68f8aafff949" ++
    "a02203ed4a3094b05a8b99d5f236b6151ed108085ff1ae93957e33994d9e8e34dc592"

/-- A block with this transfer. -/
def overdraftBlock : Block where
  index := 1
  timestamp := "2026-03-14T12:00:10Z"
  previousHash := sampleGenesis.hash
  transactions := [overdraftTransfer]
  merkleRoot := overdraftTransfer.txID
  nonce := 0
  difficulty := 0
  hash := "4aa718751f1125034327e090db68cd66dadefc6e595c59b8b44a107c32d0f443"

/-- The digests of the sample, of the transfer and of the block. -/
def overdraftConfig : NodeConfig where
  crypto := .ofTable (sampleDigests ++
      [(buildTxCore overdraftTransfer, overdraftTransfer.txID),
        (overdraftBlock.headerString, overdraftBlock.hash)])
    [(overdraftTransfer.txID, overdraftTransfer.digitalSignature, samplePublicKey)]
  consensusEngine := none

theorem overdraftBlock_accepted :
    Accepts overdraftConfig (sampleTime 10) overdraftBlock sampleStart :=
  ⟨rfl, rfl, by decide +kernel⟩

theorem overdraftBlock_taken : ∃ tr bc, History overdraftConfig sampleStart tr bc ∧
    ∃ e ∈ tr, TakenIn overdraftConfig e sampleStart.stateManager [overdraftTransfer] :=
  ⟨_, _, Run.snoc Run.nil (step_acceptBlock overdraftBlock_accepted), _,
    List.mem_singleton_self _,
    .block overdraftBlock rfl (acceptBlock_ret.mpr overdraftBlock_accepted)⟩

theorem overdraftGenesis_created :
    Block.createGenesis overdraftConfig.crypto 0 = some sampleGenesis := by
  decide +kernel

end Sample

/-- A new node accepts the block, and the payee holds 1000 coins that nobody
had. -/
theorem network_overdraft_counterexample :
    ¬ ∀ (cfg : NodeConfig) (now : TimePoint) (difficulty : UInt32)
      (persisted : Option (List Block)) (start bc : Blockchain) (tr : List NodeEntry),
      Starts cfg now difficulty persisted start → History cfg start tr bc →
      ∀ e ∈ tr, ∀ sm txs, TakenIn cfg e sm txs → NoOverdraft sm txs := by
  intro h
  obtain ⟨tr, bc, hist, e, he, htaken⟩ := overdraftBlock_taken
  have hstart := starts_freshNode overdraftGenesis_created (sampleTime 0)
  have hno := h overdraftConfig (sampleTime 0) 0 none sampleStart bc tr hstart hist e he _ _ htaken
  rw [noOverdraft_iff_executesInFull] at hno
  revert hno
  decide +kernel

/-- The theorem on that run: the transfer is not funded, and overdraws its
sender. -/
theorem network_overdraft_iff_sample :
    ∃ (e : NodeEntry) (sm : StateManager) (txs : List Transaction),
      TakenIn overdraftConfig e sm txs ∧ ¬ Funded sm txs ∧ ¬ NoOverdraft sm txs := by
  obtain ⟨tr, bc, hist, e, he, htaken⟩ := overdraftBlock_taken
  obtain ⟨-, hiff⟩ := network_overdraft_iff hist e he _ _ htaken
  have hno : ¬ Funded sampleStart.stateManager [overdraftTransfer] := by
    rw [← executesInFull_iff_funded]
    decide +kernel
  exact ⟨e, _, _, htaken, hno, fun h => hno (hiff.mp h)⟩

end PersonalBlockchain
