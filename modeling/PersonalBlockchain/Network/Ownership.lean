import PersonalBlockchain.Ledger.LocalBlocks
import PersonalBlockchain.Model.Validity

/-!
# Personal blockchain — only the owner spends

A balance goes down when a transfer debits it, and a transfer in a block is
signed by its sender. But `applyBlockState` also adds credits up in `uint64_t`
without a check, and a block from the network chooses its amounts: a credit
that passes 2^64 wraps the balance of an account that signed nothing. Only
owners spend exactly when no account that the block does not debit is credited
past 2^64.

## Results

* `Appended.applied` — an appended block is applied to the maps, and holds
  verified transactions only;
* `only_owners_spend_iff` — a block lowers only balances of accounts that signed a
  transfer in it exactly when its credits fit the others;
* `only_owners_spend_counterexample` — a reward that wraps a balance.
-/

namespace PersonalBlockchain

open Machine Blockchain StateManager

/-- The block a completed call appended to the chain. -/
inductive Appended (cfg : NodeConfig) (e : NodeEntry) : Block → Prop
  | mined (minerAddress : String) (block : Block) :
      e.call.op = .minePendingTransactions minerAddress → e.ret.answer = .block block →
      Appended cfg e block
  | accepted (block : Block) : e.call.op = .acceptBlock block →
      (e.pre.acceptBlock cfg e.call.now block).ret = true → Appended cfg e block

/-- The block holds a verified transfer from the address. -/
def SpentBy (C : Crypto) (address : String) (block : Block) : Prop :=
  ∃ tx ∈ block.transactions, tx.isCoinbase = false ∧ tx.fromAddress = address ∧
    tx.verify C = true

/-- Whoever holds less after the call than before has signed a transfer in the
block. -/
def OnlyOwnersSpend (C : Crypto) (e : NodeEntry) (block : Block) : Prop :=
  ∀ address, e.post.getBalanceForAddress address < e.pre.getBalanceForAddress address →
    SpentBy C address block

/-- No account that the block does not debit is credited past 2^64. -/
def CreditsFit (bc : Blockchain) (block : Block) : Prop :=
  ∀ address, address ≠ "" →
    (∀ tx ∈ block.transactions, tx.isCoinbase = false → tx.fromAddress ≠ address) →
    (bc.getBalanceForAddress address).toNat +
      (receivedBy block.transactions address).toNat < 2 ^ 64

/-! ## What an appended block does to the balances -/

/-- An appended block is applied to the maps, and its transactions are
verified. -/
theorem Appended.applied {cfg : NodeConfig} {e : NodeEntry} {block : Block}
    (h : Appended cfg e block) (hpending : ∀ tx ∈ e.pre.mempool, tx.verify cfg.crypto = true)
    (hstep : step cfg e.call e.pre = some (e.ret, e.post)) :
    e.post.stateManager = e.pre.stateManager.applyTransactions block.transactions ∧
      ∀ tx ∈ block.transactions, tx.verify cfg.crypto = true := by
  cases h with
  | mined minerAddress block hop hret =>
    obtain ⟨block', hret', hm⟩ := step_mines hop hstep
    obtain rfl : block = block' := Answer.block.inj (hret.symm.trans hret')
    exact ⟨hm.stateManager, hm.verified hpending⟩
  | accepted block hop hret =>
    have hacc := acceptBlock_ret.mp hret
    rw [step_accepts hop hacc hstep]
    exact ⟨rfl, List.all_eq_true.mp hacc.checked.transactions⟩

/-- A sum in `uint64_t` is smaller than its first part when it wraps. -/
theorem add_lt_left_iff {x y : UInt64} : x + y < x ↔ 2 ^ 64 ≤ x.toNat + y.toNat := by
  have hx := x.toNat_lt
  have hy := y.toNat_lt
  rw [UInt64.lt_iff_toNat_lt, UInt64.toNat_add]
  omega

/-- **When only the owners spend.** In every history of every node, a block
that a call appends lowers only balances of accounts that signed a transfer in
it if and only if its credits fit the accounts it does not debit. -/
theorem only_owners_spend_iff {cfg : NodeConfig} {now : TimePoint} {difficulty : UInt32}
    {persisted : Option (List Block)} {start bc : Blockchain} {tr : List NodeEntry}
    (hstart : Starts cfg now difficulty persisted start) (hist : History cfg start tr bc) :
    ∀ e ∈ tr, ∀ block, Appended cfg e block →
      (OnlyOwnersSpend cfg.crypto e block ↔ CreditsFit e.pre block) := by
  intro e he block happended
  obtain ⟨hstep, tr', hist'⟩ := hist.entry e he
  obtain ⟨hpost, hverified⟩ := happended.applied (pending_verified hstart hist') hstep
  -- an account that the block does not debit only receives
  have hreceives : ∀ address, address ≠ "" →
      (∀ tx ∈ block.transactions, tx.isCoinbase = false → tx.fromAddress ≠ address) →
      e.post.getBalanceForAddress address =
        e.pre.getBalanceForAddress address + receivedBy block.transactions address := by
    intro address haddr hnone
    unfold getBalanceForAddress
    rw [hpost]
    refine getBalance_of_not_debited _ haddr fun tx htx hdebited => ?_
    obtain ⟨hcb, hfrom, -⟩ := Transaction.debited_eq_some_iff.mp hdebited
    exact hnone tx htx hcb hfrom
  constructor
  · -- a credit that does not fit lowers the balance of somebody who did not sign
    intro howners address haddr hnone
    by_contra hfit
    have hless : e.post.getBalanceForAddress address < e.pre.getBalanceForAddress address := by
      rw [hreceives address haddr hnone, add_lt_left_iff]
      omega
    obtain ⟨tx, htx, hcb, hfrom, -⟩ := howners address hless
    exact hnone tx htx hcb hfrom
  · intro hfit address hless
    by_contra hnot
    have hnone : ∀ tx ∈ block.transactions, tx.isCoinbase = false → tx.fromAddress ≠ address :=
      fun tx htx hcb hfrom => hnot ⟨tx, htx, hcb, hfrom, hverified tx htx⟩
    by_cases haddr : address = ""
    · -- the empty address holds nothing and loses nothing
      subst haddr
      unfold getBalanceForAddress at hless
      rw [hpost, getBalance_empty] at hless
      exact absurd hless (UInt64.lt_irrefl _)
    · rw [hreceives address haddr hnone, add_lt_left_iff] at hless
      have := hfit address haddr hnone
      omega

/-! ## A reward that wraps a balance -/

section Sample

/-- A reward of 2^64 - 1 to the address of the genesis reward. -/
def wrappingReward : Transaction :=
  { sampleReward1 with
    toAddress := "GENESIS"
    amount := 18446744073709551615
    txID := "e09b699da45e24752140218e3ff83c4ee14b5782270d01831bcc1ca3b4bb3dcb" }

/-- A block with this reward. -/
def wrappingBlock : Block :=
  { sampleBlock1 with
    transactions := [wrappingReward]
    merkleRoot := wrappingReward.txID
    hash := "e42d91a49f605f069d5db1fa21bbec22bc768de387305116a60ab4aafefe4c91" }

/-- The digests of the sample and the hash of the block, without an engine. -/
def wrappingConfig : NodeConfig where
  crypto := .ofTable (sampleDigests ++ [(wrappingBlock.headerString, wrappingBlock.hash)]) []
  consensusEngine := none

theorem wrappingGenesis_created :
    Block.createGenesis wrappingConfig.crypto 0 = some sampleGenesis := by
  decide +kernel

theorem wrappingBlock_accepted :
    Accepts wrappingConfig (sampleTime 10) wrappingBlock sampleStart :=
  ⟨rfl, rfl, by decide +kernel⟩

/-- The call that accepts the block on a new node. -/
def wrappingEntry : NodeEntry where
  pre := sampleStart
  call := ⟨sampleTime 10, .acceptBlock wrappingBlock⟩
  ret := ⟨.bool true, [.appendBlock wrappingBlock, .onBlockAccepted wrappingBlock]⟩
  post := sampleStart.receive wrappingBlock

theorem wrappingEntry_appended : Appended wrappingConfig wrappingEntry wrappingBlock :=
  .accepted wrappingBlock rfl (acceptBlock_ret.mpr wrappingBlock_accepted)

theorem wrapping_history : History wrappingConfig sampleStart [wrappingEntry]
    (sampleStart.receive wrappingBlock) :=
  Run.snoc Run.nil (step_acceptBlock wrappingBlock_accepted)

/-- The balance of GENESIS falls from 50 to 49, and nobody signed. -/
theorem wrappingEntry_lowers : ¬ OnlyOwnersSpend wrappingConfig.crypto wrappingEntry
    wrappingBlock := by
  intro howners
  obtain ⟨tx, htx, hcb, -⟩ := howners "GENESIS" (by decide +kernel)
  rw [List.mem_singleton.mp htx] at hcb
  cases hcb

end Sample

/-- The balance of GENESIS falls without a transfer from it. -/
theorem only_owners_spend_counterexample :
    ¬ ∀ (cfg : NodeConfig) (now : TimePoint) (difficulty : UInt32)
      (persisted : Option (List Block)) (start bc : Blockchain) (tr : List NodeEntry),
      Starts cfg now difficulty persisted start → History cfg start tr bc →
      ∀ e ∈ tr, ∀ block, Appended cfg e block → OnlyOwnersSpend cfg.crypto e block := by
  intro h
  exact wrappingEntry_lowers (h wrappingConfig (sampleTime 0) 0 none sampleStart _ _
    (starts_freshNode wrappingGenesis_created _) wrapping_history wrappingEntry
    (List.mem_singleton_self _) wrappingBlock wrappingEntry_appended)

/-- The theorem on that call: the credits of the block do not fit. -/
theorem only_owners_spend_iff_sample : ¬ CreditsFit sampleStart wrappingBlock := by
  have hstart := starts_freshNode wrappingGenesis_created (sampleTime 0)
  have hiff := only_owners_spend_iff hstart wrapping_history wrappingEntry
    (List.mem_singleton_self _) wrappingBlock wrappingEntry_appended
  exact fun hfit => wrappingEntry_lowers (hiff.mpr hfit)

end PersonalBlockchain
