import PersonalBlockchain.Model.Block
import Std.Data.ExtTreeMap
import Std.Data.ExtTreeSet

/-!
# Personal blockchain — ledger state

`StateManager`: the five maps derived from the confirmed blocks. A
`std::map<K, V>` is an `ExtTreeMap K V`, a `std::set<K>` an `ExtTreeSet K`.
`applyTransaction` is the body of the loop of `applyBlockState`.
-/

namespace PersonalBlockchain

open Std

/-- `class StateManager`: what the ledger knows of its confirmed transactions,
besides the chain itself. -/
structure StateManager where
  /-- publicKey -> txIDs they have sent -/
  ownershipMap : ExtTreeMap String (ExtTreeSet String) := ∅
  spentTxIDs : ExtTreeSet String := ∅
  balances : ExtTreeMap String UInt64 := ∅
  lastNonceMap : ExtTreeMap String UInt64 := ∅
  transactionsByAddress : ExtTreeMap String (List Transaction) := ∅

namespace StateManager

/-! ## Queries -/

/-- `getBalance`: 0 for an address without an entry. -/
def getBalance (sm : StateManager) (address : String) : UInt64 :=
  sm.balances.getD address 0

/-- `getLastNonce`: 0 for an address that has not sent anything. -/
def getLastNonce (sm : StateManager) (address : String) : UInt64 :=
  sm.lastNonceMap.getD address 0

/-- `getTransactionsForAddress`: received and sent ones, in the order of the
chain. -/
def getTransactionsForAddress (sm : StateManager) (address : String) : List Transaction :=
  sm.transactionsByAddress.getD address []

/-- `isDoubleSpend`: whether the identifier is among the spent ones. Coinbases
enter none. -/
def isDoubleSpend (sm : StateManager) (txID : String) : Bool :=
  sm.spentTxIDs.contains txID

/-! ## Updates -/

/-- `transactionsByAddress_[address].push_back(tx)`. -/
def recordTransaction (sm : StateManager) (address : String) (tx : Transaction) : StateManager :=
  { sm with transactionsByAddress :=
      sm.transactionsByAddress.insert address (sm.getTransactionsForAddress address ++ [tx]) }

/-- The credit of `tx.toAddress`, in `uint64_t`; a transaction without a
receiver credits nobody. -/
def credit (sm : StateManager) (tx : Transaction) : StateManager :=
  if tx.toAddress = "" then sm
  else
    { sm with balances :=
        sm.balances.insert tx.toAddress (sm.getBalance tx.toAddress + tx.amount) }
      |>.recordTransaction tx.toAddress tx

/-- The new balance of a debited account: clamped at zero, and no entry is
created for an account that has none. -/
def debitBalance (balances : ExtTreeMap String UInt64) (address : String) (amount : UInt64) :
    ExtTreeMap String UInt64 :=
  match balances[address]? with
  | some balance => balances.insert address (if amount < balance then balance - amount else 0)
  -- `find` misses: the debit is skipped
  | none => balances

/-- The debit of `tx.fromAddress`, for a transaction that is not a coinbase:
the transaction is spent, and a non-empty sender pays and advances its nonce. -/
def debit (sm : StateManager) (tx : Transaction) : StateManager :=
  if tx.isCoinbase then sm
  else
    -- spent whatever the sender can pay
    let sm := { sm with
      ownershipMap := sm.ownershipMap.insert tx.senderPublicKey
        ((sm.ownershipMap.getD tx.senderPublicKey ∅).insert tx.txID)
      spentTxIDs := sm.spentTxIDs.insert tx.txID }
    if tx.fromAddress = "" then sm
    else
      { sm with
          balances := debitBalance sm.balances tx.fromAddress tx.amount
          lastNonceMap := sm.lastNonceMap.insert tx.fromAddress
            (max (sm.getLastNonce tx.fromAddress) tx.nonce) }
        |>.recordTransaction tx.fromAddress tx

/-- One transaction of a confirmed block: the receiver is credited first, so
that a transfer to oneself is covered by itself. -/
def applyTransaction (sm : StateManager) (tx : Transaction) : StateManager :=
  (sm.credit tx).debit tx

/-- A sequence of transactions in order. -/
def applyTransactions (sm : StateManager) (txs : List Transaction) : StateManager :=
  txs.foldl applyTransaction sm

/-- `applyBlockState`: the transactions of a block, in order. -/
def applyBlockState (sm : StateManager) (block : Block) : StateManager :=
  sm.applyTransactions block.transactions

/-- `rebuildState`: everything is cleared, then the blocks are replayed. -/
def rebuildState (_ : StateManager) (chain : List Block) : StateManager :=
  chain.foldl applyBlockState {}

/-! ## Replaying -/

theorem applyTransactions_append (sm : StateManager) (txs txs' : List Transaction) :
    sm.applyTransactions (txs ++ txs') = (sm.applyTransactions txs).applyTransactions txs' :=
  List.foldl_append

@[simp] theorem applyTransactions_nil (sm : StateManager) : sm.applyTransactions [] = sm := rfl

@[simp] theorem applyTransactions_cons (sm : StateManager) (tx : Transaction)
    (txs : List Transaction) :
    sm.applyTransactions (tx :: txs) = (sm.applyTransaction tx).applyTransactions txs := rfl

/-- Replaying a longer chain is replaying the shorter one, then its last block. -/
theorem rebuildState_append_singleton (sm sm' : StateManager) (chain : List Block) (b : Block) :
    sm.rebuildState (chain ++ [b]) = (sm'.rebuildState chain).applyBlockState b := by
  simp [rebuildState]

/-- Replaying a chain is replaying its transactions. -/
theorem rebuildState_eq (sm : StateManager) (chain : List Block) :
    sm.rebuildState chain = applyTransactions {} (chainTransactions chain) := by
  -- from any state, as the replay of the rest starts where the first block left
  suffices h : ∀ start : StateManager, chain.foldl applyBlockState start =
      start.applyTransactions (chainTransactions chain) from h {}
  induction chain with
  | nil => intro start; rfl
  | cons b chain ih =>
    intro start
    rw [List.foldl_cons, ih, chainTransactions_cons, applyTransactions_append]
    rfl

end StateManager

end PersonalBlockchain
