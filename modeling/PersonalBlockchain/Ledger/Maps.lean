import PersonalBlockchain.Lib.Posting
import PersonalBlockchain.Lib.Turns
import PersonalBlockchain.Model.StateManager
import Mathlib.Data.UInt
import Mathlib.Algebra.BigOperators.Ring.Finset
import Mathlib.Algebra.Order.Group.Int

/-!
# Personal blockchain — what a replay leaves in the maps

The spent set, the nonces and the balances after a sequence of transactions,
as functions of the sequence. A transaction is a `Posting` from the account it
debits to the account it credits; while every debit is paid in full the
balances are the posted ones, added up in `uint64_t`.

## Results

* `isDoubleSpend_applyTransactions`, `getLastNonce_applyTransactions` — the spent
  set and the nonces;
* `getBalance_applyTransactions` — the balances, while everything is paid in full;
* `getBalance_applyTransactions_eq` — the balances in general, account by account;
* `totalBalance_applyTransaction_le` — transfers create no coins.
-/

namespace PersonalBlockchain

open Std Turns

namespace Transaction

/-- The account a transaction debits: none for a coinbase or without a
sender address. -/
def debited (tx : Transaction) : Option String :=
  if tx.isCoinbase ∨ tx.fromAddress = "" then none else some tx.fromAddress

/-- The account a transaction credits. -/
def credited (tx : Transaction) : Option String :=
  if tx.toAddress = "" then none else some tx.toAddress

/-- A transaction as a posting, with its amount read by `f`. -/
def posting {M : Type} (f : UInt64 → M) (tx : Transaction) : Posting String M :=
  ⟨tx.debited, tx.credited, f tx.amount⟩

theorem debited_of {tx : Transaction} (hcb : tx.isCoinbase = false) (hfrom : tx.fromAddress ≠ "") :
    tx.debited = some tx.fromAddress := by
  simp [debited, hcb, hfrom]

theorem debited_eq_some_iff {tx : Transaction} {address : String} :
    tx.debited = some address ↔
      tx.isCoinbase = false ∧ tx.fromAddress = address ∧ address ≠ "" := by
  unfold debited
  split_ifs with h
  · simp only [false_iff, not_and]
    rintro hcb rfl
    simpa [hcb] using h
  · simp only [not_or, Bool.not_eq_true] at h
    simp only [Option.some.injEq]
    constructor
    · rintro rfl
      exact ⟨h.1, rfl, h.2⟩
    · exact fun h' => h'.2.1

end Transaction

namespace StateManager

/-! ## The fields an update leaves alone -/

section Frame

variable (sm : StateManager) (address : String) (tx : Transaction)

@[simp] theorem recordTransaction_balances :
    (sm.recordTransaction address tx).balances = sm.balances := rfl
@[simp] theorem recordTransaction_spentTxIDs :
    (sm.recordTransaction address tx).spentTxIDs = sm.spentTxIDs := rfl
@[simp] theorem recordTransaction_lastNonceMap :
    (sm.recordTransaction address tx).lastNonceMap = sm.lastNonceMap := rfl

@[simp] theorem credit_spentTxIDs : (sm.credit tx).spentTxIDs = sm.spentTxIDs := by
  unfold credit
  split_ifs <;> rfl

@[simp] theorem credit_lastNonceMap : (sm.credit tx).lastNonceMap = sm.lastNonceMap := by
  unfold credit
  split_ifs <;> rfl

/-- A credit adds the amount to the balance of its receiver. -/
theorem credit_balances : (sm.credit tx).balances =
    if tx.toAddress = "" then sm.balances
    else sm.balances.insert tx.toAddress (sm.getBalance tx.toAddress + tx.amount) := by
  unfold credit
  split_ifs <;> rfl

/-- A debit spends the identifier, also when nobody pays. -/
theorem debit_spentTxIDs : (sm.debit tx).spentTxIDs =
    if tx.isCoinbase then sm.spentTxIDs else sm.spentTxIDs.insert tx.txID := by
  unfold debit
  split_ifs <;> rfl

theorem debit_lastNonceMap : (sm.debit tx).lastNonceMap =
    if tx.isCoinbase ∨ tx.fromAddress = "" then sm.lastNonceMap
    else sm.lastNonceMap.insert tx.fromAddress (max (sm.getLastNonce tx.fromAddress) tx.nonce) := by
  unfold debit
  split_ifs <;> simp_all [getLastNonce]

/-- A debit takes the amount from the balance of its sender. -/
theorem debit_balances : (sm.debit tx).balances =
    if tx.isCoinbase ∨ tx.fromAddress = "" then sm.balances
    else debitBalance sm.balances tx.fromAddress tx.amount := by
  unfold debit
  split_ifs <;> simp_all

end Frame

/-! ## The spent set -/

/-- One transaction spends its identifier, unless it is a coinbase. -/
theorem isDoubleSpend_applyTransaction {sm : StateManager} {tx : Transaction} {txID : String} :
    (sm.applyTransaction tx).isDoubleSpend txID = true ↔
      sm.isDoubleSpend txID = true ∨ tx.isCoinbase = false ∧ tx.txID = txID := by
  unfold isDoubleSpend applyTransaction
  rw [debit_spentTxIDs, credit_spentTxIDs]
  split_ifs with hcb
  · -- a coinbase is never spent
    simp [hcb]
  · simp [hcb, ExtTreeSet.contains_insert, LawfulEqCmp.compare_eq_iff_eq, or_comm]

/-- The spent identifiers are those of the transactions that are not
coinbases. -/
theorem isDoubleSpend_applyTransactions {sm : StateManager} {txs : List Transaction}
    {txID : String} :
    (sm.applyTransactions txs).isDoubleSpend txID = true ↔
      sm.isDoubleSpend txID = true ∨ ∃ tx ∈ txs, tx.isCoinbase = false ∧ tx.txID = txID := by
  induction txs generalizing sm with
  | nil => simp
  | cons tx txs ih =>
    rw [applyTransactions_cons, ih, isDoubleSpend_applyTransaction]
    simp [or_assoc]

/-! ## The nonces -/

/-- One transaction raises the nonce of the account it debits to its own, if
that is greater. -/
theorem getLastNonce_applyTransaction (sm : StateManager) (tx : Transaction) (address : String) :
    (sm.applyTransaction tx).getLastNonce address =
      if tx.debited = some address then max (sm.getLastNonce address) tx.nonce
      else sm.getLastNonce address := by
  unfold applyTransaction getLastNonce Transaction.debited
  rw [debit_lastNonceMap, getLastNonce, credit_lastNonceMap]
  by_cases hnone : tx.isCoinbase ∨ tx.fromAddress = ""
  · simp [hnone]
  · simp only [if_neg hnone, Option.some.injEq, ExtTreeMap.getD_insert,
      LawfulEqCmp.compare_eq_iff_eq]
    split_ifs with hfrom
    · rw [hfrom]
    · rfl

/-- The last nonce of an account is the largest one it used. -/
theorem getLastNonce_applyTransactions (sm : StateManager) (txs : List Transaction)
    (address : String) :
    (sm.applyTransactions txs).getLastNonce address =
      txs.foldl (fun highest tx =>
        if tx.debited = some address then max highest tx.nonce else highest)
        (sm.getLastNonce address) := by
  induction txs generalizing sm with
  | nil => rfl
  | cons tx txs ih =>
    rw [applyTransactions_cons, ih, List.foldl_cons, getLastNonce_applyTransaction]

/-! ## The balances -/

/-- `applyTransaction` debits in full: it takes neither the branch without a
sender, nor the one for a missing account, nor the clamp at zero. -/
def paysInFull (sm : StateManager) (tx : Transaction) : Bool :=
  tx.isCoinbase || (tx.fromAddress ≠ "" &&
    (sm.credit tx).balances[tx.fromAddress]?.any fun balance => tx.amount ≤ balance)

/-- Each of the transactions, in order, debits in full. -/
def executesInFull : StateManager → List Transaction → Bool
  | _, [] => true
  | sm, tx :: txs => sm.paysInFull tx && executesInFull (sm.applyTransaction tx) txs

/-- Two parts: the second in the state the first leaves. -/
theorem executesInFull_append {sm : StateManager} {txs txs' : List Transaction} :
    sm.executesInFull (txs ++ txs') =
      (sm.executesInFull txs && (sm.applyTransactions txs).executesInFull txs') := by
  induction txs generalizing sm with
  | nil => rfl
  | cons tx txs ih => simp [executesInFull, ih, Bool.and_assoc]

theorem executesInFull_iff {sm : StateManager} {txs : List Transaction} :
    sm.executesInFull txs = true ↔
      AtEachTurn (fun before tx => (sm.applyTransactions before).paysInFull tx = true) txs :=
  iff_atEachTurn (R := fun txs => sm.executesInFull txs = true) rfl
    (fun txs tx => by simp [executesInFull_append, executesInFull]) txs

/-- What it takes to pay in full: a sender address with an entry that holds the
amount, the credit of the same transaction included. -/
theorem paysInFull_iff {sm : StateManager} {tx : Transaction} :
    sm.paysInFull tx = true ↔ (tx.isCoinbase = false → tx.fromAddress ≠ "" ∧
      ∃ balance, (sm.credit tx).balances[tx.fromAddress]? = some balance ∧
        tx.amount ≤ balance) := by
  unfold paysInFull
  cases tx.isCoinbase <;> simp [Option.any_eq_true]

theorem getBalance_credit (sm : StateManager) (tx : Transaction) (address : String) :
    (sm.credit tx).getBalance address =
      sm.getBalance address + Posting.credit address (tx.posting id) := by
  unfold getBalance Posting.credit Transaction.posting Transaction.credited
  rw [credit_balances, getBalance]
  by_cases hto : tx.toAddress = ""
  · simp [hto]
  · simp only [if_neg hto, Option.some.injEq, ExtTreeMap.getD_insert,
      LawfulEqCmp.compare_eq_iff_eq]
    split_ifs with haddr
    · rw [haddr]
      rfl
    · simp

/-- The entry a debit finds is the balance. -/
theorem getBalance_of_entry {sm : StateManager} {address : String} {balance : UInt64}
    (h : sm.balances[address]? = some balance) : sm.getBalance address = balance := by
  rw [getBalance, ExtTreeMap.getD_eq_getD_getElem?, h]
  rfl

/-- A debit in full is a subtraction. -/
theorem debitBalance_of_le {balances : ExtTreeMap String UInt64} {address : String}
    {balance amount : UInt64} (hentry : balances[address]? = some balance)
    (hle : amount ≤ balance) :
    debitBalance balances address amount = balances.insert address (balance - amount) := by
  unfold debitBalance
  rw [hentry]
  simp only
  split_ifs with hlt
  · rfl
  · -- the clamp at equality leaves what the subtraction leaves
    have hall : amount = balance := UInt64.le_antisymm hle (UInt64.not_lt.mp hlt)
    rw [hall, UInt64.sub_self]

/-- A debit that is paid in full posts the amount to its sender. -/
theorem getBalance_debit {sm : StateManager} {tx : Transaction} {address : String}
    (h : ∀ payer, tx.debited = some payer →
      ∃ balance, sm.balances[payer]? = some balance ∧ tx.amount ≤ balance) :
    (sm.debit tx).getBalance address =
        sm.getBalance address - Posting.debit address (tx.posting id) ∧
      Posting.debit address (tx.posting id) ≤ sm.getBalance address := by
  unfold Posting.debit Transaction.posting
  simp only [id]
  rw [getBalance, debit_balances]
  -- a coinbase and an empty sender take nothing from anybody
  by_cases hnone : tx.isCoinbase ∨ tx.fromAddress = ""
  · simp [Transaction.debited, hnone, getBalance]
  · have hdebited : tx.debited = some tx.fromAddress := if_neg hnone
    obtain ⟨balance, hentry, hle⟩ := h _ hdebited
    rw [if_neg hnone, debitBalance_of_le hentry hle, ExtTreeMap.getD_insert, hdebited]
    simp only [Option.some.injEq, LawfulEqCmp.compare_eq_iff_eq]
    split_ifs with haddr
    · rw [← haddr, getBalance_of_entry hentry]
      exact ⟨rfl, hle⟩
    · simp [getBalance]

/-- **A transaction that pays in full posts its amount**, and the account it
debits held that amount at its turn. -/
theorem getBalance_applyTransaction {sm : StateManager} {tx : Transaction}
    (h : sm.paysInFull tx = true) (address : String) :
    (sm.applyTransaction tx).getBalance address =
        Posting.post sm.getBalance (tx.posting id) address ∧
      Posting.debit address (tx.posting id) ≤
        sm.getBalance address + Posting.credit address (tx.posting id) := by
  unfold applyTransaction Posting.post
  rw [← getBalance_credit]
  refine getBalance_debit fun payer hpayer => ?_
  -- `paysInFull` looks at the entry after the credit, as the source does
  obtain ⟨hcb, rfl, -⟩ := Transaction.debited_eq_some_iff.mp hpayer
  exact (paysInFull_iff.mp h hcb).2

/-- While everything is paid in full the balances are the posted ones. -/
theorem getBalance_applyTransactions {sm : StateManager} {txs : List Transaction}
    (h : sm.executesInFull txs = true) :
    (sm.applyTransactions txs).getBalance =
      Posting.postAll sm.getBalance (txs.map (Transaction.posting id)) := by
  induction txs generalizing sm with
  | nil => rfl
  | cons tx txs ih =>
    rw [executesInFull, Bool.and_eq_true] at h
    rw [applyTransactions_cons, ih h.2, List.map_cons, Posting.postAll_cons]
    congr 1
    funext address
    exact (getBalance_applyTransaction h.1 address).1

theorem contains_credit {sm : StateManager} {tx : Transaction} {address : String} :
    (sm.credit tx).balances.contains address = true ↔
      sm.balances.contains address = true ∨ tx.credited = some address := by
  rw [credit_balances, Transaction.credited]
  split_ifs with hto
  · simp
  · simp [ExtTreeMap.contains_insert, LawfulEqCmp.compare_eq_iff_eq, or_comm]

/-- An account has an entry once something was credited to it. -/
theorem contains_applyTransaction {sm : StateManager} {tx : Transaction} {address : String} :
    (sm.applyTransaction tx).balances.contains address = true ↔
      sm.balances.contains address = true ∨ tx.credited = some address := by
  rw [← contains_credit, applyTransaction, debit_balances]
  split_ifs
  · rfl
  · -- a debit overwrites an entry, and creates none
    unfold debitBalance
    split
    · rename_i balance hentry
      rw [ExtTreeMap.contains_insert, Bool.or_eq_true, beq_iff_eq, LawfulEqCmp.compare_eq_iff_eq]
      refine ⟨?_, Or.inr⟩
      rintro (rfl | hmem)
      · rw [ExtTreeMap.contains_eq_isSome_getElem?, hentry]
        rfl
      · exact hmem
    · rfl

/-- The accounts with an entry are those that were credited. -/
theorem contains_applyTransactions {sm : StateManager} {txs : List Transaction}
    {address : String} :
    (sm.applyTransactions txs).balances.contains address = true ↔
      sm.balances.contains address = true ∨ ∃ tx ∈ txs, tx.credited = some address := by
  induction txs generalizing sm with
  | nil => simp
  | cons tx txs ih =>
    rw [applyTransactions_cons, ih, contains_applyTransaction]
    simp [or_assoc]

/-- The amounts sent to an address, added up in `uint64_t`. -/
def receivedBy (txs : List Transaction) (address : String) : UInt64 :=
  ((txs.filter fun tx => tx.toAddress = address).map Transaction.amount).sum

/-- The credits of an account are the amounts sent to it. -/
theorem credits_eq_receivedBy (txs : List Transaction) {address : String} (haddr : address ≠ "") :
    Posting.credits (txs.map (Transaction.posting id)) address = receivedBy txs address := by
  induction txs with
  | nil => rfl
  | cons tx txs ih =>
    simp only [Posting.credits, receivedBy, List.map_cons, List.sum_cons] at ih ⊢
    rw [ih]
    by_cases hto : tx.toAddress = address
    · simp [Posting.credit, Transaction.posting, Transaction.credited, hto, haddr]
    · have hcredited : tx.credited ≠ some address := by
        unfold Transaction.credited
        split_ifs <;> simp [hto]
      simp [Posting.credit, Transaction.posting, hcredited, hto]

/-- The amounts transferred from an address, added up in `uint64_t`. -/
def sentBy (txs : List Transaction) (address : String) : UInt64 :=
  ((txs.filter fun tx => !tx.isCoinbase && tx.fromAddress = address).map Transaction.amount).sum

/-- The debits of an account are the amounts transferred from it. -/
theorem debits_eq_sentBy (txs : List Transaction) {address : String} (haddr : address ≠ "") :
    Posting.debits (txs.map (Transaction.posting id)) address = sentBy txs address := by
  induction txs with
  | nil => rfl
  | cons tx txs ih =>
    simp only [Posting.debits, sentBy, List.map_cons, List.sum_cons] at ih ⊢
    rw [ih]
    -- the amount counts on both sides or on neither
    by_cases hfrom : tx.isCoinbase = false ∧ tx.fromAddress = address
    · simp [Posting.debit, Transaction.posting, Transaction.debited, hfrom, haddr]
    · have hdebited : tx.debited ≠ some address := by
        intro h
        obtain ⟨hcb, hsender, -⟩ := Transaction.debited_eq_some_iff.mp h
        exact hfrom ⟨hcb, hsender⟩
      have hskip : (!tx.isCoinbase && decide (tx.fromAddress = address)) = false := by
        cases hcb : tx.isCoinbase <;> simp_all
      simp [Posting.debit, Transaction.posting, hdebited, hskip]

theorem getBalance_debit_of_ne {sm : StateManager} {tx : Transaction} {address : String}
    (h : tx.debited ≠ some address) : (sm.debit tx).getBalance address = sm.getBalance address := by
  rw [getBalance, debit_balances]
  by_cases hnone : tx.isCoinbase ∨ tx.fromAddress = ""
  · simp [hnone, getBalance]
  · have hne : tx.fromAddress ≠ address := by
      rw [Transaction.debited, if_neg hnone] at h
      simpa using h
    have hcompare : ¬ compare tx.fromAddress address = .eq := by
      simpa [LawfulEqCmp.compare_eq_iff_eq]
    -- another account's entry is written, or none is there
    rw [if_neg hnone, debitBalance]
    split
    · rw [ExtTreeMap.getD_insert, if_neg hcompare, getBalance]
    · rfl

/-- An account that is not debited only receives, in `uint64_t`. -/
theorem getBalance_of_not_debited (sm : StateManager) {txs : List Transaction} {address : String}
    (haddr : address ≠ "") (h : ∀ tx ∈ txs, tx.debited ≠ some address) :
    (sm.applyTransactions txs).getBalance address =
      sm.getBalance address + receivedBy txs address := by
  rw [← credits_eq_receivedBy _ haddr]
  induction txs generalizing sm with
  | nil => exact (add_zero _).symm
  | cons tx txs ih =>
    obtain ⟨htx, htxs⟩ := List.forall_mem_cons.mp h
    rw [applyTransactions_cons, ih _ htxs, applyTransaction, getBalance_debit_of_ne htx,
      getBalance_credit]
    simp only [Posting.credits, List.map_cons, List.sum_cons, add_assoc]

/-- What `applyTransaction` makes of the balance of one account: the credit is
added in `uint64_t`, the debit is clamped at zero. -/
def balanceAfter (address : String) (balance : UInt64) (tx : Transaction) : UInt64 :=
  let credited := balance + Posting.credit address (tx.posting id)
  if tx.debited = some address then
    if tx.amount < credited then credited - tx.amount else 0
  else credited

/-- The balance of an account depends on no other account. -/
theorem getBalance_applyTransaction_eq (sm : StateManager) (tx : Transaction) (address : String) :
    (sm.applyTransaction tx).getBalance address =
      balanceAfter address (sm.getBalance address) tx := by
  unfold applyTransaction balanceAfter
  rw [← getBalance_credit]
  by_cases hdebited : tx.debited = some address
  · obtain ⟨hcb, rfl, haddr⟩ := Transaction.debited_eq_some_iff.mp hdebited
    rw [if_pos hdebited, getBalance, debit_balances, if_neg (by simp [hcb, haddr]), debitBalance]
    split
    · rename_i balance hentry
      rw [ExtTreeMap.getD_insert, if_pos (LawfulEqCmp.compare_eq_iff_eq.mpr rfl),
        getBalance_of_entry hentry]
    · -- no entry: nothing is held and nothing is taken
      rename_i hnone
      have hzero : (sm.credit tx).getBalance tx.fromAddress = 0 := by
        rw [getBalance, ExtTreeMap.getD_eq_getD_getElem?, hnone]
        rfl
      rw [ExtTreeMap.getD_eq_getD_getElem?, hnone, hzero, if_neg UInt64.not_lt_zero]
      rfl
  · rw [if_neg hdebited]
    exact getBalance_debit_of_ne hdebited

/-- The balance of an account, transaction by transaction: what the others do to
it is all there is. -/
theorem getBalance_applyTransactions_eq (sm : StateManager) (txs : List Transaction)
    (address : String) :
    (sm.applyTransactions txs).getBalance address =
      txs.foldl (balanceAfter address) (sm.getBalance address) := by
  induction txs generalizing sm with
  | nil => rfl
  | cons tx txs ih =>
    rw [applyTransactions_cons, ih, List.foldl_cons, getBalance_applyTransaction_eq]

/-- Nothing is ever held under the empty address. -/
theorem getBalance_empty (sm : StateManager) (txs : List Transaction) :
    (sm.applyTransactions txs).getBalance "" = sm.getBalance "" := by
  induction txs generalizing sm with
  | nil => rfl
  | cons tx txs ih =>
    have hdebit : tx.debited ≠ some "" := fun h => (Transaction.debited_eq_some_iff.mp h).2.2 rfl
    have hcredit : tx.credited ≠ some "" := by
      unfold Transaction.credited
      split_ifs with hto <;> simp [hto]
    rw [applyTransactions_cons, ih, applyTransaction, getBalance_debit_of_ne hdebit,
      getBalance_credit]
    simp [Posting.credit, Transaction.posting, hcredit]

/-! ## All balances together -/

/-- The sum of all balances, without wrapping. -/
def totalBalance (sm : StateManager) : Nat :=
  (sm.balances.keys.map fun address => (sm.getBalance address).toNat).sum

/-- The total may be taken over any accounts that include those with an
entry. -/
theorem totalBalance_eq {sm : StateManager} {S : Finset String}
    (h : ∀ address, sm.balances.contains address = true → address ∈ S) :
    sm.totalBalance = ∑ address ∈ S, (sm.getBalance address).toNat := by
  rw [totalBalance, ← List.sum_toFinset _ ExtTreeMap.nodup_keys]
  refine Finset.sum_subset ?_ ?_
  · intro address hmem
    exact h address (by simpa using hmem)
  · -- an account without an entry holds nothing
    intro address _ hmem
    have hno : ¬ address ∈ sm.balances := by simpa using hmem
    rw [getBalance, ExtTreeMap.getD_eq_fallback hno]
    rfl

/-- The integer a balance or an amount stands for. -/
def toInt (x : UInt64) : ℤ := x.toNat

theorem credit_toInt (address : String) (tx : Transaction) :
    toInt (Posting.credit address (tx.posting id)) = Posting.credit address (tx.posting toInt) := by
  unfold Posting.credit Transaction.posting
  dsimp only
  split_ifs <;> rfl

theorem debit_toInt (address : String) (tx : Transaction) :
    toInt (Posting.debit address (tx.posting id)) = Posting.debit address (tx.posting toInt) := by
  unfold Posting.debit Transaction.posting
  dsimp only
  split_ifs <;> rfl

/-- Read as integers, a transaction that pays in full posts its amount unless
the credited balance wraps, and then leaves less. -/
theorem toInt_getBalance_applyTransaction {sm : StateManager} {tx : Transaction}
    (h : sm.paysInFull tx = true) (address : String) :
    toInt ((sm.applyTransaction tx).getBalance address) ≤
        Posting.post (fun a => toInt (sm.getBalance a)) (tx.posting toInt) address ∧
      (toInt (sm.getBalance address) + Posting.credit address (tx.posting toInt) < 2 ^ 64 →
        toInt ((sm.applyTransaction tx).getBalance address) =
          Posting.post (fun a => toInt (sm.getBalance a)) (tx.posting toInt) address) := by
  obtain ⟨heq, hle⟩ := getBalance_applyTransaction h address
  rw [heq, Posting.post, Posting.post, ← credit_toInt, ← debit_toInt]
  unfold toInt
  -- the subtraction is exact; only the credit can wrap
  rw [UInt64.toNat_sub_of_le _ _ hle, UInt64.toNat_add]
  rw [UInt64.le_iff_toNat_le, UInt64.toNat_add] at hle
  omega

/-- Accounts that include those of some postings and those with an entry. -/
theorem exists_accounts (sm : StateManager) (ps : List (Posting String ℤ)) :
    ∃ T : Finset String, Posting.Within T ps ∧
      ∀ address, sm.balances.contains address = true → address ∈ T := by
  obtain ⟨S, hS, -⟩ := Posting.exists_within ps ""
  refine ⟨S ∪ sm.balances.keys.toFinset, ?_, ?_⟩
  · exact fun p hp a ha => Finset.mem_union_left _ (hS p hp a ha)
  · exact fun a ha => Finset.mem_union_right _ (by simpa using ha)

/-- When every balance is the posted one, the total is what came in minus what
went out. -/
theorem totalBalance_of_posted {sm : StateManager} {ps : List (Posting String ℤ)}
    (h : ∀ address, toInt (sm.getBalance address) = Posting.postAll 0 ps address) :
    (sm.totalBalance : ℤ) = Posting.issued ps - Posting.burned ps := by
  obtain ⟨T, hT, hkeys⟩ := sm.exists_accounts ps
  have hsum := Posting.sum_postAll 0 hT
  rw [totalBalance_eq hkeys, Nat.cast_sum]
  simp only [← h, Pi.zero_apply, Finset.sum_const_zero, zero_add] at hsum
  exact hsum

/-- **Transfers create no coins**: a transfer that is paid in full never raises
the sum of all balances. It lowers the sum when nobody is credited or a balance
wraps. -/
theorem totalBalance_applyTransaction_le {sm : StateManager} {tx : Transaction}
    (hcb : tx.isCoinbase = false) (h : sm.paysInFull tx = true) :
    (sm.applyTransaction tx).totalBalance ≤ sm.totalBalance := by
  have hsrc : tx.debited = some tx.fromAddress :=
    Transaction.debited_of hcb (paysInFull_iff.mp h hcb).1
  obtain ⟨T, hT, hbefore⟩ := sm.exists_accounts [tx.posting toInt]
  -- a transaction adds an entry at most for the account it credits
  have hafter : ∀ a, (sm.applyTransaction tx).balances.contains a = true → a ∈ T := by
    intro a ha
    rcases contains_applyTransaction.mp ha with ha | ha
    · exact hbefore a ha
    · exact hT _ (List.mem_singleton_self _) a (Or.inr ha)
  have hsum := Posting.sum_postAll (fun a => toInt (sm.getBalance a)) hT
  have hamount : 0 ≤ (tx.posting toInt).amount := Int.natCast_nonneg _
  -- the debited account lies inside the books, so nothing is issued
  have hissued : Posting.issued [tx.posting toInt] = 0 := by
    simp [Posting.issued, Transaction.posting, hsrc]
  have hburned : 0 ≤ Posting.burned [tx.posting toInt] :=
    Posting.burned_nonneg fun p hp => List.mem_singleton.mp hp ▸ hamount
  rw [totalBalance_eq hbefore, totalBalance_eq hafter]
  have hle : ∑ a ∈ T, toInt ((sm.applyTransaction tx).getBalance a) ≤
      ∑ a ∈ T, toInt (sm.getBalance a) := by
    calc ∑ a ∈ T, toInt ((sm.applyTransaction tx).getBalance a)
        ≤ ∑ a ∈ T, Posting.post (fun a => toInt (sm.getBalance a)) (tx.posting toInt) a :=
          Finset.sum_le_sum fun a _ => (toInt_getBalance_applyTransaction h a).1
      _ = ∑ a ∈ T, toInt (sm.getBalance a) - Posting.burned [tx.posting toInt] := by
          rw [← add_zero (∑ a ∈ T, toInt (sm.getBalance a)), ← hissued, ← hsum]
          rfl
      _ ≤ _ := sub_le_self _ hburned
  unfold toInt at hle
  exact_mod_cast hle

end StateManager

end PersonalBlockchain
