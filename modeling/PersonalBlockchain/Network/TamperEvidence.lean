import PersonalBlockchain.Ledger.Maps
import PersonalBlockchain.Ledger.Refinement
import PersonalBlockchain.Model.Validity

/-!
# Personal blockchain — what the block hashes commit to

A block hash is the digest of a header with the Merkle root, and the root is
built from the identifiers the transactions carry. Only for a transfer in a
later block does validation compare the identifier with the fields. A coinbase
passes unchecked, and the transactions of the genesis block are not looked at,
so their amounts and recipients are free: every valid chain has a twin with the
same block hashes and other balances.

## Results

* `computeMerkleRoot_replace` — one transaction replaced keeps the root exactly
  when it keeps the leaf;
* `replaced_valid_iff` — what validation asks of other transactions in a block;
* `not_hashesDetermineLedger` — every valid chain has a twin with other balances;
* `tampered_invalid_iff` — of a changed transaction, what validation notices;
* `tamper_evidence_iff` — both for every valid chain;
* `tamper_evidence_counterexample` — a reward raised to 5000.
-/

namespace PersonalBlockchain

open AdjacentPairs StateManager

/-- Every valid chain with the same block hashes leaves the same balances and
nonces. -/
def HashesDetermineLedger (C : Crypto) (chain : List Block) : Prop :=
  ∀ chain', isChainValid C chain' = true → chain'.map Block.hash = chain.map Block.hash →
    ∀ address,
      (rebuildState {} chain').getBalance address = (rebuildState {} chain).getBalance address ∧
      (rebuildState {} chain').getLastNonce address = (rebuildState {} chain).getLastNonce address

/-! ## The Merkle root -/

theorem append_self_inj {a b : String} (h : a ++ a = b ++ b) : a = b := by
  have hlist := congrArg String.toList h
  rw [String.toList_append, String.toList_append] at hlist
  have hlen := congrArg List.length hlist
  simp only [List.length_append] at hlen
  exact String.toList_inj.mp (List.append_inj_left hlist (by omega))

/-- Without collisions a node determines each child from the other. -/
theorem merkleNode_cancels {C : Crypto} (hinj : Function.Injective C.sha256) :
    PairTree.Cancels (merkleNode C) where
  left h := (String.append_left_inj _).mp (hinj h)
  right h := (String.append_right_inj _).mp (hinj h)
  self h := append_self_inj (hinj h)

/-- Replacing one transaction keeps the root exactly when it keeps the leaf. -/
theorem computeMerkleRoot_replace {C : Crypto} (hinj : Function.Injective C.sha256)
    (txs txs' : List Transaction) (tx tx' : Transaction) :
    computeMerkleRoot C (txs ++ tx' :: txs') = computeMerkleRoot C (txs ++ tx :: txs') ↔
      merkleLeaf C tx' = merkleLeaf C tx := by
  constructor
  · intro hroot
    -- a leaf that differs changes every node above it, up to the root
    by_contra hleaf
    have hfuel : (txs.map (merkleLeaf C)).length + (txs'.map (merkleLeaf C)).length ≤
        txs.length + (txs'.length + 1) := by
      simp only [List.length_map]
      omega
    obtain ⟨x, y, hx, hy, hne⟩ :=
      PairTree.reduce_replace (merkleNode_cancels hinj) hleaf _ _ _ hfuel
    unfold computeMerkleRoot at hroot
    simp only [List.map_append, List.map_cons, List.length_append, List.length_cons, hx, hy]
      at hroot
    exact hne hroot
  · intro hleaf
    unfold computeMerkleRoot
    simp only [List.map_append, List.map_cons, List.length_append, List.length_cons, hleaf]

theorem computeMerkleRoot_singleton (C : Crypto) (tx : Transaction) :
    computeMerkleRoot C [tx] = merkleLeaf C tx := rfl

/-- A root is never empty: it is an identifier that is there, or a digest. -/
theorem computeMerkleRoot_ne {C : Crypto} (hne : ∀ s, C.sha256 s ≠ "") (txs : List Transaction) :
    computeMerkleRoot C txs ≠ "" := by
  have hleaf : ∀ x ∈ txs.map (merkleLeaf C), x ≠ "" := by
    intro x hx
    obtain ⟨tx, -, rfl⟩ := List.mem_map.mp hx
    unfold merkleLeaf
    -- a digest, or an identifier that is there
    split_ifs with h
    · exact hne _
    · exact h
  have hnode : ∀ a b, merkleNode C a b ≠ "" := fun a b => hne (a ++ b)
  have hroot := PairTree.forall_reduce hnode txs.length _ hleaf
  unfold computeMerkleRoot
  split
  · exact hne _
  · rename_i root rest hreduce
    exact hroot root (by simp [hreduce])

/-! ## Other transactions under the same hash -/

/-- A check looks at the block before only for its hash. -/
theorem allPairs_checkBlock_congr {C : Crypto} (previous previous' : Block)
    (h : previous'.hash = previous.hash) (i : Nat) (rest : List Block) :
    allPairs (checkBlock C) i previous' rest = allPairs (checkBlock C) i previous rest := by
  cases rest with
  | nil => rfl
  | cons block rest => simp only [allPairs_cons, checkBlock, h]

/-- What validation asks of other transactions in a block of a valid chain. -/
theorem replaced_valid_iff {C : Crypto} {before after : List Block} {block : Block}
    (hvalid : isChainValid C (before ++ block :: after) = true) (txs : List Transaction) :
    isChainValid C (before ++ { block with transactions := txs } :: after) = true ↔
      computeMerkleRoot C txs = computeMerkleRoot C block.transactions ∧
        (before ≠ [] → txs.all (fun tx => tx.verify C) = true) := by
  cases before with
  | nil =>
    -- the genesis block: only the root
    rw [List.nil_append, isChainValid_cons] at hvalid ⊢
    obtain ⟨hgenesis, hrest⟩ := hvalid
    rw [allPairs_checkBlock_congr block { block with transactions := txs } rfl, and_iff_left hrest]
    simp only [ne_eq, not_true_eq_false, false_implies, and_true]
    constructor
    · exact fun h => h.merkleRoot.symm.trans hgenesis.merkleRoot
    · exact fun h => ⟨hgenesis.previousHash, hgenesis.hash, hgenesis.merkleRoot.trans h.symm⟩
  | cons genesis before =>
    -- a later block: the root and the transactions
    rw [List.cons_append, isChainValid_cons, allPairs_append, allPairs_cons, Bool.and_eq_true,
      Bool.and_eq_true, checkBlock_iff] at hvalid ⊢
    obtain ⟨hgenesis, hbefore, hblock, hafter⟩ := hvalid
    rw [allPairs_checkBlock_congr block { block with transactions := txs } rfl, and_iff_left hafter,
      and_iff_right hbefore, and_iff_right hgenesis, forall_prop_of_true (List.cons_ne_nil _ _)]
    constructor
    · exact fun h => ⟨h.merkleRoot.symm.trans hblock.merkleRoot, h.transactions⟩
    · exact fun h => ⟨hblock.index, hblock.hash, hblock.previousHash,
        hblock.merkleRoot.trans h.1.symm, hblock.target, h.2⟩

/-! ## Twins -/

/-- A reward of 1 to `address`, labelled with the Merkle root of the genesis
block. -/
def twinReward (genesis : Block) (address : String) : Transaction where
  txID := genesis.merkleRoot
  senderPublicKey := "COINBASE"
  fromAddress := "COINBASE"
  toAddress := address
  amount := 1

/-- The chain with this reward as the only transaction of its genesis block. -/
def twin (genesis : Block) (rest : List Block) (address : String) : List Block :=
  { genesis with transactions := [twinReward genesis address] } :: rest

/-- The twin is valid: its genesis block has the same root, and nothing else of
it is looked at. -/
theorem twin_valid {C : Crypto} (hne : ∀ s, C.sha256 s ≠ "") {genesis : Block}
    {rest : List Block} (hvalid : isChainValid C (genesis :: rest) = true) (address : String) :
    isChainValid C (twin genesis rest address) = true := by
  have hroot := (isChainValid_cons.mp hvalid).1.merkleRoot
  rw [← List.nil_append (genesis :: rest)] at hvalid
  refine (replaced_valid_iff hvalid _).mpr ⟨?_, fun h => absurd rfl h⟩
  rw [computeMerkleRoot_singleton, merkleLeaf, if_neg]
  · exact hroot
  · show genesis.merkleRoot ≠ ""
    rw [hroot]
    exact computeMerkleRoot_ne hne _

/-- The balance of an address that nothing is sent to or from. -/
theorem getBalance_untouched {txs : List Transaction} {address : String} (haddr : address ≠ "")
    (h : ∀ tx ∈ txs, tx.toAddress ≠ address ∧ tx.fromAddress ≠ address) (sm : StateManager) :
    (sm.applyTransactions txs).getBalance address = sm.getBalance address := by
  rw [getBalance_of_not_debited sm haddr fun tx htx hdebited =>
    (h tx htx).2 (Transaction.debited_eq_some_iff.mp hdebited).2.1]
  have hnone : txs.filter (fun tx => tx.toAddress = address) = [] :=
    List.filter_eq_nil_iff.mpr fun tx htx => by simpa using (h tx htx).1
  rw [receivedBy, hnone]
  exact add_zero _

/-- **Every valid chain has a twin with other balances**: an address that the
chain does not mention holds nothing, and 1 in the twin. -/
theorem not_hashesDetermineLedger {C : Crypto} (hne : ∀ s, C.sha256 s ≠ "")
    {chain : List Block} (hvalid : isChainValid C chain = true) :
    ¬ HashesDetermineLedger C chain := by
  cases chain with
  | nil => cases hvalid
  | cons genesis rest =>
    -- an address the chain does not mention
    obtain ⟨address, haddress⟩ := Infinite.exists_notMem_finset
      ("" :: (chainTransactions (genesis :: rest)).flatMap fun tx =>
        [tx.toAddress, tx.fromAddress]).toFinset
    simp only [List.mem_toFinset, List.mem_cons, List.mem_flatMap, List.not_mem_nil, or_false,
      not_or, not_exists, not_and] at haddress
    obtain ⟨haddr, hunused⟩ := haddress
    have huntouched : ∀ tx ∈ chainTransactions (genesis :: rest),
        tx.toAddress ≠ address ∧ tx.fromAddress ≠ address :=
      fun tx htx => ⟨fun h => (hunused tx htx).1 h.symm, fun h => (hunused tx htx).2 h.symm⟩
    have hrest : ∀ tx ∈ chainTransactions rest,
        tx.toAddress ≠ address ∧ tx.fromAddress ≠ address :=
      fun tx htx => huntouched tx (List.mem_append_right _ htx)
    intro h
    -- it holds nothing here and 1 in the twin
    have hbalance := (h (twin genesis rest address) (twin_valid hne hvalid address) rfl
      address).1
    rw [rebuildState_eq, rebuildState_eq, getBalance_untouched haddr huntouched, twin,
      chainTransactions_cons, List.singleton_append, applyTransactions_cons,
      getBalance_untouched haddr hrest] at hbalance
    have hcredited : ∀ tx ∈ [twinReward genesis address], tx.debited ≠ some address := by
      simp [Transaction.debited_eq_some_iff, twinReward, Transaction.isCoinbase]
    have hreward := getBalance_of_not_debited {} haddr hcredited
    rw [applyTransactions_cons, applyTransactions_nil, hbalance] at hreward
    simp [receivedBy, twinReward] at hreward

/-! ## Changing one transaction -/

/-- The transaction with other amount, addresses and payload. -/
def tampered (tx : Transaction) (amount : UInt64) (fromAddress toAddress payload : String) :
    Transaction :=
  { tx with
    amount := amount
    fromAddress := fromAddress
    toAddress := toAddress
    payload := payload }

section Fields

variable (tx : Transaction) (amount : UInt64) (fromAddress toAddress payload : String)

@[simp] theorem tampered_amount :
    (tampered tx amount fromAddress toAddress payload).amount = amount := rfl
@[simp] theorem tampered_fromAddress :
    (tampered tx amount fromAddress toAddress payload).fromAddress = fromAddress := rfl
@[simp] theorem tampered_payload :
    (tampered tx amount fromAddress toAddress payload).payload = payload := rfl

end Fields

/-- Validation notices that `tx` became `tx'`. Of a coinbase, and in the
genesis block, it sees a payload that no identifier stands for; of a transfer
it sees another core string, a zero amount or a foreign sender. -/
def Noticed (C : Crypto) (inGenesis : Prop) (tx tx' : Transaction) : Prop :=
  ((inGenesis ∨ tx.isCoinbase = true) ∧ tx.txID = "" ∧ tx'.payload ≠ tx.payload) ∨
  (¬ (inGenesis ∨ tx.isCoinbase = true) ∧
    (buildTxCore tx' ≠ buildTxCore tx ∨ tx'.amount = 0 ∨
      ¬ (tx'.fromAddress = "" ∨ tx'.fromAddress = deriveAddressV2 C tx.senderPublicKey ∨
        tx'.fromAddress = deriveAddressLegacy C tx.senderPublicKey)))

/-- The leaf is the identifier as long as there is one; without one the payload
is in it, and of the other fields none is. -/
theorem merkleLeaf_tampered {C : Crypto} (hinj : Function.Injective C.sha256) (tx : Transaction)
    (amount : UInt64) (fromAddress toAddress payload : String) :
    merkleLeaf C (tampered tx amount fromAddress toAddress payload) = merkleLeaf C tx ↔
      ¬ (tx.txID = "" ∧ payload ≠ tx.payload) := by
  unfold merkleLeaf tampered
  dsimp only
  split_ifs with hid
  · rw [hinj.eq_iff, String.append_left_inj, String.append_right_inj]
    simp [hid]
  · simp [hid]

/-- A changed transfer passes when the verified one has the same core. -/
theorem verify_tampered {C : Crypto} (hinj : Function.Injective C.sha256) {tx : Transaction}
    (hcb : tx.isCoinbase = false) (hverify : tx.verify C = true) (amount : UInt64)
    (fromAddress toAddress payload : String) :
    (tampered tx amount fromAddress toAddress payload).verify C = true ↔
      buildTxCore (tampered tx amount fromAddress toAddress payload) = buildTxCore tx ∧
        amount ≠ 0 ∧ (fromAddress = "" ∨ fromAddress = deriveAddressV2 C tx.senderPublicKey ∨
          fromAddress = deriveAddressLegacy C tx.senderPublicKey) := by
  have htx := (Transaction.verify_iff hcb).mp hverify
  have hcb' : (tampered tx amount fromAddress toAddress payload).isCoinbase = false := hcb
  rw [Transaction.verify_iff hcb']
  constructor
  · intro h
    exact ⟨hinj (h.txID_eq.trans htx.txID_eq.symm), h.amount_ne, h.from_derived⟩
  · rintro ⟨hcore, hamount, hfrom⟩
    refine ⟨hamount, htx.txID_ne, htx.signature_ne, htx.sender_ne, hfrom, ?_, htx.signed⟩
    rw [hcore]
    exact htx.txID_eq

/-- **When a changed transaction is noticed.** The chain with one transaction
changed in amount, addresses or payload is refused exactly when the change is
`Noticed`. Only the root and the transaction itself can give it away. -/
theorem tampered_invalid_iff {C : Crypto} (hinj : Function.Injective C.sha256)
    {before after : List Block} {block : Block}
    (hvalid : isChainValid C (before ++ block :: after) = true)
    {txs txs' : List Transaction} {tx : Transaction}
    (htxs : block.transactions = txs ++ tx :: txs') (amount : UInt64)
    (fromAddress toAddress payload : String) :
    isChainValid C (before ++ { block with
        transactions := txs ++ tampered tx amount fromAddress toAddress payload :: txs' } ::
          after) = false ↔
      Noticed C (before = []) tx (tampered tx amount fromAddress toAddress payload) := by
  -- outside the genesis block everything was verified before the change
  have hverified : before ≠ [] → ∀ t ∈ txs ++ tx :: txs', t.verify C = true := by
    intro hlater t ht
    have hall := ((replaced_valid_iff hvalid block.transactions).mp hvalid).2 hlater
    exact List.all_eq_true.mp hall t (htxs ▸ ht)
  -- so only the changed transaction is left to verify
  have hrest : before ≠ [] →
      ((txs ++ tampered tx amount fromAddress toAddress payload :: txs').all
          (fun t => t.verify C) = true ↔
        (tampered tx amount fromAddress toAddress payload).verify C = true) := by
    intro hlater
    have htxs : txs.all (fun t => t.verify C) = true :=
      List.all_eq_true.mpr fun t ht => hverified hlater t (List.mem_append_left _ ht)
    have htxs' : txs'.all (fun t => t.verify C) = true :=
      List.all_eq_true.mpr fun t ht =>
        hverified hlater t (List.mem_append_right _ (List.mem_cons_of_mem _ ht))
    rw [List.all_append, List.all_cons, Bool.and_eq_true, Bool.and_eq_true, and_iff_right htxs,
      and_iff_left htxs']
  rw [← Bool.not_eq_true, replaced_valid_iff hvalid, htxs, computeMerkleRoot_replace hinj,
    merkleLeaf_tampered hinj]
  unfold Noticed
  by_cases hgenesis : before = []
  · simp [hgenesis]
  · cases hcb : tx.isCoinbase with
    | true =>
      -- a coinbase passes whatever it says
      have hpass : (tampered tx amount fromAddress toAddress payload).verify C = true :=
        Transaction.verify_of_isCoinbase hcb
      rw [hrest hgenesis, hpass]
      simp [hgenesis]
    | false =>
      -- a verified transfer has an identifier, and it is the digest of its core
      have hverify := hverified hgenesis tx (by simp)
      have hid : tx.txID ≠ "" := ((Transaction.verify_iff hcb).mp hverify).txID_ne
      rw [hrest hgenesis, verify_tampered hinj hcb hverify]
      simp only [hgenesis, hid, ne_eq, not_false_eq_true, false_and, true_and, forall_true_left,
        Bool.false_eq_true, or_self, tampered_amount, tampered_fromAddress, false_or,
        Classical.not_and_iff_not_or_not, not_not]

/-- **What validation commits to.** The hashes of a valid chain never determine
the ledger, and of a changed transaction validation sees exactly what `Noticed`
names: of a transfer behind the genesis block every change of its core string,
of a coinbase nothing but a payload without an identifier. -/
theorem tamper_evidence_iff {C : Crypto} (hne : ∀ s, C.sha256 s ≠ "")
    (hinj : Function.Injective C.sha256) {chain : List Block}
    (hvalid : isChainValid C chain = true) :
    ¬ HashesDetermineLedger C chain ∧
      ∀ before block after txs tx txs' amount fromAddress toAddress payload,
        chain = before ++ block :: after → block.transactions = txs ++ tx :: txs' →
        (isChainValid C (before ++ { block with
            transactions := txs ++ tampered tx amount fromAddress toAddress payload :: txs' } ::
              after) = false ↔
          Noticed C (before = []) tx (tampered tx amount fromAddress toAddress payload)) := by
  refine ⟨not_hashesDetermineLedger hne hvalid, ?_⟩
  rintro before block after txs tx txs' amount fromAddress toAddress payload rfl htxs
  exact tampered_invalid_iff hinj hvalid htxs amount fromAddress toAddress payload

/-! ## A raised reward -/

section Sample

theorem sampleDigests_ok : Crypto.TableOk sampleDigests where
  distinct := by decide +kernel
  nonempty := by decide +kernel
  digest := by decide +kernel

theorem sampleChain_valid :
    isChainValid sampleCrypto [sampleGenesis, sampleBlock1, sampleBlock2] = true := by
  decide +kernel

/-- The second block of the sample ledger with a reward of 5000. -/
def raisedBlock2 : Block :=
  { sampleBlock2 with
    transactions :=
      [tampered sampleReward2 5000 "COINBASE" sampleMiner "Mining Reward", sampleTransfer] }

theorem raisedChain_valid :
    isChainValid sampleCrypto [sampleGenesis, sampleBlock1, raisedBlock2] = true := by
  decide +kernel

end Sample

/-- The raised reward keeps every hash and the chain stays valid, but the miner
holds 5030 instead of 80. -/
theorem tamper_evidence_counterexample :
    ¬ ∀ (C : Crypto) (chain : List Block), Function.Injective C.sha256 →
      isChainValid C chain = true → HashesDetermineLedger C chain := by
  intro h
  have hsame := h sampleCrypto _ sampleDigests_ok.injective sampleChain_valid _ raisedChain_valid
    rfl sampleMiner
  exact absurd hsame.1 (by decide +kernel)

/-- Of the transfer in the second block a raised amount is noticed. -/
theorem tamper_evidence_iff_sample :
    ¬ HashesDetermineLedger sampleCrypto [sampleGenesis, sampleBlock1, sampleBlock2] ∧
      isChainValid sampleCrypto [sampleGenesis, sampleBlock1, { sampleBlock2 with
        transactions :=
          [sampleReward2, tampered sampleTransfer 21 sampleMiner samplePayee "rent"] }] = false := by
  obtain ⟨hnot, hiff⟩ := tamper_evidence_iff sampleDigests_ok.digest_ne
    sampleDigests_ok.injective sampleChain_valid
  have hnoticed : Noticed sampleCrypto ([sampleGenesis, sampleBlock1] = []) sampleTransfer
      (tampered sampleTransfer 21 sampleMiner samplePayee "rent") := by
    refine Or.inr ⟨?_, Or.inl ?_⟩
    · simp [sampleTransfer, Transaction.isCoinbase, samplePublicKey]
    · decide +kernel
  exact ⟨hnot, (hiff [sampleGenesis, sampleBlock1] sampleBlock2 [] [sampleReward2] sampleTransfer
    [] 21 sampleMiner samplePayee "rent" rfl rfl).mpr hnoticed⟩

end PersonalBlockchain
