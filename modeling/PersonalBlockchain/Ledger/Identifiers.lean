import PersonalBlockchain.Ledger.LocalMining

/-!
# Personal blockchain — identifiers

The text of a reward varies with the miner and the second only, so two rewards
of a miner within one second have one identifier. Otherwise the identifiers of
a node that only queues and mines do not repeat.

Main result: `txIDs_nodup_iff`.
-/

namespace PersonalBlockchain

open Machine Blockchain Transaction

/-! ## Texts -/

/-- Timestamps have twenty characters. -/
theorem length_currentTimestamp (now : TimePoint) : (currentTimestamp now).toList.length = 20 := by
  obtain ⟨hmon, hmday, hhour, hmin, hsec⟩ := Calendar.gmtime_bounds now.seconds
  obtain ⟨hlow, hhigh⟩ := gmtime_seconds_year now
  rw [currentTimestamp, putTime]
  simp only [String.toList_append, List.length_append, toString_toList_four hlow hhigh,
    pad2_toList (show (Calendar.gmtime now.seconds).mon < 100 by omega),
    pad2_toList (show (Calendar.gmtime now.seconds).mday < 100 by omega),
    pad2_toList (show (Calendar.gmtime now.seconds).hour < 100 by omega),
    pad2_toList (show (Calendar.gmtime now.seconds).min < 100 by omega),
    pad2_toList (show (Calendar.gmtime now.seconds).sec < 100 by omega)]
  rfl

/-- Two readings of the clock have one timestamp exactly when they are in one
second. -/
theorem currentTimestamp_inj {now now' : TimePoint} :
    currentTimestamp now = currentTimestamp now' ↔ now.seconds = now'.seconds := by
  constructor
  · intro h
    have hparsed := congrArg parseTimestamp h
    rw [parseTimestamp_currentTimestamp, parseTimestamp_currentTimestamp] at hparsed
    exact Int.ofNat.inj hparsed
  · intro h
    rw [currentTimestamp, h, currentTimestamp]

variable {C : Crypto} {now now' : TimePoint} {minerAddress minerAddress' : String}

theorem toDigits_fifty : Nat.toDigits 10 50 = ['5', '0'] := by decide

/-- The text of a reward: only the miner and the time vary. -/
theorem coinbaseFor_text : (buildTxCore (coinbaseFor C now minerAddress)).toList =
    "COINBASE||COINBASE|".toList ++ minerAddress.toList ++ "|50|".toList ++
      ("0|Mining Reward|".toList ++ (currentTimestamp now).toList) := by
  simp [buildTxCore, coinbaseFor, computeTxID, kBlockReward, String.toList_append,
    toDigits_fifty]

theorem genesisCoinbase_text : (buildTxCore (Block.genesisCoinbase C)).toList =
    "COINBASE||COINBASE|GENESIS|50|".toList ++
      ("0|Genesis Block|".toList ++ "2026-01-01T00:00:00Z".toList) := by
  simp [buildTxCore, Block.genesisCoinbase, computeTxID, String.toList_append, toDigits_fifty]

/-- The identifier of a reward is the digest of its text. -/
theorem coinbaseFor_txID : (coinbaseFor C now minerAddress).txID =
    C.sha256 (buildTxCore (coinbaseFor C now minerAddress)) := rfl

/-- **When two rewards have one identifier**: exactly when they go to one miner
within one second, as long as no two strings have one digest. -/
theorem coinbaseFor_txID_eq_iff (hinj : Function.Injective C.sha256) :
    (coinbaseFor C now minerAddress).txID = (coinbaseFor C now' minerAddress').txID ↔
      minerAddress = minerAddress' ∧ now.seconds = now'.seconds := by
  rw [coinbaseFor_txID, coinbaseFor_txID, hinj.eq_iff, ← String.toList_inj, coinbaseFor_text,
    coinbaseFor_text]
  -- behind the address both texts are equally long
  have hlength : ("0|Mining Reward|".toList ++ (currentTimestamp now).toList).length =
      ("0|Mining Reward|".toList ++ (currentTimestamp now').toList).length := by
    rw [List.length_append, List.length_append, length_currentTimestamp, length_currentTimestamp]
  constructor
  · intro h
    obtain ⟨hfront, hback⟩ := List.append_inj' h hlength
    have hminer := List.append_cancel_left (List.append_cancel_right hfront)
    exact ⟨String.toList_inj.mp hminer,
      currentTimestamp_inj.mp (String.toList_inj.mp (List.append_cancel_left hback))⟩
  · rintro ⟨rfl, hseconds⟩
    rw [currentTimestamp_inj.mpr hseconds]

/-- The reward of the genesis block is another text than any mined one, by its
payload. -/
theorem genesisCoinbase_txID_ne (hinj : Function.Injective C.sha256) :
    (Block.genesisCoinbase C).txID ≠ (coinbaseFor C now minerAddress).txID := by
  intro h
  have htext : (buildTxCore (Block.genesisCoinbase C)).toList =
      (buildTxCore (coinbaseFor C now minerAddress)).toList := congrArg String.toList (hinj h)
  rw [genesisCoinbase_text, coinbaseFor_text] at htext
  -- the payloads are as long as each other, and so are the timestamps
  have hends := (List.append_inj' htext (by
    rw [List.length_append, List.length_append, length_currentTimestamp]
    rfl)).2
  have hpayloads := (List.append_inj' hends (length_currentTimestamp now).symm).1
  exact absurd hpayloads (by decide)

/-- No key that a signature is verified with begins with the word the rewards
carry. -/
def NoCoinbaseKey (C : Crypto) : Prop :=
  ∀ message signature publicKey, C.verify message signature publicKey = true →
    ¬ "COINBASE|".toList <+: publicKey.toList

theorem buildTxCore_sender (tx : Transaction) :
    ∃ rest, (buildTxCore tx).toList = tx.senderPublicKey.toList ++ '|' :: rest :=
  ⟨_, by simp only [buildTxCore, String.toList_append, List.append_assoc]; rfl⟩

/-- A verified transfer has another text than a reward: it begins with a key,
and no key begins with the word the rewards carry. -/
theorem transfer_txID_ne (hinj : Function.Injective C.sha256) (hkeys : NoCoinbaseKey C)
    {tx coinbase : Transaction} (htx : tx.isCoinbase = false) (hv : tx.verify C = true)
    (hcb : coinbase.isCoinbase = true) (hid : coinbase.txID = C.sha256 (buildTxCore coinbase)) :
    tx.txID ≠ coinbase.txID := by
  intro h
  have hverified := (verify_iff htx).mp hv
  rw [hid, ← hverified.txID_eq] at h
  have htext := congrArg String.toList (hinj h)
  obtain ⟨rest, hrest⟩ := buildTxCore_sender tx
  obtain ⟨rest', hrest'⟩ := buildTxCore_sender coinbase
  have hword : coinbase.senderPublicKey = "COINBASE" := of_decide_eq_true hcb
  have hother : tx.senderPublicKey ≠ "COINBASE" := of_decide_eq_false htx
  rw [hrest, hrest', hword] at htext
  rcases List.append_eq_append_iff.mp htext with ⟨more, hmore, hback⟩ | ⟨more, hmore, hback⟩
  · cases more with
    | nil => exact hother (String.toList_inj.mp (by simpa using hmore.symm))
    | cons c more =>
      -- the word has no separator in it
      obtain rfl : '|' = c := (List.cons.inj hback).1
      have hmem : '|' ∈ "COINBASE".toList := hmore ▸ by simp
      exact absurd hmem (by decide)
  · cases more with
    | nil => exact hother (String.toList_inj.mp (by simpa using hmore))
    | cons c more =>
      obtain rfl : '|' = c := (List.cons.inj hback).1
      refine hkeys _ _ _ hverified.signed ⟨more, ?_⟩
      rw [hmore]
      rfl

/-! ## A node on its own -/

/-- The mining calls: when, and for whom. -/
def minings (tr : List NodeEntry) : List (TimePoint × String) :=
  tr.filterMap fun e => match e.call.op with
    | .minePendingTransactions minerAddress => some (e.call.now, minerAddress)
    | _ => none

/-- What is known of the transactions of a node that has only queued and
mined. -/
structure LocalTransactions (C : Crypto) (tr : List NodeEntry) (bc : Blockchain) : Prop where
  local_ : LocalLedger bc
  coinbases : (chainTransactions bc.chain).filter Transaction.isCoinbase =
    Block.genesisCoinbase C :: (minings tr).map fun m => coinbaseFor C m.1 m.2
  confirmed : ∀ tx ∈ chainTransactions bc.chain, tx.verify C = true
  pending : ∀ tx ∈ bc.mempool, tx.verify C = true

/-- A new node has its genesis reward and nothing else. -/
theorem localTransactions_start {cfg : NodeConfig} {difficulty : UInt32} {start : Blockchain}
    (h : Starts cfg now difficulty none start) : LocalTransactions cfg.crypto [] start := by
  obtain ⟨-, hmem, genesis, hgenesis, hchain, -⟩ := start_fresh h
  have htxs : chainTransactions start.chain = [Block.genesisCoinbase cfg.crypto] := by
    rw [hchain, chainTransactions_cons, (Block.createGenesis_spec hgenesis).2.1]
    rfl
  refine ⟨localLedger_start h, ?_, ?_, by simp [hmem]⟩
  · rw [htxs]
    rfl
  · rw [htxs]
    intro tx htx
    rw [List.mem_singleton.mp htx]
    exact verify_of_isCoinbase rfl

theorem localTransactions_step {cfg : NodeConfig} {tr : List NodeEntry} {e : NodeEntry}
    (h : LocalTransactions cfg.crypto tr e.pre) (hlocal : e.call.isLocal = true)
    (hs : step cfg e.call e.pre = some (e.ret, e.post)) :
    LocalTransactions cfg.crypto (tr ++ [e]) e.post := by
  have hledger := localLedger_step h.local_ hlocal hs
  have hpending : ∀ tx ∈ e.post.mempool, tx.verify cfg.crypto = true :=
    pending_step (fun _ _ _ hadm => hadm.verified) h.pending hs
  have hminings : minings (tr ++ [e]) = minings tr ++ minings [e] := List.filterMap_append
  obtain ⟨pre, ⟨now, op⟩, reply, post⟩ := e
  cases op with
  | addTransaction tx =>
    -- the chain is as before, and nothing was mined
    have hpost : (pre.addTransaction cfg now tx).node = post :=
      congrArg Prod.snd (Option.some.inj hs)
    have hchain : post.chain = pre.chain := by
      rw [← hpost]
      rcases addTransaction_cases cfg now tx pre with hrej | ⟨-, hout⟩
      · rw [hrej]
        rfl
      · rw [hout]
        rfl
    have hnone : minings (tr ++ [⟨pre, ⟨now, .addTransaction tx⟩, reply, post⟩]) = minings tr :=
      hminings.trans (List.append_nil _)
    exact ⟨hledger, by rw [hchain, hnone]; exact h.coinbases, by rw [hchain]; exact h.confirmed,
      hpending⟩
  | minePendingTransactions minerAddress =>
    simp only [step, Option.map_eq_some_iff] at hs
    obtain ⟨out, hout, hr⟩ := hs
    cases hr
    have hm := (mine_spec hout).1
    -- one block is added, with the reward in front of what was pending
    have htxs : chainTransactions out.node.chain =
        chainTransactions pre.chain ++ out.ret.transactions := by
      rw [hm.chain, chainTransactions_append, chainTransactions_cons, chainTransactions_nil,
        List.append_nil]
    refine ⟨hledger, ?_, ?_, hpending⟩
    · -- of the new block only the reward is a coinbase
      have hnone : (pre.mempool.take maxTxsPerBlock).filter Transaction.isCoinbase = [] :=
        List.filter_eq_nil_iff.mpr fun tx htx => by
          simp [(h.local_.pending tx (List.mem_of_mem_take htx)).notCoinbase]
      rw [htxs, List.filter_append, h.coinbases, hm.transactions, List.filter_cons,
        if_pos (show (coinbaseFor cfg.crypto now minerAddress).isCoinbase = true from rfl), hnone,
        hminings, List.map_append]
      rfl
    · rw [htxs]
      intro tx htx
      rcases List.mem_append.mp htx with htx | htx
      · exact h.confirmed tx htx
      · exact hm.verified h.pending tx htx
  | acceptBlock block => cases hlocal
  | replaceChain newChain => cases hlocal
  | chainFromJson j => cases hlocal

theorem localTransactions_history {cfg : NodeConfig} {difficulty : UInt32}
    {start bc : Blockchain} {tr : List NodeEntry}
    (hstart : Starts cfg now difficulty none start) (hist : History cfg start tr bc)
    (hlocal : ∀ e ∈ tr, e.call.isLocal = true) : LocalTransactions cfg.crypto tr bc :=
  (Run.history_of (J := LocalTransactions cfg.crypto) (C := fun _ e => e.call.isLocal = true)
    (localTransactions_start hstart) (fun _ _ => localTransactions_step) hist
    fun before e after heq => hlocal e (by simp [heq])).1

/-- The pairs that tell rewards apart: the miner, and the second. -/
def rewardSeconds (tr : List NodeEntry) : List (String × Nat) :=
  (minings tr).map fun m => (m.2, m.1.seconds)

/-- The rewards of a run have distinct identifiers exactly when their miners and
seconds are distinct. -/
theorem coinbases_nodup_iff (hinj : Function.Injective C.sha256) {tr : List NodeEntry} :
    ((Block.genesisCoinbase C :: (minings tr).map fun m => coinbaseFor C m.1 m.2).map
      Transaction.txID).Nodup ↔ (rewardSeconds tr).Nodup := by
  have hgenesis : (Block.genesisCoinbase C).txID ∉
      ((minings tr).map fun m => coinbaseFor C m.1 m.2).map Transaction.txID := by
    simp only [List.mem_map, not_exists, not_and]
    rintro _ ⟨m, -, rfl⟩ h
    exact genesisCoinbase_txID_ne hinj h.symm
  rw [List.map_cons, List.nodup_cons, and_iff_right hgenesis, List.map_map, rewardSeconds,
    List.Nodup, List.Nodup, List.pairwise_map, List.pairwise_map]
  refine List.Pairwise.iff fun m m' => ?_
  rw [Function.comp_apply, Function.comp_apply, Ne, coinbaseFor_txID_eq_iff hinj, Ne,
    Prod.mk.injEq]

/-- **When identifiers repeat.** On a node that only queues and mines all
identifiers of the chain are distinct, exactly when nobody mines twice within
one second: the transfers never repeat, and neither does a transfer have the
identifier of a reward. -/
theorem txIDs_nodup_iff {cfg : NodeConfig} {difficulty : UInt32} {start bc : Blockchain}
    {tr : List NodeEntry} (hstart : Starts cfg now difficulty none start)
    (hist : History cfg start tr bc) (hlocal : ∀ e ∈ tr, e.call.isLocal = true)
    (hinj : Function.Injective cfg.crypto.sha256) (hkeys : NoCoinbaseKey cfg.crypto) :
    ((chainTransactions bc.chain).map Transaction.txID).Nodup ↔ (rewardSeconds tr).Nodup := by
  obtain ⟨-, hcoinbases, hverified, -⟩ := localTransactions_history hstart hist hlocal
  -- the transfers come from distinct calls
  have htransfers : ((withoutCoinbases (chainTransactions bc.chain)).map
      Transaction.txID).Nodup := by
    obtain ⟨haccepted, hdistinct, -⟩ := local_mining_in_order hstart hist hlocal
    rw [← haccepted, List.map_append] at hdistinct
    exact hdistinct.of_append_left
  have hapart : ∀ id ∈ ((chainTransactions bc.chain).filter isCoinbase).map Transaction.txID,
      ∀ id' ∈ (withoutCoinbases (chainTransactions bc.chain)).map Transaction.txID, id ≠ id' := by
    rw [hcoinbases]
    simp only [List.forall_mem_map, mem_withoutCoinbases]
    rintro coinbase hcoinbase tx ⟨htx, hnotcb⟩
    have hids : coinbase.isCoinbase = true ∧
        coinbase.txID = cfg.crypto.sha256 (buildTxCore coinbase) := by
      rcases List.mem_cons.mp hcoinbase with rfl | hmined
      · exact ⟨rfl, rfl⟩
      · obtain ⟨m, -, rfl⟩ := List.mem_map.mp hmined
        exact ⟨rfl, rfl⟩
    exact (transfer_txID_ne hinj hkeys hnotcb (hverified tx htx) hids.1 hids.2).symm
  have hsplit := (List.filter_append_perm isCoinbase (chainTransactions bc.chain)).map
    Transaction.txID
  rw [← hsplit.nodup_iff, List.map_append, List.nodup_append, and_iff_left ⟨htransfers, hapart⟩,
    hcoinbases]
  exact coinbases_nodup_iff hinj

end PersonalBlockchain
