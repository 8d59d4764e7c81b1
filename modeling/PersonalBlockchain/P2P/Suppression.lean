import PersonalBlockchain.P2P.Gossip

/-!
# Personal blockchain — gossip that is suppressed

The identifiers that were seen are the ones the senders claim, and they are
remembered before anything is checked. A block or a transaction that the ledger
would take is dropped when its identifier came before, with whatever content.

## Results

* `newTransaction_admitted_iff`, `newBlock_appended_iff` — what one message of either
  kind does;
* `gossip_suppression_iff` — both along every run of a new node;
* `gossip_suppression_counterexample` — a forged transaction that comes first.
-/

namespace PersonalBlockchain

open Std Locking Routine NodeM Machine

variable {S : NodeSetup} {env : Env} {p : PeerId} {payload : Json} {node node' : Node} {u : Unit}

/-- **Which transactions are admitted.** A transaction that is handled and that
the ledger would take joins the mempool exactly when its identifier is not among
those that were seen. -/
theorem newTransaction_admitted_iff {tx : Transaction}
    (h : nodeStep S (.input env (.message p ⟨.newTransaction, payload⟩)) node = some (u, node'))
    (hlimited : node.Limited S) (hadmits : node.Admits S env p ⟨.newTransaction, payload⟩)
    (htx : Transaction.fromJson S.cfg.crypto payload = .ok tx)
    (hledger : (node.blockchain.addTransaction S.cfg env.now tx).ret = true) :
    node'.blockchain.mempool = node.blockchain.mempool ++ [tx] ↔
      node.seenTxIDs.contains tx.txID = false := by
  obtain ⟨mid, hdispatch, rfl⟩ := handleMessage_returned hadmits (handlerReturned_eq_some.mp h)
  have hreceived : (node.received S env p ⟨.newTransaction, payload⟩).Limited S := hlimited
  -- the ledger the handler leaves, which the counting and the remembering have not touched
  have hmid : mid.blockchain = if node.seenTxIDs.contains tx.txID then node.blockchain
      else (node.blockchain.addTransaction S.cfg env.now tx).node :=
    (congrArg (fun r => r.2.blockchain) hdispatch).symm.trans
      (onNewTransaction_blockchain htx hreceived)
  show mid.blockchain.mempool = _ ↔ _
  rw [hmid]
  split
  next hold => exact iff_of_false (fun heq => by simp at heq) (by simp [hold])
  next hnew =>
    refine iff_of_true ?_ (Bool.eq_false_of_not_eq_true hnew)
    rcases Blockchain.addTransaction_cases S.cfg env.now tx node.blockchain with hno | ⟨-, hyes⟩
    · rw [hno] at hledger
      cases hledger
    · rw [hyes]
      rfl

/-- **Which blocks are appended.** A block that is handled and that the ledger
would take is appended exactly when its hash is not among those that were seen. -/
theorem newBlock_appended_iff {block : Block}
    (h : nodeStep S (.input env (.message p ⟨.newBlock, payload⟩)) node = some (u, node'))
    (hlimited : node.Limited S) (hadmits : node.Admits S env p ⟨.newBlock, payload⟩)
    (hblock : Block.fromJson S.cfg.crypto payload = .ok block)
    (hledger : (node.blockchain.acceptBlock S.cfg env.now block).ret = true) :
    node'.blockchain.chain = node.blockchain.chain ++ [block] ↔
      node.seenBlockHashes.contains block.hash = false := by
  obtain ⟨mid, hdispatch, rfl⟩ := handleMessage_returned hadmits (handlerReturned_eq_some.mp h)
  have hreceived : (node.received S env p ⟨.newBlock, payload⟩).Limited S := hlimited
  have haccepts : Blockchain.Accepts S.cfg env.now block
      (node.received S env p ⟨.newBlock, payload⟩).blockchain :=
    Blockchain.acceptBlock_ret.mp hledger
  have hmid : mid.blockchain = if node.seenBlockHashes.contains block.hash then node.blockchain
      else node.blockchain.receive block :=
    (congrArg (fun r => r.2.blockchain) hdispatch).symm.trans
      (onNewBlock_blockchain hblock haccepts hreceived)
  show mid.blockchain.chain = _ ↔ _
  rw [hmid]
  split
  next hold => exact iff_of_false (fun heq => by simp at heq) (by simp [hold])
  next hnew => exact iff_of_true rfl (Bool.eq_false_of_not_eq_true hnew)

/-- A transaction or a block that the ledger would take, from a peer that is
neither banned nor over its limit and not as a repetition, is taken by this
entry exactly when its identifier is not remembered. -/
def TakenIffUnseen (S : NodeSetup) (e : Entry Node NodeEvent Unit) : Prop :=
  ∀ env p payload,
    (∀ tx, e.call = .input env (.message p ⟨.newTransaction, payload⟩) →
      e.pre.Admits S env p ⟨.newTransaction, payload⟩ →
      Transaction.fromJson S.cfg.crypto payload = .ok tx →
      (e.pre.blockchain.addTransaction S.cfg env.now tx).ret = true →
      (e.post.blockchain.mempool = e.pre.blockchain.mempool ++ [tx] ↔
        e.pre.seenTxIDs.contains tx.txID = false)) ∧
    (∀ block, e.call = .input env (.message p ⟨.newBlock, payload⟩) →
      e.pre.Admits S env p ⟨.newBlock, payload⟩ →
      Block.fromJson S.cfg.crypto payload = .ok block →
      (e.pre.blockchain.acceptBlock S.cfg env.now block).ret = true →
      (e.post.blockchain.chain = e.pre.blockchain.chain ++ [block] ↔
        e.pre.seenBlockHashes.contains block.hash = false))

/-- **What earlier messages can suppress.** Along every run of a new node, a
transaction or a block from a peer that is neither banned nor over its limit,
which repeats no message and which the ledger would take, joins the mempool or
the chain if and only if its identifier is not in the set of those that were
seen, whatever came with that identifier before. -/
theorem gossip_suppression_iff (S : NodeSetup) (bootstrapNodes : List String)
    (blockchain : Blockchain) (storage : Option DataDir)
    (tr : List (Entry Node NodeEvent Unit)) (node : Node)
    (h : NodeRun S (Node.create S bootstrapNodes blockchain storage) tr node) :
    ∀ e ∈ tr, TakenIffUnseen S e := by
  intro e he env p payload
  obtain ⟨hstep, hlimited⟩ := h.entry_of (I := Node.Limited S) (C := fun _ _ => True) ⟨rfl, rfl⟩
    (fun _ _ _ _ hI _ hs => nodeStep_limited hs hI) (fun _ _ => trivial) e he
  refine ⟨fun tx hcall => ?_, fun block hcall => ?_⟩
  · rw [hcall] at hstep
    exact newTransaction_admitted_iff hstep hlimited
  · rw [hcall] at hstep
    exact newBlock_appended_iff hstep hlimited

/-! ## A forged transaction comes first -/

section Sample

/-- The identifier and the signature of another transaction. -/
def forgedTransfer : Transaction := { sampleTransfer with amount := 30 }

/-- A setup that knows the digests of the transactions. -/
def suppressionSetup : NodeSetup :=
  { setupOf [] with
    cfg := {
      crypto := .ofTable (sampleDigests ++ [
          (sampleDump forgedTransfer.toJson,
            "19a429d2d22f260e6a4c34bc7cd0bba4695d829e1b2f5c927eb14bbf8910a47f"),
          (sampleDump sampleTransfer.toJson,
            "447372905053f8e5081754609989a5b18747a95aadd477aa5e5d4cce2454557b")])
        [(sampleTransfer.txID, sampleTransfer.digitalSignature, samplePublicKey)]
      consensusEngine := none } }

/-- The sample node. -/
def suppressionNode : Node := Node.create suppressionSetup [] sampleStart none

/-- The payer mines a block, a peer connects and sends the forged transaction. -/
def forgedFirst : List NodeEvent :=
  [.mine (sampleEnv 0) sampleMiner,
    .input (sampleEnv 5) (.accepted (some ("10.0.0.2", 50000))),
    .input (sampleEnv 10) (.message 0 ⟨.newTransaction, forgedTransfer.toJson⟩)]

end Sample

/-- The genuine transaction is dropped then, though the ledger would take it. -/
theorem gossip_suppression_counterexample :
    ∃ tr node, NodeRun suppressionSetup suppressionNode tr node ∧
      (∀ e ∈ tr, e.post.blockchain.mempool = []) ∧
      node.Admits suppressionSetup (sampleEnv 11) 0 ⟨.newTransaction, sampleTransfer.toJson⟩ ∧
      Transaction.fromJson suppressionSetup.cfg.crypto sampleTransfer.toJson = .ok sampleTransfer ∧
      (node.blockchain.addTransaction suppressionSetup.cfg (sampleTime 11) sampleTransfer).ret =
        true ∧
      (handleMessage suppressionSetup (sampleEnv 11) 0
        ⟨.newTransaction, sampleTransfer.toJson⟩ [] node).2.blockchain.mempool = [] := by
  obtain ⟨tr, node, hrun, hcheck⟩ := Run.exists_of_exec (nodeStep suppressionSetup) forgedFirst
    suppressionNode
    (fun r => decide ((∀ e ∈ r.1, e.post.blockchain.mempool = []) ∧
      r.2.Admits suppressionSetup (sampleEnv 11) 0 ⟨.newTransaction, sampleTransfer.toJson⟩ ∧
      (r.2.blockchain.addTransaction suppressionSetup.cfg (sampleTime 11) sampleTransfer).ret =
        true ∧
      (handleMessage suppressionSetup (sampleEnv 11) 0
        ⟨.newTransaction, sampleTransfer.toJson⟩ [] r.2).2.blockchain.mempool = []))
    (by decide +kernel)
  obtain ⟨hmempool, hadmits, hledger, hdropped⟩ := of_decide_eq_true hcheck
  exact ⟨tr, node, hrun, hmempool, hadmits, by decide +kernel, hledger, hdropped⟩

/-- The genuine transaction alone. -/
theorem gossip_suppression_genuine_first :
    ∃ tr node, NodeRun suppressionSetup suppressionNode tr node ∧
      node.blockchain.mempool = [sampleTransfer] ∧ ∀ e ∈ tr, TakenIffUnseen suppressionSetup e := by
  obtain ⟨tr, node, hrun, hcheck⟩ := Run.exists_of_exec (nodeStep suppressionSetup)
    [.mine (sampleEnv 0) sampleMiner,
      .input (sampleEnv 5) (.accepted (some ("10.0.0.2", 50000))),
      .input (sampleEnv 10) (.message 0 ⟨.newTransaction, sampleTransfer.toJson⟩)]
    suppressionNode (fun r => decide (r.2.blockchain.mempool = [sampleTransfer]))
    (by decide +kernel)
  exact ⟨tr, node, hrun, of_decide_eq_true hcheck,
    gossip_suppression_iff suppressionSetup [] sampleStart none tr node hrun⟩

end PersonalBlockchain
