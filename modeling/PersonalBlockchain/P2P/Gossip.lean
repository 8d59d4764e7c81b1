import PersonalBlockchain.P2P.Runs

/-!
# Personal blockchain — how transactions and blocks are passed on

What the handlers of `NEW_TRANSACTION` and `NEW_BLOCK` do, case by case: the
item was seen before, the ledger refuses it, or the ledger takes it and it is
passed on. `GossipKind` is for what the two have in common.

Routines are run here once and for all: `f_run` says what a routine returns and
what it makes of the node, so that the modules that follow speak of nodes and not
of the mutexes that are taken on the way. `Node.Admits` is the gate in front of the
handlers (ban, rate limit, repetition), and `handleMessage_returned` and
`handleMessage_dropped` are its two sides.
-/

namespace PersonalBlockchain

open Std Locking Routine NodeM Machine

/-- The two kinds of items that are gossiped. -/
inductive GossipKind
  | transaction
  | block
  deriving DecidableEq

/-- How many identifiers are remembered. -/
def GossipKind.limit : GossipKind → Nat
  | transaction => 10000
  | block => 1000

namespace Node

/-- The identifiers that are remembered. -/
def seen : GossipKind → Node → ExtTreeSet String
  | .transaction, node => node.seenTxIDs
  | .block, node => node.seenBlockHashes

/-- One more identifier is remembered. -/
def see (kind : GossipKind) (id : String) (node : Node) : Node :=
  match kind with
  | .transaction => { node with seenTxIDs := insertSeen 10000 id node.seenTxIDs }
  | .block => { node with seenBlockHashes := insertSeen 1000 id node.seenBlockHashes }

/-- `refreshMetrics`. -/
def refreshed (node : Node) : Node := (refreshMetrics [] node).2

/-- `rewardPeerByEndpoint`. -/
def rewarded (key : String) (amount : Int) (node : Node) : Node :=
  { node with peerScorer := node.peerScorer.rewardPeer key amount }.refreshed

/-- `penalizePeerByEndpoint`. -/
def penalized (S : NodeSetup) (env : Env) (key : String) (penalty : Int) (node : Node) : Node :=
  (penalizePeerByEndpoint S env key penalty [] node).2

/-- `broadcastTransaction`. -/
def announcedTx (tx : Transaction) (node : Node) : Node :=
  if node.seenTxIDs.contains tx.txID then node
  else (node.see .transaction tx.txID).broadcasted
    { type := .newTransaction, payload := tx.toJson } none

/-- `broadcastBlock`. -/
def announcedBlock (block : Block) (node : Node) : Node :=
  if node.seenBlockHashes.contains block.hash then node
  else (node.see .block block.hash).broadcasted
    { type := .newBlock, payload := block.toJson } none

end Node

variable {S : NodeSetup} {env : Env} {node node' : Node} {p : PeerId} {key : String}
  {held : List Mutex}

/-! ## The parts of the handlers -/

/-- The reward is given, and the counters are refreshed. -/
theorem rewardPeerByEndpoint_run {amount : Int} :
    rewardPeerByEndpoint key amount [] node = (.returned (), node.rewarded key amount) := rfl

/-- The penalty is given and, where it bans, a connection is closed. -/
theorem penalizePeerByEndpoint_run {penalty : Int} :
    penalizePeerByEndpoint S env key penalty [] node =
      (.returned (), node.penalized S env key penalty) := by
  have hreturns : Returns (penalizePeerByEndpoint S env key penalty) [] node :=
    returns_of_obeys (penalizePeerByEndpoint_obeys (Nat.zero_le _))
  obtain ⟨u, hu⟩ := hreturns
  exact Prod.ext hu rfl

/-- It answers whether the identifier was there, and if not puts it there:
looking up and entering are one. -/
theorem alreadySeenTx_run {txID : String} (hheld : Mutex.seen ∉ held) :
    alreadySeenTx txID held node =
      if node.seenTxIDs.contains txID then (.returned true, node)
      else (.returned false, node.see .transaction txID) := by
  rw [alreadySeenTx, withLock_run hheld, act]
  split
  · rfl
  · rfl

theorem alreadySeenBlock_run {hash : String} (hheld : Mutex.seen ∉ held) :
    alreadySeenBlock hash held node =
      if node.seenBlockHashes.contains hash then (.returned true, node)
      else (.returned false, node.see .block hash) := by
  rw [alreadySeenBlock, withLock_run hheld, act]
  split
  · rfl
  · rfl

/-- A transaction goes out unless its identifier has been seen. -/
theorem broadcastTransaction_run {tx : Transaction} (hheld : ∀ m ∈ held, m.rank < 1) :
    broadcastTransaction tx held node = (.returned (), node.announcedTx tx) := by
  have hseen : Mutex.seen ∉ held := fun hm => Nat.lt_irrefl 1 (hheld _ hm)
  have hrun : alreadySeenTx tx.txID held node = _ := alreadySeenTx_run hseen
  rw [broadcastTransaction, Node.announcedTx]
  split
  next hold =>
    rw [if_pos hold] at hrun
    exact bind_run hrun
  next hnew =>
    rw [if_neg hnew] at hrun
    rw [bind_run hrun]
    exact broadcast_run fun m hm => Nat.lt_succ_of_lt (hheld m hm)

theorem broadcastBlock_run {block : Block} (hheld : ∀ m ∈ held, m.rank < 1) :
    broadcastBlock block held node = (.returned (), node.announcedBlock block) := by
  have hseen : Mutex.seen ∉ held := fun hm => Nat.lt_irrefl 1 (hheld _ hm)
  have hrun : alreadySeenBlock block.hash held node = _ := alreadySeenBlock_run hseen
  rw [broadcastBlock, Node.announcedBlock]
  split
  next hold =>
    rw [if_pos hold] at hrun
    exact bind_run hrun
  next hnew =>
    rw [if_neg hnew] at hrun
    rw [bind_run hrun]
    exact broadcast_run fun m hm => Nat.lt_succ_of_lt (hheld m hm)

/-! ## Calling the ledger -/

/-- The ledger has changed when its effects run. -/
theorem callLedger_run {α : Type} {f : Blockchain → Outcome α} :
    callLedger S f [] node = (do
      forEach (runEffect S) (f node.blockchain).effects
      return (f node.blockchain).ret) [.blockchain]
        { node with blockchain := (f node.blockchain).node } := rfl

/-- What the ledger refuses leaves no trace. -/
theorem callLedger_rejected {f : Blockchain → Outcome Bool}
    (h : f node.blockchain = node.blockchain.rejected) :
    callLedger S f [] node = (.returned false, node) := by
  rw [callLedger_run, h]
  rfl

/-- A transaction that is queued calls `broadcastTransaction`. -/
theorem callLedger_queued {tx : Transaction}
    (h : node.blockchain.addTransaction S.cfg env.now tx =
      ⟨true, [.onTransactionAdded tx], node.blockchain.enqueue tx⟩) :
    callLedger S (fun bc => bc.addTransaction S.cfg env.now tx) [] node =
      (.returned true,
        { node with blockchain := node.blockchain.enqueue tx }.announcedTx tx) := by
  have hcallback : runEffect S (.onTransactionAdded tx) [.blockchain]
      { node with blockchain := node.blockchain.enqueue tx } =
      (.returned (), { node with blockchain := node.blockchain.enqueue tx }.announcedTx tx) :=
    broadcastTransaction_run (by simp [Mutex.rank])
  have heffects : forEach (runEffect S) [.onTransactionAdded tx] [.blockchain]
      { node with blockchain := node.blockchain.enqueue tx } =
      (.returned (), { node with blockchain := node.blockchain.enqueue tx }.announcedTx tx) :=
    bind_run hcallback
  rw [callLedger_run, h]
  exact bind_run heffects

/-- Whatever the effects are, the ledger stays as it was left: no callback calls
it. -/
theorem callLedger_blockchain (env : Env) {α : Type} {f : Blockchain → Outcome α}
    (hlimited : node.Limited S) :
    (callLedger S f [] node).2.blockchain = (f node.blockchain).node ∧
      (callLedger S f [] node).2.Limited S := by
  -- the callbacks run after the ledger's own step and leave it as it is
  have heffects : Touches S env {c | c ≠ .ledger} [.blockchain] (do
      forEach (runEffect S) (f node.blockchain).effects
      return (f node.blockchain).ret) := by
    refine .bind (.forEach fun effect _ => ?_) fun _ => .pure _
    cases effect with
    | onBlockAdded block => exact broadcastBlock_touches (by simp) (by simp) (by simp [Mutex.rank])
    | onTransactionAdded tx =>
      exact broadcastTransaction_touches (by simp) (by simp) (by simp [Mutex.rank])
    | _ => exact runEffect_touches (by simp) (by simp) (by simp)
  have hsteps := heffects { node with blockchain := (f node.blockchain).node }
  rw [callLedger_run]
  exact keeps_of_changes (I := fun last => last.blockchain = (f node.blockchain).node) hsteps
    hlimited (fun c hc _ _ hleads hb => (hleads.frame.blockchain hc).trans hb) rfl

/-! ## What the parts leave alone -/

theorem broadcasted_blockchain {msg : Message} {exclude : Option PeerId} :
    (node.broadcasted msg exclude).blockchain = node.blockchain := by
  obtain ⟨connection, heq, -⟩ := broadcasted_eq msg exclude node
  rw [heq]

theorem announcedTx_blockchain {tx : Transaction} :
    (node.announcedTx tx).blockchain = node.blockchain := by
  unfold Node.announcedTx
  split
  · rfl
  · exact broadcasted_blockchain

/-- A penalty changes scores, and connections when it ends in a ban. -/
theorem penalized_frame {penalty : Int} (hlimited : node.Limited S)
    (hpenalty : penalty ≤ 0 := by decide) :
    (NodeChange.penalize key).Frame node (node.penalized S env key penalty) := by
  have htouches : Touches S env {.quiet, .penalize key, .shut key} []
      (penalizePeerByEndpoint S env key penalty) :=
    penalizePeerByEndpoint_touches (.inl rfl) (.inr (.inl rfl)) (.inr (.inr rfl)) hpenalty
  refine (keeps_of_changes (I := fun last => (NodeChange.penalize key).Frame node last)
    (htouches node) hlimited (fun c hc s s' hleads hI => ?_)
    ⟨fun _ => rfl, fun _ => rfl, fun _ => rfl, fun _ => rfl, fun _ => rfl⟩).1
  have hframe := hleads.frame
  -- the three changes leave the ledger, the seen identifiers and the log alone
  obtain rfl | rfl | rfl := hc
  all_goals
    exact ⟨fun _ => (hframe.blockchain nofun).trans (hI.blockchain nofun),
      fun _ => (hframe.messageDedup nofun).trans (hI.messageDedup nofun),
      fun _ => (hframe.seenTxIDs nofun).trans (hI.seenTxIDs nofun),
      fun _ => (hframe.seenBlockHashes nofun).trans (hI.seenBlockHashes nofun),
      fun _ => (hframe.broadcasts nofun).trans (hI.broadcasts nofun)⟩

/-! ## A message that is not dropped -/

/-- The message passes what is checked before its payload is read. -/
structure Node.Admits (S : NodeSetup) (env : Env) (p : PeerId) (msg : Message) (node : Node) :
    Prop where
  unbanned : node.senderBanned p = false
  unlimited : node.senderLimited env p = false
  unrepeated : ¬ node.repeated S env msg

instance {msg : Message} : Decidable (node.repeated S env msg) :=
  inferInstanceAs (Decidable (_ ∧ _ ∧ _))

instance {msg : Message} : Decidable (node.Admits S env p msg) :=
  decidable_of_iff (node.senderBanned p = false ∧ node.senderLimited env p = false ∧
    ¬ node.repeated S env msg) ⟨fun h => ⟨h.1, h.2.1, h.2.2⟩, fun h => ⟨h.1, h.2, h.3⟩⟩

/-- The messages that are remembered after this one. -/
def Node.remembered (S : NodeSetup) (env : Env) (msg : Message) (node : Node) :
    ExtTreeMap String Instant :=
  if msg.type = .ping ∨ msg.type = .pong then node.messageDedup
  else (node.messageDedup.insert (dedupKey S msg) env.steady).filter
    fun _ last => inSeconds (env.steady - last) ≤ S.options.timeouts.dedupWindowSec

/-- The node when the `switch` is reached. -/
def Node.received (S : NodeSetup) (env : Env) (p : PeerId) (msg : Message) (node : Node) : Node :=
  { node.counted env p with
    messageDedup := node.remembered S env msg
    peerScorer := node.peerScorer.markSeen env.steady (node.connection p).getEndpoint }

theorem isDuplicate_run {msg : Message} (h : ¬ node.repeated S env msg) :
    isDuplicate S env msg [] node =
      (.returned false, { node with messageDedup := node.remembered S env msg }) := by
  rw [isDuplicate, Node.remembered]
  split
  · rfl
  next hother =>
    have hwindow : ¬ inDedupWindow S env msg node = true := fun hwindow =>
      h ⟨(not_or.mp hother).1, (not_or.mp hother).2, hwindow⟩
    rw [withLock_run List.not_mem_nil, act, if_neg hwindow]

/-- **Behind the gate**: a message that is admitted goes through the `switch`. -/
theorem handleMessage_admitted {msg : Message} (h : node.Admits S env p msg) :
    handleMessage S env p msg [] node =
      (do
        dispatch S env p (node.connection p).getEndpoint msg
        refreshMetrics) [] (node.received S env p msg) := by
  have hduplicate : isDuplicate S env msg [] (node.counted env p) = (.returned false,
      { node.counted env p with messageDedup := node.remembered S env msg }) := isDuplicate_run h.3
  rw [handleMessage_checks, if_neg (by simp [h.unbanned]), if_neg (by simp [h.unlimited]),
    handleAdmitted, bind_run hduplicate, if_neg Bool.false_ne_true, bind_run rfl]
  rfl

/-- The handler does not come back from a message of a banned sender. -/
theorem unbanned_of_returned {msg : Message}
    (h : handleMessage S env p msg [] node = (.returned (), node')) :
    node.senderBanned p = false := by
  by_contra hbanned
  obtain ⟨last, hdeadlock⟩ := removePeer_deadlocks
  rw [handleMessage_checks, if_pos (Bool.eq_true_of_not_eq_false hbanned), hdeadlock] at h
  cases h

/-- A message that is admitted and handled has gone through the `switch`. -/
theorem handleMessage_returned {msg : Message} (h : node.Admits S env p msg)
    (hreturned : handleMessage S env p msg [] node = (.returned (), node')) :
    ∃ mid, dispatch S env p (node.connection p).getEndpoint msg [] (node.received S env p msg) =
      (.returned (), mid) ∧ node' = mid.refreshed := by
  rw [handleMessage_admitted h] at hreturned
  obtain ⟨_, mid, hdispatch, hrefresh⟩ := bind_returned hreturned
  exact ⟨mid, hdispatch, (congrArg Prod.snd hrefresh).symm⟩

/-- A message that is handled and dropped goes beyond the limit of its sender or
repeats what came before. -/
theorem handleMessage_dropped {msg : Message} (h : ¬ node.Admits S env p msg)
    (hreturned : handleMessage S env p msg [] node = (.returned (), node')) :
    (node.senderLimited env p = true ∧ node' = (node.counted env p).penalized S env
        (node.connection p).getEndpoint PeerScorer.penaltyInvalidTx) ∨
    node.repeated S env msg ∧ node' = node.counted env p := by
  have hunbanned := unbanned_of_returned hreturned
  rw [handleMessage_checks, if_neg (by simp [hunbanned])] at hreturned
  split_ifs at hreturned with hlimit
  · rw [penalizePeerByEndpoint_run] at hreturned
    exact .inl ⟨hlimit, (congrArg Prod.snd hreturned).symm⟩
  · have hrepeated : (node.counted env p).repeated S env msg := by
      by_contra hnew
      exact h ⟨hunbanned, by simpa using hlimit, hnew⟩
    rw [handleAdmitted, bind_run (isDuplicate_of_repeated hrepeated)] at hreturned
    exact .inr ⟨hrepeated, (congrArg Prod.snd hreturned).symm⟩

/-! ## `NEW_TRANSACTION` -/

section NewTransaction

variable {payload : Json} {tx : Transaction}

/-- What cannot be read costs its sender the penalty for a transaction. -/
theorem onNewTransaction_undecoded {e : JsonError}
    (h : Transaction.fromJson S.cfg.crypto payload = .error e) :
    onNewTransaction S env p key payload [] node =
      (.returned (), node.penalized S env key PeerScorer.penaltyInvalidTx) := by
  rw [onNewTransaction, h, attempt_run_threw (bind_run_threw rfl)]
  exact penalizePeerByEndpoint_run

theorem onNewTransaction_old (h : Transaction.fromJson S.cfg.crypto payload = .ok tx)
    (hold : node.seenTxIDs.contains tx.txID = true) :
    onNewTransaction S env p key payload [] node = (.returned (), node) := by
  have hseen : alreadySeenTx tx.txID [] node = _ := alreadySeenTx_run List.not_mem_nil
  rw [if_pos hold] at hseen
  rw [onNewTransaction, h]
  refine attempt_run ((bind_run rfl).trans ?_)
  rw [bind_run hseen]
  rfl

/-- What the ledger refuses is remembered as seen, and costs its sender the
penalty. -/
theorem onNewTransaction_rejected (h : Transaction.fromJson S.cfg.crypto payload = .ok tx)
    (hnew : node.seenTxIDs.contains tx.txID = false)
    (hrejected : node.blockchain.addTransaction S.cfg env.now tx = node.blockchain.rejected) :
    onNewTransaction S env p key payload [] node =
      (.returned (), (node.see .transaction tx.txID).penalized S env key
        PeerScorer.penaltyInvalidTx) := by
  have hseen : alreadySeenTx tx.txID [] node = _ := alreadySeenTx_run List.not_mem_nil
  rw [if_neg (Bool.eq_false_iff.mp hnew)] at hseen
  have hledger : callLedger S (fun bc => bc.addTransaction S.cfg env.now tx) []
      (node.see .transaction tx.txID) = (.returned false, node.see .transaction tx.txID) :=
    callLedger_rejected hrejected
  rw [onNewTransaction, h]
  refine attempt_run ((bind_run rfl).trans ?_)
  rw [bind_run hseen, if_pos (show (!false) = true from rfl), bind_run hledger,
    if_neg Bool.false_ne_true]
  exact penalizePeerByEndpoint_run

/-- What is queued is passed on by the handler, and by the callback of the
ledger if the identifier is forgotten already. -/
theorem onNewTransaction_queued (h : Transaction.fromJson S.cfg.crypto payload = .ok tx)
    (hnew : node.seenTxIDs.contains tx.txID = false)
    (hqueued : node.blockchain.addTransaction S.cfg env.now tx =
      ⟨true, [.onTransactionAdded tx], node.blockchain.enqueue tx⟩) :
    onNewTransaction S env p key payload [] node =
      (.returned (),
        (({ node.see .transaction tx.txID with
          blockchain := node.blockchain.enqueue tx }.announcedTx tx).rewarded key
            PeerScorer.rewardValidTx).broadcasted
          { type := .newTransaction, payload := payload } (some p)) := by
  have hseen : alreadySeenTx tx.txID [] node = _ := alreadySeenTx_run List.not_mem_nil
  rw [if_neg (Bool.eq_false_iff.mp hnew)] at hseen
  have hledger : callLedger S (fun bc => bc.addTransaction S.cfg env.now tx) []
      (node.see .transaction tx.txID) = (.returned true, { node.see .transaction tx.txID with
        blockchain := node.blockchain.enqueue tx }.announcedTx tx) := callLedger_queued hqueued
  rw [onNewTransaction, h]
  refine attempt_run ((bind_run rfl).trans ?_)
  rw [bind_run hseen, if_pos (show (!false) = true from rfl), bind_run hledger, if_pos rfl,
    bind_run rewardPeerByEndpoint_run]
  exact broadcast_run (by simp)

/-- The ledger after a transaction from the network. -/
theorem onNewTransaction_blockchain (h : Transaction.fromJson S.cfg.crypto payload = .ok tx)
    (hlimited : node.Limited S) :
    (onNewTransaction S env p key payload [] node).2.blockchain =
      if node.seenTxIDs.contains tx.txID then node.blockchain
      else (node.blockchain.addTransaction S.cfg env.now tx).node := by
  split
  next hold => rw [onNewTransaction_old h hold]
  next hnew =>
    have hnew' := Bool.eq_false_of_not_eq_true hnew
    rcases Blockchain.addTransaction_cases S.cfg env.now tx node.blockchain with
      hrejected | ⟨-, hqueued⟩
    -- a fine does not reach the ledger
    · rw [onNewTransaction_rejected h hnew' hrejected, hrejected]
      have hframe : (NodeChange.penalize key).Frame (node.see .transaction tx.txID)
          ((node.see .transaction tx.txID).penalized S env key PeerScorer.penaltyInvalidTx) :=
        penalized_frame hlimited
      exact hframe.blockchain nofun
    · rw [onNewTransaction_queued h hnew' hqueued, hqueued, broadcasted_blockchain]
      exact announcedTx_blockchain

end NewTransaction

/-! ## `NEW_BLOCK` -/

section NewBlock

variable {payload : Json} {block : Block}

/-- What cannot be read costs its sender the penalty for a block. -/
theorem onNewBlock_undecoded {e : JsonError}
    (h : Block.fromJson S.cfg.crypto payload = .error e) :
    onNewBlock S env p key payload [] node =
      (.returned (), node.penalized S env key PeerScorer.penaltyInvalidBlock) := by
  rw [onNewBlock, h, attempt_run_threw (bind_run_threw rfl)]
  exact penalizePeerByEndpoint_run

theorem onNewBlock_old (h : Block.fromJson S.cfg.crypto payload = .ok block)
    (hold : node.seenBlockHashes.contains block.hash = true) :
    onNewBlock S env p key payload [] node = (.returned (), node) := by
  have hseen : alreadySeenBlock block.hash [] node = _ := alreadySeenBlock_run List.not_mem_nil
  rw [if_pos hold] at hseen
  rw [onNewBlock, h]
  refine attempt_run ((bind_run rfl).trans ?_)
  rw [bind_run hseen]
  rfl

/-- A new block is offered to the ledger. -/
theorem onNewBlock_new (h : Block.fromJson S.cfg.crypto payload = .ok block)
    (hnew : node.seenBlockHashes.contains block.hash = false) :
    onNewBlock S env p key payload [] node =
      attempt
        (do
          let accepted ← offerBlock S env p block
          if accepted then do
            rewardPeerByEndpoint key PeerScorer.rewardValidBlock
            broadcast { type := .newBlock, payload := payload } (some p))
        (penalizePeerByEndpoint S env key PeerScorer.penaltyInvalidBlock) []
        (node.see .block block.hash) := by
  have hseen : alreadySeenBlock block.hash [] node = _ := alreadySeenBlock_run List.not_mem_nil
  rw [if_neg (Bool.eq_false_iff.mp hnew)] at hseen
  rw [onNewBlock, h, attempt, bind_run rfl, bind_run hseen,
    if_pos (show (!false) = true from rfl)]
  rfl

theorem tip_hash (bc : Blockchain) : (bc.chain.getLast?.map Block.hash).getD "" = bc.tip.hash := by
  rw [List.getLast?_eq_some_getLast bc.chain_ne]
  rfl

/-- A block that extends the chain. -/
def Node.extendedBy (block : Block) (node : Node) : Prop :=
  block.index = UInt64.ofNat node.blockchain.chain.length ∧
    block.previousHash = node.blockchain.tip.hash

/-- A block that extends the chain is handed to the ledger. -/
theorem offerBlock_run (hextends : node.extendedBy block) :
    offerBlock S env p block [] node =
      callLedger S (fun bc => bc.acceptBlock S.cfg env.now block) [] node := by
  rw [offerBlock, bind_run (t := node) (a := node.blockchain.chain) rfl, tip_hash]
  exact congrFun (congrFun (if_pos hextends) []) node

/-- A block that extends the chain and is refused leaves no trace but its hash. -/
theorem onNewBlock_rejected (h : Block.fromJson S.cfg.crypto payload = .ok block)
    (hnew : node.seenBlockHashes.contains block.hash = false) (hextends : node.extendedBy block)
    (hrejected : node.blockchain.acceptBlock S.cfg env.now block = node.blockchain.rejected) :
    onNewBlock S env p key payload [] node = (.returned (), node.see .block block.hash) := by
  have hledger : callLedger S (fun bc => bc.acceptBlock S.cfg env.now block) []
      (node.see .block block.hash) = (.returned false, node.see .block block.hash) :=
    callLedger_rejected hrejected
  rw [onNewBlock_new h hnew]
  have hextends' : (node.see .block block.hash).extendedBy block := hextends
  refine attempt_run ((bind_run ((offerBlock_run hextends').trans hledger)).trans ?_)
  rw [if_neg Bool.false_ne_true]
  rfl

/-- What becomes of a new block, once it was offered to the ledger. -/
theorem onNewBlock_cases (env : Env) (p : PeerId) (key : String)
    (h : Block.fromJson S.cfg.crypto payload = .ok block)
    (hnew : node.seenBlockHashes.contains block.hash = false) :
    ∃ mid, Relation.ReflTransGen (OneOf S env.steady {.quiet, .ledger, .send})
        (node.see .block block.hash) mid ∧
      ((onNewBlock S env p key payload [] node).2 = mid ∨
        (onNewBlock S env p key payload [] node).2 =
          mid.penalized S env key PeerScorer.penaltyInvalidBlock ∨
        (onNewBlock S env p key payload [] node).2 =
          (mid.rewarded key PeerScorer.rewardValidBlock).broadcasted
            { type := .newBlock, payload := payload } (some p)) := by
  have htouches : Touches S env {.quiet, .ledger, .send} [] (offerBlock S env p block) :=
    offerBlock_touches (.inl rfl) (.inr (.inl rfl)) (.inr (.inr rfl))
  have hsteps := htouches (node.see .block block.hash)
  rw [onNewBlock_new h hnew]
  rcases hrun : offerBlock S env p block [] (node.see .block block.hash) with ⟨ending, mid⟩
  rw [hrun] at hsteps
  refine ⟨mid, hsteps, ?_⟩
  -- taken or not, rejected by an exception, or stuck
  cases ending with
  | returned accepted =>
    cases accepted with
    | false => exact .inl (congrArg Prod.snd (attempt_run ((bind_run hrun).trans rfl)))
    | true =>
      have hforward : (do
          rewardPeerByEndpoint key PeerScorer.rewardValidBlock
          broadcast { type := .newBlock, payload := payload } (some p)) [] mid = _ :=
        (bind_run rewardPeerByEndpoint_run).trans (broadcast_run (by simp))
      exact .inr (.inr (congrArg Prod.snd (attempt_run ((bind_run hrun).trans hforward))))
  | threw e =>
    exact .inr (.inl (congrArg Prod.snd (attempt_run_threw (bind_run_threw hrun))))
  | selfDeadlock m =>
    refine .inl ?_
    rw [attempt, bind_run_selfDeadlock hrun]

/-- The ledger after a block from the network that it takes. -/
theorem onNewBlock_blockchain (h : Block.fromJson S.cfg.crypto payload = .ok block)
    (haccepts : Blockchain.Accepts S.cfg env.now block node.blockchain)
    (hlimited : node.Limited S) :
    (onNewBlock S env p key payload [] node).2.blockchain =
      if node.seenBlockHashes.contains block.hash then node.blockchain
      else node.blockchain.receive block := by
  split
  next hold => rw [onNewBlock_old h hold]
  next hnew =>
    have hpenalize : Touches S env {c | c ≠ .ledger} []
        (penalizePeerByEndpoint S env key PeerScorer.penaltyInvalidBlock) :=
      penalizePeerByEndpoint_touches (by simp) (by simp) (by simp)
    have hkeeps : ∀ s s', OneOf S env.steady {c | c ≠ .ledger} s s' →
        (s.blockchain = node.blockchain.receive block ∧ s.Limited S) →
        s'.blockchain = node.blockchain.receive block ∧ s'.Limited S := by
      intro s s' hstep ⟨hb, hs⟩
      obtain ⟨c, hc, hleads⟩ := hstep hs
      exact ⟨(hleads.frame.blockchain hc).trans hb, hleads.limited hs⟩
    rw [onNewBlock_new h (Bool.eq_false_of_not_eq_true hnew)]
    -- what comes after the call of the ledger does not call it again
    refine (Within.attempt_after hkeeps (Within.bind_after hkeeps ?_ fun accepted => ?_)
      hpenalize).1
    · have hsee : (node.see .block block.hash).Limited S := hlimited
      have hextends : (node.see .block block.hash).extendedBy block :=
        ⟨haccepts.index, haccepts.previousHash⟩
      have hledger := callLedger_blockchain env
        (f := fun bc => bc.acceptBlock S.cfg env.now block) hsee
      rw [offerBlock_run hextends]
      rwa [show (node.see .block block.hash).blockchain = node.blockchain from rfl,
        Blockchain.acceptBlock_of haccepts] at hledger
    · exact .ite (.bind (rewardPeerByEndpoint_touches (by simp) (by simp)) fun _ =>
        broadcast_touches (by simp) (by simp)) (.pure _)

end NewBlock

end PersonalBlockchain
