import PersonalBlockchain.P2P.Frames

/-!
# Personal blockchain — what an event does to the ledger and tells others

A handler runs operations of the ledger, and queues messages. Most of those
carry neither transactions nor blocks. For what the others carry there are
`NodeEvent.tells` and `NodeEvent.ops`: they are read off the event, and off the
ledger at the time of the call.

There is one lemma for each function: `f_speaks` where it leaves the ledger alone,
`f_calls` where it may call it.

* `nodeStep_calls` — an event does nothing else than `ops` and `tells` say, and calls
  the ledger once at most; what is proved of whole networks rests on it.
-/

namespace PersonalBlockchain

open Std Locking Routine NodeM Machine

/-- A message with transactions or blocks in it. -/
def Message.hasCargo (msg : Message) : Bool :=
  msg.type = .newTransaction || msg.type = .newBlock || msg.type = .responseChain

/-- The ledger stays as it is, and of what has a cargo the queues get nothing
but what `tells` allows with this ledger. Queues may also lose messages: what
has been written has left them. -/
structure Utters (tells : Blockchain → Set Message) (node node' : Node) : Prop where
  blockchain : node'.blockchain = node.blockchain
  queues : ∀ p, ∀ msg ∈ (node'.connection p).writeQueue, msg.hasCargo = true →
    msg ∈ (node.connection p).writeQueue ∨ msg ∈ tells node.blockchain

/-- The ledger completes one of these operations, and nothing is said. -/
def Operates (S : NodeSetup) (now : TimePoint) (ops : Set Op) (node node' : Node) : Prop :=
  (∃ op ∈ ops, ∃ r, step S.cfg ⟨now, op⟩ node.blockchain = some (r, node'.blockchain)) ∧
    node'.connection = node.connection

/-- A routine that leaves the ledger alone. -/
abbrev Speaks {α : Type} (tells : Blockchain → Set Message) (held : List Mutex) (x : NodeM α) :
    Prop :=
  Within (Utters tells) held x

/-- A routine that calls the ledger once at most. -/
abbrev Calls {α : Type} (S : NodeSetup) (env : Env) (ops : Set Op)
    (tells : Blockchain → Set Message) (held : List Mutex) (x : NodeM α) : Prop :=
  AtMostOnce (Utters tells) (Operates S env.now ops) held x

instance {tells : Blockchain → Set Message} : Plain (Utters tells) :=
  ⟨fun h => ⟨h.blockchain, fun p _ hmsg _ => .inl (h.queues p hmsg)⟩⟩

namespace NodeM

variable {S : NodeSetup} {env : Env} {tells : Blockchain → Set Message}
  {held : List Mutex} {p : PeerId}

/-! ## What is said -/

/-- Nothing is said where the connections stay as they are. -/
theorem utters_of_eq {node node' : Node} (hb : node'.blockchain = node.blockchain)
    (hc : node'.connection = node.connection) : Utters tells node node' :=
  ⟨hb, fun _ _ hmsg _ => .inl (hc ▸ hmsg)⟩

/-- A message may be sent when `tells` allows it or it has no cargo. -/
theorem says_utters {msg : Message} (h : ∀ bc, msg.hasCargo = true → msg ∈ tells bc) :
    Says (Utters tells) msg := by
  refine fun node p => ⟨rfl, fun q msg' hmsg hcargo => ?_⟩
  dsimp only [Node.updatePeer] at hmsg
  split at hmsg
  · rcases mem_send hmsg with hmsg | rfl
    · exact .inl hmsg
    · exact .inr (h node.blockchain hcargo)
  · exact .inl hmsg

/-- Most messages have nothing in them that `tells` would have to allow. -/
theorem says_plain {msg : Message} (h : msg.hasCargo = false) : Says (Utters tells) msg :=
  says_utters fun _ hcargo => absurd hcargo (Bool.eq_false_iff.mp h)

/-- Whom a node dials is nothing it says. -/
theorem dials_utters {dial : Dial} : Dials (Utters tells) dial :=
  fun _ => utters_of_eq rfl rfl

/-! ## Endpoints -/

theorem change_speaks {f : Node → Node}
    (h : ∀ node, (f node).blockchain = node.blockchain ∧ (f node).connection = node.connection) :
    Speaks tells held (change f) := .act fun node => utters_of_eq (h node).1 (h node).2

theorem addKnownPeer_speaks {endpoint : String} :
    Speaks tells held (tellPeerManager (PeerManager.addKnownPeer endpoint)) :=
  .withLock (change_speaks fun _ => ⟨rfl, rfl⟩)

theorem registerPeer_speaks {endpoint : String} :
    Speaks tells held (tellBootstrap (BootstrapManager.registerPeer endpoint)) :=
  .withLock (change_speaks fun _ => ⟨rfl, rfl⟩)

/-- A new connection is greeted with an announcement, which has no cargo. -/
theorem accepted_speaks {remote : Option (String × UInt16)} :
    Speaks tells held (accepted S remote) := by
  refine .bind ask_plain fun _ => .guarded dropLowestScore_plain fun _ => ?_
  refine .bind ask_plain fun _ => .ite (change_speaks fun _ => ⟨rfl, rfl⟩) ?_
  refine .bind newPeer_plain fun p => .bind (.read _) fun endpoint => ?_
  refine .bind addKnownPeer_speaks fun _ => .bind registerPeer_speaks fun _ => ?_
  refine .bind tellConnections_plain fun _ => .bind pushPeer_plain fun _ => ?_
  exact .bind (sendNodeAnnounce_plain fun _ => says_plain rfl) fun _ => refreshMetrics_plain

theorem dialConnected_speaks {dial : Dial} {remote : Option (String × UInt16)} :
    Speaks tells held (dialConnected S env dial remote) := by
  refine .bind (change_speaks fun _ => ⟨rfl, rfl⟩) fun _ => .bind newPeer_plain fun p => ?_
  refine .bind tellScorer_plain fun _ => .bind addKnownPeer_speaks fun _ => ?_
  refine .bind registerPeer_speaks fun _ => .bind pushPeer_plain fun _ => ?_
  refine .bind tellConnections_plain fun _ =>
    .bind (sendNodeAnnounce_plain fun _ => says_plain rfl) fun _ => ?_
  -- requests and announcements, none with a cargo
  refine .bind ask_plain fun _ => .bind (send_plain (says_plain rfl)) fun _ => ?_
  refine .bind (send_plain (says_plain rfl)) fun _ => .bind ask_plain fun _ => ?_
  refine .bind (send_plain (says_plain rfl)) fun _ => ?_
  exact .bind (send_plain (says_plain rfl)) fun _ => refreshMetrics_plain

theorem handleReceivedPeers_speaks {payload : Json} :
    Speaks tells held (handleReceivedPeers S env payload) := by
  cases payload with
  | array items =>
    refine .bind (discovered_reads items) fun found => ?_
    refine .bind (.withLock (change_speaks fun _ => ⟨rfl, rfl⟩)) fun _ => ?_
    refine .bind (.forEach fun _ _ => registerPeer_speaks) fun _ => ?_
    exact .bind (attemptRandomPeerExpansion_plain fun _ => dials_utters) fun _ =>
      refreshMetrics_plain
  | _ => exact .pure _

theorem gossip_speaks : Speaks tells held (gossip S env) := by
  refine .bind (.bind ask_plain fun _ => broadcast_plain (says_plain rfl)) fun _ => ?_
  refine .bind (attemptRandomPeerExpansion_plain fun _ => dials_utters) fun _ => ?_
  exact .bind tellScorer_plain fun _ => refreshMetrics_plain

/-! ## Calling the ledger -/

/-- What a call of the ledger passes on by its callbacks. -/
theorem runEffect_speaks {effect : Effect}
    (htx : ∀ tx, effect = .onTransactionAdded tx → ∀ bc, ⟨.newTransaction, tx.toJson⟩ ∈ tells bc)
    (hblock : ∀ block, effect = .onBlockAdded block → ∀ bc, ⟨.newBlock, block.toJson⟩ ∈ tells bc) :
    Speaks tells held (runEffect S effect) :=
  runEffect_plain (fun tx heq => says_utters fun bc _ => htx tx heq bc)
    fun block heq => says_utters fun bc _ => hblock block heq bc

variable {ops : Set Op}

/-- **A call of the ledger** is one operation, and then its callbacks: they say
what they say with the ledger as it is after the operation. -/
theorem callLedger_calls_at {α : Type} {f : Blockchain → Outcome α} {node : Node} {op : Op}
    {r : Reply} (hop : op ∈ ops)
    (hstep : step S.cfg ⟨env.now, op⟩ node.blockchain = some (r, (f node.blockchain).node))
    (heffects : ∀ effect ∈ (f node.blockchain).effects,
      Speaks tells [.blockchain] (runEffect S effect)) :
    Around (Utters tells) (Operates S env.now ops) node (callLedger S f [] node).2 := by
  have hcallbacks : Speaks tells [.blockchain] (do
      forEach (runEffect S) (f node.blockchain).effects
      return (f node.blockchain).ret) := .bind (.forEach heffects) fun _ => .pure _
  rw [callLedger_run]
  exact .inr ⟨node, { node with blockchain := (f node.blockchain).node }, .refl,
    ⟨⟨op, hop, r, hstep⟩, rfl⟩, hcallbacks _⟩

/-- No callback touches the ledger again. -/
theorem callLedger_leaves {α : Type} {f : Blockchain → Outcome α} {node : Node} :
    (callLedger S f [] node).2.blockchain = (f node.blockchain).node := by
  have hcallbacks : Speaks (fun _ => Set.univ) [.blockchain] (do
      forEach (runEffect S) (f node.blockchain).effects
      return (f node.blockchain).ret) := by
    refine .bind (.forEach fun effect _ => runEffect_speaks ?_ ?_) fun _ => .pure _
    · exact fun _ _ _ => Set.mem_univ _
    · exact fun _ _ _ => Set.mem_univ _
  rw [callLedger_run]
  exact hcallbacks.keeps (I := fun last => last.blockchain = (f node.blockchain).node)
    (s := { node with blockchain := (f node.blockchain).node })
    (fun _ _ hstep hlast => hstep.blockchain.trans hlast) rfl

theorem callLedger_addTransaction_calls {tx : Transaction} (hop : .addTransaction tx ∈ ops)
    (htells : ∀ bc, ⟨.newTransaction, tx.toJson⟩ ∈ tells bc) :
    Calls S env ops tells [] (callLedger S fun bc => bc.addTransaction S.cfg env.now tx) := by
  refine fun node => callLedger_calls_at hop rfl fun effect heffect => runEffect_speaks ?_ ?_
  all_goals
    rcases Blockchain.addTransaction_cases S.cfg env.now tx node.blockchain with h | ⟨-, h⟩
    · rw [h] at heffect
      exact absurd heffect List.not_mem_nil
    · rw [h, List.mem_singleton] at heffect
      subst heffect
      simp [htells]

/-- A block from a peer is told by its handler and not by the ledger. -/
theorem callLedger_acceptBlock_calls {block : Block} (hop : .acceptBlock block ∈ ops) :
    Calls S env ops tells [] (callLedger S fun bc => bc.acceptBlock S.cfg env.now block) := by
  refine fun node => callLedger_calls_at hop rfl fun effect heffect => runEffect_speaks ?_ ?_
  all_goals
    rcases Blockchain.acceptBlock_cases S.cfg env.now block node.blockchain with h | h
    · rw [h] at heffect
      exact absurd heffect List.not_mem_nil
    · rw [Blockchain.acceptBlock_of h] at heffect
      rintro item rfl
      simp at heffect

theorem callLedger_replaceChain_calls {newChain : List Block}
    (hop : .replaceChain newChain ∈ ops) :
    Calls S env ops tells [] (callLedger S fun bc => bc.replaceChain S.cfg env.now newChain) := by
  refine fun node => callLedger_calls_at hop rfl fun effect heffect => runEffect_speaks ?_ ?_
  all_goals
    rcases Blockchain.replaceChain_cases S.cfg env.now newChain node.blockchain with h | h
    · rw [h] at heffect
      exact absurd heffect List.not_mem_nil
    · rw [Blockchain.replaceChain_of h] at heffect
      rintro item rfl
      simp at heffect

end NodeM

/-! ## Messages and events -/

/-- The operation of the ledger a message asks for. -/
def Message.ops (C : Crypto) (msg : Message) : Set Op :=
  match msg.type with
  | .newTransaction =>
    {op | ∃ tx, Transaction.fromJson C msg.payload = .ok tx ∧ op = .addTransaction tx}
  | .newBlock => {op | ∃ block, Block.fromJson C msg.payload = .ok block ∧ op = .acceptBlock block}
  | .responseChain =>
    {op | ∃ chain, msg.payload.iterate.mapM (Block.fromJson C) = .ok chain ∧
      op = .replaceChain chain}
  | _ => ∅

/-- What a node may say with a cargo when it handles a message. -/
def Message.tells (C : Crypto) (msg : Message) (bc : Blockchain) : Set Message :=
  match msg.type with
  | .newTransaction => {said | said = ⟨.newTransaction, msg.payload⟩ ∨
      ∃ tx, Transaction.fromJson C msg.payload = .ok tx ∧ said = ⟨.newTransaction, tx.toJson⟩}
  | .newBlock => {⟨.newBlock, msg.payload⟩}
  | .requestChain => {⟨.responseChain, .array (bc.chain.map Block.toJson)⟩}
  | _ => ∅

namespace NodeEvent

/-- The clock of an event; the ends of reads and writes have none. -/
def clock : NodeEvent → Option TimePoint
  | input env _ | submit env _ | mine env _ | connect env _ _ => some env.now
  | disconnected _ | written _ | writeFailed _ => none

/-- The operations of the ledger an event may run. -/
def ops (S : NodeSetup) : NodeEvent → Set Op
  | input _ (.message _ msg) => msg.ops S.cfg.crypto
  | submit _ tx => {.addTransaction tx}
  | mine _ minerAddress => {.minePendingTransactions minerAddress}
  | _ => ∅

/-- What a node may say with a cargo at an event, with the ledger as it is by
then. -/
def tells (S : NodeSetup) (node : Node) (event : NodeEvent) (bc : Blockchain) : Set Message :=
  match event with
  | input _ (.message _ msg) => msg.tells S.cfg.crypto bc
  | submit _ tx => {⟨.newTransaction, tx.toJson⟩}
  | mine env minerAddress => {said | ∃ outcome,
      node.blockchain.minePendingTransactions S.cfg env.now minerAddress = some outcome ∧
        said = ⟨.newBlock, outcome.ret.toJson⟩}
  | _ => ∅

end NodeEvent

namespace NodeM

variable {S : NodeSetup} {env : Env} {p : PeerId} {peerKey : String} {msg : Message}

/-- The handler passes the message on as it came, and the callback the
transaction as the node writes it. -/
theorem onNewTransaction_calls (htype : msg.type = .newTransaction) :
    Calls S env (msg.ops S.cfg.crypto) (msg.tells S.cfg.crypto) []
      (onNewTransaction S env p peerKey msg.payload) := by
  have hops : ∀ tx, Transaction.fromJson S.cfg.crypto msg.payload = .ok tx →
      .addTransaction tx ∈ msg.ops S.cfg.crypto := by
    intro tx htx
    simp only [Message.ops, htype]
    exact ⟨tx, htx, rfl⟩
  have htells : ∀ tx, Transaction.fromJson S.cfg.crypto msg.payload = .ok tx → ∀ bc,
      ⟨.newTransaction, tx.toJson⟩ ∈ msg.tells S.cfg.crypto bc := by
    intro tx htx bc
    simp only [Message.tells, htype]
    exact .inr ⟨tx, htx, rfl⟩
  have hforward : ∀ bc, ⟨.newTransaction, msg.payload⟩ ∈ msg.tells S.cfg.crypto bc := by
    intro bc
    simp only [Message.tells, htype]
    exact .inl rfl
  -- the transaction is taken or not, and passed on as it came when it is
  refine .attempt (.liftExcept_bind fun tx htx => ?_) penalizePeerByEndpoint_plain
  refine .within_bind alreadySeenTx_plain fun seen => .ite ?_ (.of_within (.pure _))
  refine .bind_within (callLedger_addTransaction_calls (hops tx htx) (htells tx htx))
    fun accepted => .ite (.bind rewardPeerByEndpoint_plain fun _ => ?_)
      penalizePeerByEndpoint_plain
  exact broadcast_plain (says_utters fun bc _ => hforward bc)

/-- The block goes to the ledger, and the message on as it came. -/
theorem onNewBlock_calls (htype : msg.type = .newBlock) :
    Calls S env (msg.ops S.cfg.crypto) (msg.tells S.cfg.crypto) []
      (onNewBlock S env p peerKey msg.payload) := by
  have hops : ∀ block, Block.fromJson S.cfg.crypto msg.payload = .ok block →
      .acceptBlock block ∈ msg.ops S.cfg.crypto := by
    intro block hblock
    simp only [Message.ops, htype]
    exact ⟨block, hblock, rfl⟩
  have hforward : ∀ bc, ⟨.newBlock, msg.payload⟩ ∈ msg.tells S.cfg.crypto bc := by
    intro bc
    simp only [Message.tells, htype]
    exact rfl
  refine .attempt (.liftExcept_bind fun block hblock => ?_) penalizePeerByEndpoint_plain
  refine .within_bind alreadySeenBlock_plain fun seen =>
    .ite (.bind_within ?_ fun accepted => ?_) (.of_within (.pure _))
  · -- the block is taken, or the whole chain is asked for
    refine .within_bind ask_plain fun chain =>
      .ite (callLedger_acceptBlock_calls (hops block hblock)) (.of_within ?_)
    exact .guarded (send_plain (says_plain rfl)) fun _ => .pure _
  · exact .ite (.bind rewardPeerByEndpoint_plain fun _ =>
      broadcast_plain (says_utters fun bc _ => hforward bc)) (.pure _)

theorem onResponseChain_calls (htype : msg.type = .responseChain) :
    Calls S env (msg.ops S.cfg.crypto) (msg.tells S.cfg.crypto) []
      (onResponseChain S env peerKey msg.payload) := by
  have hops : ∀ chain, msg.payload.iterate.mapM (Block.fromJson S.cfg.crypto) = .ok chain →
      .replaceChain chain ∈ msg.ops S.cfg.crypto := by
    intro chain hchain
    simp only [Message.ops, htype]
    exact ⟨chain, hchain, rfl⟩
  refine .attempt (.liftExcept_bind fun chain hchain => ?_) penalizePeerByEndpoint_plain
  refine .bind_within (callLedger_replaceChain_calls (hops chain hchain)) fun replaced => ?_
  exact .ite rewardPeerByEndpoint_plain (.pure _)

/-- The chain is the one the ledger has when the answer is queued. -/
theorem onRequestChain_speaks (htype : msg.type = .requestChain) :
    Speaks (msg.tells S.cfg.crypto) [] (onRequestChain p) := by
  refine .ask fun node => .single ⟨rfl, fun q msg' hmsg hcargo => ?_⟩
  have hqueue : msg' ∈ (if q = p then (node.connection q).send
      ⟨.responseChain, .array (node.blockchain.chain.map Block.toJson)⟩
      else node.connection q).writeQueue := hmsg
  split at hqueue
  · refine (mem_send hqueue).imp id fun heq => ?_
    simp only [Message.tells, htype]
    exact heq
  · exact .inl hqueue

/-- One case for each case of the `switch`; three of them call the ledger. -/
theorem dispatch_calls :
    Calls S env (msg.ops S.cfg.crypto) (msg.tells S.cfg.crypto) []
      (dispatch S env p peerKey msg) := by
  have hlearn : ∀ endpoint, Speaks (msg.tells S.cfg.crypto) [] (learnEndpoint endpoint) :=
    fun _ => .bind addKnownPeer_speaks fun _ => registerPeer_speaks
  have htopology : Speaks (msg.tells S.cfg.crypto) [] (onRequestBootstrap env p) :=
    .bind ask_plain fun _ => send_plain (says_plain rfl)
  unfold dispatch
  -- only three of the handlers call the ledger, the others only speak
  cases htype : msg.type with
  | newTransaction => exact onNewTransaction_calls htype
  | newBlock => exact onNewBlock_calls htype
  | responseChain => exact onResponseChain_calls htype
  | requestChain => exact .of_within (onRequestChain_speaks htype)
  | nodeAnnounce =>
    refine .of_within (.bind (.liftExcept _) fun publicIp => .bind (.liftExcept _) fun port =>
      .bind (.liftExcept _) fun endpoint => ?_)
    have hendpoint : Speaks (msg.tells S.cfg.crypto) []
        (if endpoint ≠ "" then learnEndpoint endpoint else pure ()) := .ite (hlearn _) (.pure _)
    refine .ite (.bind (update_plain fun _ => List.Subset.refl _) fun _ => ?_) hendpoint
    exact .bind tellScorer_plain fun _ => .bind (hlearn _) fun _ => hendpoint
  | registerNode =>
    refine .of_within (.bind (.liftExcept _) fun endpoint =>
      .ite (.bind registerPeer_speaks fun _ => ?_) htopology)
    exact .bind addKnownPeer_speaks fun _ => htopology
  | requestBootstrap => exact .of_within htopology
  | responseBootstrap | responsePeers | peerList => exact .of_within handleReceivedPeers_speaks
  | ping => exact .of_within (send_plain (says_plain rfl))
  | pong => exact .of_within tellScorer_plain
  | requestPeers =>
    refine .of_within (.bind ask_plain fun known => .bind ask_plain fun own => ?_)
    exact .bind ask_plain fun _ => send_plain (says_plain rfl)
  | unknown => exact .of_within (.pure _)

theorem handleMessage_calls :
    Calls S env (msg.ops S.cfg.crypto) (msg.tells S.cfg.crypto) [] (handleMessage S env p msg) := by
  refine .within_bind (.read _) fun peerKey => .within_bind ask_plain fun banned => ?_
  refine .ite (.of_within removePeer_plain) (.within_bind isRateLimited_plain fun limited => ?_)
  refine .ite (.of_within penalizePeerByEndpoint_plain) ?_
  refine .within_bind isDuplicate_plain fun duplicate => .ite (.of_within (.pure _)) ?_
  exact .within_bind tellScorer_plain fun _ =>
    .bind_within dispatch_calls fun _ => refreshMetrics_plain

end NodeM

variable {S : NodeSetup} {node node' : Node}

theorem react_calls {env : Env} {input : NodeInput} :
    Calls S env ((NodeEvent.input env input).ops S) ((NodeEvent.input env input).tells S node) []
      (react S env input) := by
  cases input with
  | message p msg => exact handleMessage_calls
  | heartbeat => exact .of_within (heartbeat_plain (says_plain rfl))
  | gossip => exact .of_within gossip_speaks
  | rotation => exact .of_within (attemptRandomPeerExpansion_plain fun _ => dials_utters)
  | accepted remote => exact .of_within accepted_speaks
  | dialConnected dial remote => exact .of_within dialConnected_speaks
  | dialFailed dial =>
    exact .of_within (.bind (change_speaks fun _ => ⟨rfl, rfl⟩) fun _ =>
      retryConnect_plain fun _ _ => utters_of_eq rfl rfl)
  | retryTimer dial =>
    exact .of_within (.bind (change_speaks fun _ => ⟨rfl, rfl⟩) fun _ =>
      connectToPeer_plain dials_utters)
  | bootstrap =>
    exact .of_within (.bind ask_plain fun peers => .forEach fun _ _ =>
      connectToEndpoint_plain fun _ _ _ => dials_utters)
  | requestChain => exact .of_within (broadcast_plain (says_plain rfl))

/-- **What an event does**: one operation of the ledger at most, which the event
asks for, and nothing said with a cargo but what it may say. -/
theorem nodeStep_calls {event : NodeEvent} {u : Unit} (now : TimePoint)
    (h : nodeStep S event node = some (u, node')) (hnow : ∀ t ∈ event.clock, t = now) :
    Around (Utters (event.tells S node)) (Operates S now (event.ops S)) node node' := by
  -- the ends of reads and writes change one connection, whenever they come
  have hupdate : ∀ (p : PeerId) (f : Peer → Peer),
      (f (node.connection p)).writeQueue ⊆ (node.connection p).writeQueue →
      Around (Utters (event.tells S node)) (Operates S now (event.ops S)) node
        (node.updatePeer p f) :=
    fun p f hf => .inl (.single (Plain.of_rests (.update hf)))
  cases event with
  | input env input =>
    obtain rfl : env.now = now := hnow _ rfl
    have hcalls : Calls S env ((NodeEvent.input env input).ops S)
        ((NodeEvent.input env input).tells S node) [] (react S env input) := react_calls
    have hsteps := hcalls node
    rwa [handlerReturned_eq_some.mp h] at hsteps
  | submit env tx =>
    obtain rfl : env.now = now := hnow _ rfl
    rw [← eq_of_requestEnded h]
    exact callLedger_addTransaction_calls (Set.mem_singleton _) (fun _ => Set.mem_singleton _) node
  | mine env minerAddress =>
    obtain rfl : env.now = now := hnow _ rfl
    rw [nodeStep] at h
    split at h
    · cases h
    next outcome houtcome =>
      rw [← eq_of_requestEnded h]
      have hs : step S.cfg ⟨env.now, .minePendingTransactions minerAddress⟩ node.blockchain =
          some (⟨.block outcome.ret, outcome.effects⟩, outcome.node) := by
        show (node.blockchain.minePendingTransactions S.cfg env.now minerAddress).map _ = _
        rw [houtcome]
        rfl
      refine callLedger_calls_at (Set.mem_singleton _) hs fun effect heffect => ?_
      rw [(Blockchain.mine_spec houtcome).2] at heffect
      refine runEffect_speaks (fun tx htx => ?_) fun block hblock bc => ?_
      · subst htx
        simp at heffect
      · subst hblock
        obtain rfl : block = outcome.ret := by simpa using heffect
        exact ⟨outcome, houtcome, rfl⟩
  | connect env host port =>
    obtain rfl : env.now = now := hnow _ rfl
    have hspeaks : Speaks (fun _ => ∅) [] (connectToPeer S env ⟨host, port, 0⟩) :=
      connectToPeer_plain dials_utters
    have hsteps := hspeaks node
    rw [handlerReturned_eq_some.mp h] at hsteps
    exact .inl hsteps
  | disconnected p =>
    cases h
    exact hupdate p Peer.close (List.Subset.refl _)
  | written p =>
    cases h
    exact hupdate p Peer.written (List.tail_subset _)
  | writeFailed p =>
    cases h
    exact hupdate p Peer.writeFailed (List.nil_subset _)

end PersonalBlockchain
