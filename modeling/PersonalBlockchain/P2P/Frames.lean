import PersonalBlockchain.P2P.Gossip

/-!
# Personal blockchain — what most functions leave alone

Most functions of the node neither call the ledger nor learn of other peers, and
they queue messages of a few kinds at most. They are gone through once, for
every relation with room for a step that `Rests`: what a function says besides,
and whom it dials, are hypotheses of its lemma.
-/

namespace PersonalBlockchain

open Std Locking Routine NodeM

/-- The ledger and what is known of other peers stay; nothing is said, nobody is
dialled. -/
structure Rests (node node' : Node) : Prop where
  blockchain : node'.blockchain = node.blockchain
  queues : ∀ p, (node'.connection p).writeQueue ⊆ (node.connection p).writeQueue
  knownPeers : node'.peerManager.knownPeers = node.peerManager.knownPeers
  bootstrap : node'.bootstrapManager = node.bootstrapManager
  dials : node'.dials ⊆ node.dials
  timers : node'.timers ⊆ node.timers

namespace Rests

variable {node : Node}

/-- The maps of what was seen, the scores, the connections in use and the
counters may all change. -/
theorem rest {storage nextPeer peers seenTxIDs seenBlockHashes messageDedup peerScorer
    connectionManager networkMetrics broadcasts} : Rests node { node with
      storage := storage, nextPeer := nextPeer, peers := peers, seenTxIDs := seenTxIDs
      seenBlockHashes := seenBlockHashes, messageDedup := messageDedup, peerScorer := peerScorer
      connectionManager := connectionManager, networkMetrics := networkMetrics
      broadcasts := broadcasts } :=
  ⟨rfl, fun _ => List.Subset.refl _, rfl, rfl, List.Subset.refl _, List.Subset.refl _⟩

/-- Dial attempts and quarantine. -/
theorem manager {pm : PeerManager} (h : pm.knownPeers = node.peerManager.knownPeers) :
    Rests node { node with peerManager := pm } :=
  ⟨rfl, fun _ => List.Subset.refl _, h, rfl, List.Subset.refl _, List.Subset.refl _⟩

theorem fewer {dials : List Dial} {timers : List (Dial × Int)} (hdials : dials ⊆ node.dials)
    (htimers : timers ⊆ node.timers) : Rests node { node with dials := dials, timers := timers } :=
  ⟨rfl, fun _ => List.Subset.refl _, rfl, rfl, hdials, htimers⟩

/-- One connection, whose queue does not grow, and perhaps a new one. -/
theorem update {p : PeerId} {f : Peer → Peer} {nextPeer : PeerId}
    (h : (f (node.connection p)).writeQueue ⊆ (node.connection p).writeQueue) :
    Rests node { node.updatePeer p f with nextPeer := nextPeer } := by
  refine ⟨rfl, fun q => ?_, rfl, rfl, List.Subset.refl _, List.Subset.refl _⟩
  show (if q = p then f (node.connection q) else node.connection q).writeQueue ⊆ _
  split
  next hq => exact hq ▸ h
  next => exact List.Subset.refl _

end Rests

/-- What is in a queue after a message is sent was there before, or is the
message. -/
theorem mem_send {peer : Peer} {msg msg' : Message} (h : msg' ∈ (peer.send msg).writeQueue) :
    msg' ∈ peer.writeQueue ∨ msg' = msg := by
  rw [Peer.send] at h
  split at h
  · exact .inl h
  · rcases List.mem_append.mp h with h | h
    · exact .inl h
    · exact .inr (List.mem_singleton.mp h)

/-- A relation with room for such steps. -/
class Plain (r : Node → Node → Prop) : Prop where
  of_rests : ∀ {node node'}, Rests node node' → r node node'

/-- A routine of the node all of whose steps are steps of `r`. -/
abbrev Does {α : Type} (r : Node → Node → Prop) (held : List Mutex) (x : NodeM α) : Prop :=
  Within r held x

namespace NodeM

variable {r : Node → Node → Prop} {S : NodeSetup} {env : Env} {held : List Mutex} {p : PeerId}
  {msg : Message} {dial : Dial} {endpoint : String}

/-- There is room for a message in the queue of any connection. -/
def Says (r : Node → Node → Prop) (msg : Message) : Prop :=
  ∀ node p, r node (node.updatePeer p fun peer => peer.send msg)

/-- There is room for a dial. -/
def Dials (r : Node → Node → Prop) (dial : Dial) : Prop :=
  ∀ node, r node { node with dials := node.dials ++ [dial] }

/-- There is room for another try later. -/
def Waits (r : Node → Node → Prop) (dial : Dial) : Prop :=
  ∀ node delayMs, r node { node with timers := node.timers ++ [(dial, delayMs)] }

theorem ask_plain {α : Type} {m : Mutex} {f : Node → α} :
    Does r held (withLock m (read f)) := .withLock (.read f)

theorem send_plain (h : Says r msg) : Does r held (send p msg) :=
  .withLock (.act fun node => h node p)

theorem sendNodeAnnounce_plain (h : ∀ payload, Says r ⟨.nodeAnnounce, payload⟩) :
    Does r held (sendNodeAnnounce S p) :=
  .bind ask_plain fun _ => send_plain (h _)

variable [Plain r]

/-! ## Single steps -/

/-- A change that rests is a step of every plain relation. -/
theorem change_plain {f : Node → Node} (h : ∀ node, Rests node (f node)) :
    Does r held (change f) := .act fun node => Plain.of_rests (h node)

theorem tell_plain {m : Mutex} {f : Node → Node} (h : ∀ node, Rests node (f node)) :
    Does r held (withLock m (change f)) := .withLock (change_plain h)

theorem tellScorer_plain {f : PeerScorer → PeerScorer} : Does r held (tellScorer f) :=
  tell_plain fun _ => .rest

theorem tellConnections_plain {f : ConnectionManager → ConnectionManager} :
    Does r held (tellConnections f) := tell_plain fun _ => .rest

theorem quarantinePeer_plain {now : Instant} {seconds : Int} :
    Does r held (tellPeerManager (PeerManager.quarantinePeer now endpoint seconds)) :=
  tell_plain fun _ => .manager rfl

theorem markDialAttempt_plain {now : Instant} :
    Does r held (tellPeerManager (PeerManager.markDialAttempt now endpoint)) :=
  tell_plain fun _ => .manager rfl

theorem pushPeer_plain : Does r held (pushPeer p) := tell_plain fun _ => .rest

theorem update_plain {f : Peer → Peer} (hf : ∀ peer, (f peer).writeQueue ⊆ peer.writeQueue) :
    Does r held (change (Node.updatePeer p f)) := change_plain fun _ => .update (hf _)

theorem closePeer_plain : Does r held (closePeer p) := update_plain fun _ => List.Subset.refl _

/-- The queue of a new connection is empty. -/
theorem newPeer_plain {remote : Option (String × UInt16)} {listenPort : UInt16} :
    Does r held (newPeer remote listenPort) :=
  .act fun _ => Plain.of_rests (.update (List.nil_subset _))

/-- The first connection to an endpoint is closed, if there is one. -/
theorem closeFirst_plain : Does r held (closeFirst endpoint) := by
  refine tell_plain fun node => ?_
  split
  · exact .update (List.Subset.refl _)
  · exact .rest

theorem isRateLimited_plain {maxPerSecond : Int32} :
    Does r held (isRateLimited env p maxPerSecond) :=
  .withLock (.act fun node => Plain.of_rests (.update (p := p)
    (f := fun _ => ((node.connection p).isRateLimited env.steady maxPerSecond).2)
    (List.Subset.refl _)))

theorem refreshMetrics_plain : Does r held refreshMetrics := by
  refine .bind ask_plain fun _ => .bind (change_plain fun _ => .rest) fun _ => ?_
  refine .bind ask_plain fun _ => .bind (change_plain fun _ => .rest) fun _ => ?_
  exact .bind ask_plain fun _ => change_plain fun _ => .rest

theorem removePeer_plain {quarantine : Bool} : Does r held (removePeer S env p quarantine) := by
  refine .bind (.read _) fun endpoint => .guarded quarantinePeer_plain fun _ => ?_
  exact .bind tellConnections_plain fun _ => .withLock
    (.bind (change_plain fun _ => .rest) fun _ => refreshMetrics_plain)

theorem broadcast_plain {exclude : Option PeerId} (h : Says r msg) :
    Does r held (broadcast msg exclude) := by
  refine .bind (change_plain fun _ => .rest) fun _ => ?_
  refine .withLock (.bind (.read _) fun peers => .forEach fun p _ => ?_)
  exact .bind (.read _) fun connected => .ite (send_plain h) (.pure _)

/-! ## Scores, and what was seen -/

/-- A penalty may ban, and then closes a connection and quarantines its
endpoint. -/
theorem penalizePeerByEndpoint_plain {penalty : Int} :
    Does r held (penalizePeerByEndpoint S env endpoint penalty) := by
  refine .bind (.withLock (.act fun _ => Plain.of_rests .rest)) fun banned =>
    .guarded (.withLock (.bind (.read _) fun first => ?_)) fun _ => refreshMetrics_plain
  cases first with
  | none => exact .pure _
  | some p =>
    exact .bind closePeer_plain fun _ => .bind quarantinePeer_plain fun _ =>
      tellConnections_plain

theorem rewardPeerByEndpoint_plain {reward : Int} :
    Does r held (rewardPeerByEndpoint endpoint reward) :=
  .bind tellScorer_plain fun _ => refreshMetrics_plain

theorem alreadySeenTx_plain {txID : String} : Does r held (alreadySeenTx txID) := by
  refine .withLock (.act fun node => Plain.of_rests ?_)
  split
  · exact .rest
  · exact .rest

theorem alreadySeenBlock_plain {hash : String} : Does r held (alreadySeenBlock hash) := by
  refine .withLock (.act fun node => Plain.of_rests ?_)
  split
  · exact .rest
  · exact .rest

theorem isDuplicate_plain : Does r held (isDuplicate S env msg) := by
  refine .ite (.pure _) (.withLock (.act fun node => Plain.of_rests ?_))
  dsimp only
  split
  · exact .rest
  · exact .rest

theorem broadcastTransaction_plain {tx : Transaction}
    (h : Says r ⟨.newTransaction, tx.toJson⟩) : Does r held (broadcastTransaction tx) :=
  .bind alreadySeenTx_plain fun _ => .ite (broadcast_plain h) (.pure _)

theorem broadcastBlock_plain {block : Block} (h : Says r ⟨.newBlock, block.toJson⟩) :
    Does r held (broadcastBlock block) :=
  .bind alreadySeenBlock_plain fun _ => .ite (broadcast_plain h) (.pure _)

/-- What a call of the ledger passes on by its callbacks. -/
theorem runEffect_plain {effect : Effect}
    (htx : ∀ tx, effect = .onTransactionAdded tx → Says r ⟨.newTransaction, tx.toJson⟩)
    (hblock : ∀ block, effect = .onBlockAdded block → Says r ⟨.newBlock, block.toJson⟩) :
    Does r held (runEffect S effect) := by
  cases effect with
  | saveChain chain => exact tell_plain fun _ => .rest
  | appendBlock block =>
    refine .withLock (.bind (.read _) fun storage => ?_)
    cases storage with
    | none => exact .pure _
    | some dir => exact .bind (.liftExcept _) fun _ => change_plain fun _ => .rest
  | onBlockAdded block => exact broadcastBlock_plain (hblock block rfl)
  | onTransactionAdded tx => exact broadcastTransaction_plain (htx tx rfl)
  | onBlockAccepted block => exact .pure _

/-! ## Dialling -/

theorem dropLowestScore_plain : Does r held dropLowestScore :=
  .bind (.bind ask_plain fun peers => scores_reads peers) fun _ =>
    .ite closeFirst_plain (.pure _)

/-- A dial, if any, after a connection may have been closed for it. -/
theorem connectToPeer_plain (h : Dials r dial) : Does r held (connectToPeer S env dial) := by
  have hslot : Does r held freeOutboundSlot :=
    .bind ask_plain fun _ => .ite (.pure _) (.bind dropLowestScore_plain fun _ => ask_plain)
  -- each of the checks may end it, and so may a lack of slots
  refine .ite (.pure _) (.bind ask_plain fun _ => .ite (.pure _) ?_)
  refine .bind ask_plain fun _ => .ite (.pure _) ?_
  refine .bind ask_plain fun _ => .ite (.pure _) ?_
  refine .bind ask_plain fun _ => .ite (.pure _) (.bind hslot fun _ => .ite ?_ ?_)
  · exact .bind markDialAttempt_plain fun _ => .act h
  · exact change_plain fun _ => .rest

theorem connectToEndpoint_plain
    (h : ∀ host port, PeerManager.parseEndpoint endpoint = some (host, port) →
      Dials r ⟨host, port, 0⟩) : Does r held (connectToEndpoint S env endpoint) := by
  unfold connectToEndpoint
  split
  next host port hparse => exact connectToPeer_plain (h host port hparse)
  next => exact .pure _

/-- Dials to whatever endpoints, as the order of the containers has it. -/
theorem attemptRandomPeerExpansion_plain (h : ∀ dial, Dials r dial) :
    Does r held (attemptRandomPeerExpansion S env) := by
  refine .bind ask_plain fun _ => .ite (.pure _) (.bind ask_plain fun _ => ?_)
  refine .bind ask_plain fun _ => .bind ask_plain fun _ => ?_
  exact .forEach fun _ _ => connectToEndpoint_plain fun _ _ _ => h _

theorem retryConnect_plain (h : Waits r dial) : Does r held (retryConnect S env dial) :=
  .ite quarantinePeer_plain (.act fun node => h node _)

theorem heartbeat_plain (h : Says r { type := .ping }) : Does r held (heartbeat S env) := by
  have hclean : Does r held dropClosed := by
    refine .withLock (.bind (.read _) fun peers => .bind (.forEach fun p _ => ?_) fun _ => ?_)
    · exact .bind (.read _) fun _ =>
        .ite (.bind (.read _) fun _ => tellConnections_plain) (.pure _)
    · exact .act fun _ => Plain.of_rests .rest
  have hclose : ∀ endpoint, Does r (.peers :: held) (closeTimedOut S env endpoint) := by
    refine fun endpoint => .bind (.read _) fun peers => .bind (.forEach fun p _ => ?_) fun _ => ?_
    · exact .bind (.read _) fun _ =>
        .ite (.bind closePeer_plain fun _ => quarantinePeer_plain) (.pure _)
    · exact tellConnections_plain
  -- closed peers go, the others are pinged, and then the silent ones are closed
  refine .bind hclean fun snapshot => .bind (.forEach fun p _ => ?_) fun _ => ?_
  · exact .bind (.read _) fun _ => .bind tellScorer_plain fun _ => send_plain h
  · refine .bind ask_plain fun timedOut => .guarded ?_ fun _ => refreshMetrics_plain
    exact .withLock (.forEach fun endpoint _ => hclose endpoint)

end NodeM

end PersonalBlockchain
