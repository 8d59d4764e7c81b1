import PersonalBlockchain.P2P.Handlers

/-!
# Personal blockchain — the order of the node's mutexes

Every member function but `removePeer` takes its mutexes in the order of their
ranks. There is one lemma for each function, `f_obeys`, and it says up to which rank
the mutexes that its callers hold may go: a function that takes `peersMutex_` must
not be called under it. The lemma of a function rests on those of the functions that
it calls and unfolds none of them. `throws` says whether an exception may leave the
function; where it is a variable, none does.

`removePeer` calls `refreshMetrics` under `peersMutex_`, which `refreshMetrics` takes.

## Results

* `react_obeys`, `handleAdmitted_obeys` — what the node does with an event or with a
  message obeys the order;
* `removePeer_deadlocks` — `removePeer` blocks itself, in every state.
-/

namespace PersonalBlockchain

open Locking Routine NodeM

namespace NodeM

variable {S : NodeSetup} {env : Env} {throws : Prop} {k : Nat} {α : Type}

/-- One access to what one mutex guards. -/
theorem locked_obeys {m : Mutex} {f : Node → α × Node} (hk : k ≤ m.rank) :
    Obeys Mutex.rank throws k (withLock m (act f) : NodeM α) := .withLock hk (.act f)

/-! ## `peersMutex_` -/

/-- It takes `peersMutex_`, and those of the managers after it. -/
theorem refreshMetrics_obeys (hk : k ≤ 2) : Obeys Mutex.rank throws k refreshMetrics := by
  -- the list of peers is read under a guard of its own, released before the rest
  refine .bind (locked_obeys hk) fun _ => .bind (.act _) fun _ => ?_
  refine .bind (locked_obeys hk.step) fun _ => .bind (.act _) fun _ => ?_
  exact .bind (locked_obeys hk.step) fun _ => .act _

/-- Under `peersMutex_` the list of peers cannot be read. -/
theorem refreshMetrics_under_peers {node : Node} :
    refreshMetrics [.peers] node = (.selfDeadlock .peers, node) :=
  bind_run_selfDeadlock (withLock_held (List.mem_singleton_self _))

/-- **The guard of `removePeer` outlives its purpose**: it is still held when
the metrics are refreshed. -/
theorem removePeer_deadlocks {p : PeerId} {quarantine : Bool} {node : Node} :
    ∃ node', removePeer S env p quarantine [] node = (.selfDeadlock .peers, node') := by
  have hunder : ∀ before : Node, ∃ node', (withLock .peers do
      change fun node => { node with
        peers := node.peers.filter fun q => !(q = p || !(node.connection q).isOpen) }
      refreshMetrics : NodeM Unit) [] before = (.selfDeadlock .peers, node') := by
    intro before
    rw [withLock_run List.not_mem_nil]
    exact ⟨_, (bind_run rfl).trans refreshMetrics_under_peers⟩
  rw [removePeer, bind_run rfl]
  -- the mutexes before are free, with and without the quarantine
  split
  · obtain ⟨node', h⟩ := hunder _
    exact ⟨node', (bind_run rfl).trans ((bind_run rfl).trans h)⟩
  · obtain ⟨node', h⟩ := hunder _
    exact ⟨node', (bind_run rfl).trans h⟩

/-- The messages are sent under `peersMutex_`; the mutexes of the write queues
come after it. -/
theorem broadcast_obeys {msg : Message} {exclude : Option PeerId} (hk : k ≤ 2) :
    Obeys Mutex.rank throws k (broadcast msg exclude) := by
  -- the write queues come after `peersMutex_`
  refine .bind (.act _) fun _ =>
    .withLock hk (.bind (.act _) fun peers => .forEach (fun p => ?_) peers)
  exact .bind (.act _) fun _ => .ite (locked_obeys (Nat.le_refl _)) (.pure _)

/-- The scorer first, and `peersMutex_` when it answers that the peer is banned.
-/
theorem penalizePeerByEndpoint_obeys {endpoint : String} {penalty : Int} (hk : k ≤ 2) :
    Obeys Mutex.rank throws k (penalizePeerByEndpoint S env endpoint penalty) := by
  refine .bind (.withLock hk.step (.act _)) fun banned => ?_
  -- the guard is gone when the metrics are refreshed
  refine .guarded ?_ fun _ => refreshMetrics_obeys hk
  refine .withLock hk (.bind (.act _) fun first => ?_)
  cases first with
  | none => exact .pure _
  | some p =>
    exact .bind (.act _) fun _ => .bind (locked_obeys (Nat.le_refl _)) fun _ =>
      locked_obeys (Nat.le_refl _)

theorem rewardPeerByEndpoint_obeys {endpoint : String} {reward : Int} (hk : k ≤ 2) :
    Obeys Mutex.rank throws k (rewardPeerByEndpoint endpoint reward) :=
  .bind (locked_obeys hk.step) fun _ => refreshMetrics_obeys hk

theorem connectedPeerScores_obeys (hk : k ≤ 2) :
    Obeys Mutex.rank throws k connectedPeerScores := by
  refine .bind (locked_obeys hk) fun peers => ?_
  induction peers with
  | nil => exact .pure _
  | cons endpoint rest ih => exact .bind (locked_obeys hk.step) fun _ => .bind ih fun _ => .pure _

theorem dropLowestScore_obeys (hk : k ≤ 2) : Obeys Mutex.rank throws k dropLowestScore :=
  .bind (connectedPeerScores_obeys hk) fun _ => .ite (locked_obeys hk) (.pure _)

/-! ## `seenMutex_` and the ledger -/

theorem isDuplicate_obeys {msg : Message} (hk : k ≤ 1) :
    Obeys Mutex.rank throws k (isDuplicate S env msg) :=
  .ite (.pure _) (.withLock hk (.act _))

theorem broadcastTransaction_obeys {tx : Transaction} (hk : k ≤ 1) :
    Obeys Mutex.rank throws k (broadcastTransaction tx) :=
  .bind (locked_obeys hk) fun _ => .ite (broadcast_obeys hk.step) (.pure _)

theorem broadcastBlock_obeys {block : Block} (hk : k ≤ 1) :
    Obeys Mutex.rank throws k (broadcastBlock block) :=
  .bind (locked_obeys hk) fun _ => .ite (broadcast_obeys hk.step) (.pure _)

/-- Appending to a stored chain may throw. -/
theorem runEffect_obeys {effect : Effect} (hk : k ≤ 1) :
    Obeys Mutex.rank True k (runEffect S effect) := by
  cases effect with
  | saveChain chain => exact .withLock hk.step.step (.act _)
  | appendBlock block =>
    -- nothing is taken under the mutex of the storage
    refine .withLock hk.step.step (.bind (.act _) fun storage => ?_)
    cases storage with
    | none => exact .pure _
    | some dir => exact .bind (.liftExcept _) fun _ => .act _
  | onBlockAdded block => exact broadcastBlock_obeys hk
  | onTransactionAdded tx => exact broadcastTransaction_obeys hk
  | onBlockAccepted block => exact .pure _

/-- The callbacks run under the mutex of the ledger, which comes first of all. -/
theorem callLedger_obeys {f : Blockchain → Outcome α} :
    Obeys Mutex.rank True 0 (callLedger S f) := by
  -- the effects run under the mutex of the ledger, which comes first
  refine .withLock (Nat.le_refl _) (.bind (.act _) fun outcome => .bind ?_ fun _ => .pure _)
  exact .forEach (fun effect => runEffect_obeys (Nat.le_refl _)) _

/-! ## Dialling and accepting -/

/-- The scores are read under `peersMutex_`, and the connection is closed under
it again. -/
theorem freeOutboundSlot_obeys (hk : k ≤ 2) :
    Obeys Mutex.rank throws k freeOutboundSlot := by
  refine .bind (locked_obeys hk.step) fun _ => .ite (.pure _) ?_
  exact .bind (dropLowestScore_obeys hk) fun _ => locked_obeys hk.step

theorem startDial_obeys {dial : Dial} (hk : k ≤ 2) :
    Obeys Mutex.rank throws k (startDial env dial) :=
  .bind (freeOutboundSlot_obeys hk) fun _ =>
    .ite (.bind (locked_obeys hk.step) fun _ => .act _) (.act _)

theorem connectToPeer_obeys {dial : Dial} (hk : k ≤ 2) :
    Obeys Mutex.rank throws k (connectToPeer S env dial) := by
  refine .ite (.pure _) (.bind (locked_obeys hk) fun _ => .ite (.pure _) ?_)
  refine .bind (locked_obeys hk.step) fun _ => .ite (.pure _) ?_
  refine .bind (locked_obeys hk.step) fun _ => .ite (.pure _) ?_
  exact .bind (locked_obeys hk.step) fun _ => .ite (.pure _) (startDial_obeys hk)

theorem retryConnect_obeys {dial : Dial} (hk : k ≤ 2) :
    Obeys Mutex.rank throws k (retryConnect S env dial) :=
  .ite (locked_obeys hk.step) (.act _)

theorem sendNodeAnnounce_obeys {p : PeerId} (hk : k ≤ 2) :
    Obeys Mutex.rank throws k (sendNodeAnnounce S p) :=
  .bind (locked_obeys hk.step) fun _ => locked_obeys hk.step

/-- The slot is taken, the peer is enlisted and greeted, each under its own
mutex. -/
theorem dialConnected_obeys {dial : Dial} {remote : Option (String × UInt16)}
    (hk : k ≤ 2) : Obeys Mutex.rank throws k (dialConnected S env dial remote) := by
  refine .bind (.act _) fun _ => .bind (.act _) fun p => ?_
  refine .bind (locked_obeys hk.step) fun _ => .bind (locked_obeys hk.step) fun _ => ?_
  -- `peersMutex_` is held for the push only
  refine .bind (locked_obeys hk.step) fun _ => .bind (locked_obeys hk) fun _ => ?_
  refine .bind (locked_obeys hk.step) fun _ => .bind (sendNodeAnnounce_obeys hk) fun _ => ?_
  refine .bind (locked_obeys hk.step) fun _ => .bind (locked_obeys hk.step) fun _ => ?_
  refine .bind (locked_obeys hk.step) fun _ => .bind (locked_obeys hk.step) fun _ => ?_
  exact .bind (locked_obeys hk.step) fun _ => .bind (locked_obeys hk.step) fun _ =>
    refreshMetrics_obeys hk

theorem dialFailed_obeys {dial : Dial} (hk : k ≤ 2) :
    Obeys Mutex.rank throws k (dialFailed S env dial) :=
  .bind (.act _) fun _ => retryConnect_obeys hk

theorem retryTimer_obeys {dial : Dial} (hk : k ≤ 2) :
    Obeys Mutex.rank throws k (retryTimer S env dial) :=
  .bind (.act _) fun _ => connectToPeer_obeys hk

theorem accepted_obeys {remote : Option (String × UInt16)} (hk : k ≤ 2) :
    Obeys Mutex.rank throws k (accepted S remote) := by
  refine .bind (locked_obeys hk.step) fun _ => .guarded (dropLowestScore_obeys hk) fun _ => ?_
  refine .bind (locked_obeys hk.step) fun _ => .ite (.act _) (.bind (.act _) fun p => ?_)
  refine .bind (.act _) fun _ => .bind (locked_obeys hk.step) fun _ => ?_
  refine .bind (locked_obeys hk.step) fun _ => .bind (locked_obeys hk.step) fun _ => ?_
  exact .bind (locked_obeys hk) fun _ => .bind (sendNodeAnnounce_obeys hk) fun _ =>
    refreshMetrics_obeys hk

/-! ## Gossip and heartbeat -/

theorem connectToEndpoint_obeys {endpoint : String} (hk : k ≤ 2) :
    Obeys Mutex.rank throws k (connectToEndpoint S env endpoint) := by
  unfold connectToEndpoint
  split
  · exact connectToPeer_obeys hk
  · exact .pure _

theorem attemptRandomPeerExpansion_obeys (hk : k ≤ 2) :
    Obeys Mutex.rank throws k (attemptRandomPeerExpansion S env) := by
  refine .bind (locked_obeys hk.step) fun _ => .ite (.pure _) ?_
  refine .bind (locked_obeys hk) fun _ => .bind (locked_obeys hk.step) fun _ => ?_
  exact .bind (locked_obeys hk.step) fun peers =>
    .forEach (fun _ => connectToEndpoint_obeys hk) peers

theorem isDiscovered_obeys {endpoint : String} (hk : k ≤ 2) :
    Obeys Mutex.rank throws k (isDiscovered S env endpoint) := by
  refine .bind (locked_obeys hk.step) fun _ => .ite (.pure _) ?_
  split
  · exact .pure _
  · refine .ite (.pure _) (.bind (locked_obeys hk.step) fun _ => ?_)
    exact .bind (locked_obeys hk.step) fun _ => .pure _

/-- The induction is on the list of endpoints that came. -/
theorem discovered_obeys (items : List Json) (hk : k ≤ 2) :
    Obeys Mutex.rank throws k (discovered S env items) := by
  induction items with
  | nil => exact .pure _
  | cons item rest ih =>
    cases item with
    | string endpoint => exact .bind (isDiscovered_obeys hk) fun _ => .bind ih fun _ => .pure _
    | _ => exact ih

theorem handleReceivedPeers_obeys {payload : Json} (hk : k ≤ 2) :
    Obeys Mutex.rank throws k (handleReceivedPeers S env payload) := by
  cases payload with
  | array items =>
    refine .bind (discovered_obeys items hk) fun found => .bind (locked_obeys hk.step) fun _ => ?_
    refine .bind (.forEach (fun _ => locked_obeys hk.step) found) fun _ => ?_
    exact .bind (attemptRandomPeerExpansion_obeys hk) fun _ => refreshMetrics_obeys hk
  | _ => exact .pure _

theorem gossip_obeys (hk : k ≤ 2) : Obeys Mutex.rank throws k (gossip S env) := by
  refine .bind (.bind (locked_obeys hk.step) fun _ => broadcast_obeys hk) fun _ => ?_
  refine .bind (attemptRandomPeerExpansion_obeys hk) fun _ => ?_
  exact .bind (locked_obeys hk.step) fun _ => refreshMetrics_obeys hk

theorem connectToBootstrapPeers_obeys (hk : k ≤ 2) :
    Obeys Mutex.rank throws k (connectToBootstrapPeers S env) :=
  .bind (locked_obeys hk.step) fun peers => .forEach (fun _ => connectToEndpoint_obeys hk) peers

theorem dropClosed_obeys (hk : k ≤ 2) : Obeys Mutex.rank throws k dropClosed := by
  refine .withLock hk (.bind (.act _) fun peers => .bind (.forEach (fun p => ?_) peers) fun _ =>
    .act _)
  refine .bind (.act _) fun _ => .ite (.bind (.act _) fun _ => ?_) (.pure _)
  exact locked_obeys (Nat.le_refl _)

/-- Called under `peersMutex_`. -/
theorem closeTimedOut_obeys {endpoint : String} (hk : k ≤ 3) :
    Obeys Mutex.rank throws k (closeTimedOut S env endpoint) := by
  refine .bind (.act _) fun peers => .bind (.forEach (fun p => ?_) peers) fun _ => locked_obeys hk
  exact .bind (.act _) fun _ => .ite (.bind (.act _) fun _ => locked_obeys hk) (.pure _)

/-- The list is copied, so nothing is held while pings are sent; one guard
serves all connections that are overdue. -/
theorem heartbeat_obeys (hk : k ≤ 2) : Obeys Mutex.rank throws k (heartbeat S env) := by
  refine .bind (dropClosed_obeys hk) fun snapshot =>
    .bind (.forEach (fun p => ?_) snapshot) fun _ => ?_
  · -- the pings go out from a copy of the list
    exact .bind (.act _) fun _ => .bind (locked_obeys hk.step) fun _ => locked_obeys hk.step
  · refine .bind (locked_obeys hk.step) fun timedOut => .guarded ?_ fun _ => refreshMetrics_obeys hk
    exact .withLock hk (.forEach (fun _ => closeTimedOut_obeys (Nat.le_refl _)) timedOut)

/-! ## `handleMessage` -/

theorem learnEndpoint_obeys {endpoint : String} (hk : k ≤ 3) :
    Obeys Mutex.rank throws k (learnEndpoint endpoint) :=
  .bind (locked_obeys hk) fun _ => locked_obeys hk

theorem onRequestBootstrap_obeys {p : PeerId} (hk : k ≤ 3) :
    Obeys Mutex.rank throws k (onRequestBootstrap env p) :=
  .bind (locked_obeys hk) fun _ => locked_obeys hk

theorem announced_obeys {p : PeerId} {publicIp endpoint : String} {peerPort : UInt16}
    (hk : k ≤ 3) : Obeys Mutex.rank throws k (announced env p publicIp peerPort endpoint) := by
  -- what is done with the endpoint comes last, with and without an address
  have hendpoint : Obeys Mutex.rank throws k
      (if endpoint ≠ "" then learnEndpoint endpoint else pure ()) :=
    .ite (learnEndpoint_obeys hk) (.pure _)
  refine .ite ?_ hendpoint
  refine .bind (.act _) fun _ => .bind (locked_obeys hk) fun _ => ?_
  exact .bind (learnEndpoint_obeys hk) fun _ => hendpoint

theorem registered_obeys {p : PeerId} {endpoint : String} (hk : k ≤ 3) :
    Obeys Mutex.rank throws k (registered env p endpoint) := by
  have hreply : Obeys Mutex.rank throws k (onRequestBootstrap env p) :=
    onRequestBootstrap_obeys hk
  refine .ite (.bind (locked_obeys hk) fun _ => ?_) hreply
  exact .bind (locked_obeys hk) fun _ => hreply

/-- The handlers without a `try` let the exceptions of `value()` out. -/
theorem onNodeAnnounce_obeys {p : PeerId} {payload : Json} (hk : k ≤ 3) :
    Obeys Mutex.rank True k (onNodeAnnounce env p payload) := by
  refine .bind (.liftExcept _) fun publicIp => .bind (.liftExcept _) fun port => ?_
  exact .bind (.liftExcept _) fun _ => announced_obeys hk

theorem onRegisterNode_obeys {p : PeerId} {payload : Json} (hk : k ≤ 3) :
    Obeys Mutex.rank True k (onRegisterNode env p payload) :=
  .bind (.liftExcept _) fun _ => registered_obeys hk

/-- Whatever is thrown while a transaction is taken in is caught. -/
theorem onNewTransaction_obeys {p : PeerId} {peerKey : String} {payload : Json} :
    Obeys Mutex.rank throws 0 (onNewTransaction S env p peerKey payload) := by
  refine .attempt ?_ (penalizePeerByEndpoint_obeys (Nat.zero_le _))
  -- the guard of the seen identifiers ends before the ledger is called
  refine .bind (.liftExcept _) fun tx => .bind (locked_obeys (Nat.zero_le _)) fun _ => ?_
  refine .ite (.bind callLedger_obeys fun accepted => .ite ?_ ?_) (.pure _)
  · exact .bind (rewardPeerByEndpoint_obeys (Nat.zero_le _)) fun _ =>
      broadcast_obeys (Nat.zero_le _)
  · exact penalizePeerByEndpoint_obeys (Nat.zero_le _)

theorem offerBlock_obeys {p : PeerId} {block : Block} :
    Obeys Mutex.rank True 0 (offerBlock S env p block) := by
  refine .bind (locked_obeys (Nat.le_refl _)) fun chain => .ite callLedger_obeys ?_
  exact .guarded (locked_obeys (Nat.zero_le _)) fun _ => .pure _

/-- The block goes through what was seen, the ledger and the scores in this
order. -/
theorem onNewBlock_obeys {p : PeerId} {peerKey : String} {payload : Json} :
    Obeys Mutex.rank throws 0 (onNewBlock S env p peerKey payload) := by
  refine .attempt ?_ (penalizePeerByEndpoint_obeys (Nat.zero_le _))
  refine .bind (.liftExcept _) fun block => ?_
  refine .bind (locked_obeys (Nat.zero_le _)) fun _ => ?_
  refine .ite (.bind offerBlock_obeys fun accepted => .ite ?_ (.pure _)) (.pure _)
  exact .bind (rewardPeerByEndpoint_obeys (Nat.zero_le _)) fun _ => broadcast_obeys (Nat.zero_le _)

theorem onRequestChain_obeys {p : PeerId} : Obeys Mutex.rank throws 0 (onRequestChain p) :=
  .bind (locked_obeys (Nat.le_refl _)) fun _ => locked_obeys (Nat.zero_le _)

theorem onResponseChain_obeys {peerKey : String} {payload : Json} :
    Obeys Mutex.rank throws 0 (onResponseChain S env peerKey payload) := by
  refine .attempt ?_ (penalizePeerByEndpoint_obeys (Nat.zero_le _))
  refine .bind (.liftExcept _) fun newChain => .bind callLedger_obeys fun replaced => ?_
  exact .ite (rewardPeerByEndpoint_obeys (Nat.zero_le _)) (.pure _)

theorem onRequestPeers_obeys {p : PeerId} (hk : k ≤ 3) :
    Obeys Mutex.rank throws k (onRequestPeers S env p) := by
  refine .bind (locked_obeys hk) fun _ => .bind (locked_obeys hk) fun _ => ?_
  exact .bind (locked_obeys hk) fun _ => locked_obeys hk

/-- Every message but an announcement and a registration is handled without an
exception. -/
theorem dispatch_obeys_of_guarded {p : PeerId} {peerKey : String} {msg : Message}
    (hannounce : msg.type ≠ .nodeAnnounce) (hregister : msg.type ≠ .registerNode) :
    Obeys Mutex.rank throws 0 (dispatch S env p peerKey msg) := by
  unfold dispatch
  -- in the order of the `switch`
  split
  next h => exact absurd h hannounce
  next h => exact absurd h hregister
  · exact onRequestBootstrap_obeys (Nat.zero_le _)
  · exact handleReceivedPeers_obeys (Nat.zero_le _)
  · exact onNewTransaction_obeys
  · exact onNewBlock_obeys
  · exact onRequestChain_obeys
  · exact onResponseChain_obeys
  · exact locked_obeys (Nat.zero_le _)
  · exact locked_obeys (Nat.zero_le _)
  · exact onRequestPeers_obeys (Nat.zero_le _)
  · exact handleReceivedPeers_obeys (Nat.zero_le _)
  · exact handleReceivedPeers_obeys (Nat.zero_le _)
  · exact .pure _

/-- One case for each message type; what the handlers throw may get out. -/
theorem dispatch_obeys {p : PeerId} {peerKey : String} {msg : Message} :
    Obeys Mutex.rank True 0 (dispatch S env p peerKey msg) := by
  by_cases hannounce : msg.type = .nodeAnnounce
  · rw [dispatch, hannounce]
    exact onNodeAnnounce_obeys (Nat.zero_le _)
  by_cases hregister : msg.type = .registerNode
  · rw [dispatch, hregister]
    exact onRegisterNode_obeys (Nat.zero_le _)
  exact dispatch_obeys_of_guarded hannounce hregister

/-- The message cache comes before the handlers and holds nothing while they
run. -/
theorem handleAdmitted_obeys {p : PeerId} {peerKey : String} {msg : Message} :
    Obeys Mutex.rank True 0 (handleAdmitted S env p peerKey msg) := by
  refine .bind (isDuplicate_obeys (Nat.zero_le _)) fun duplicate => .ite (.pure _) ?_
  refine .bind (locked_obeys (Nat.zero_le _)) fun _ => .bind dispatch_obeys fun _ => ?_
  exact refreshMetrics_obeys (Nat.zero_le _)

end NodeM

/-- Timers and completions. -/
theorem react_obeys {S : NodeSetup} {env : Env} {throws : Prop} {input : NodeInput}
    (hinput : ∀ p msg, input ≠ .message p msg) :
    Obeys Mutex.rank throws 0 (react S env input) := by
  cases input with
  | message p msg => exact absurd rfl (hinput p msg)
  | heartbeat => exact heartbeat_obeys (Nat.zero_le _)
  | gossip => exact gossip_obeys (Nat.zero_le _)
  | rotation => exact attemptRandomPeerExpansion_obeys (Nat.zero_le _)
  | accepted remote => exact accepted_obeys (Nat.zero_le _)
  | dialConnected dial remote => exact dialConnected_obeys (Nat.zero_le _)
  | dialFailed dial => exact dialFailed_obeys (Nat.zero_le _)
  | retryTimer dial => exact retryTimer_obeys (Nat.zero_le _)
  | bootstrap => exact connectToBootstrapPeers_obeys (Nat.zero_le _)
  | requestChain => exact broadcast_obeys (Nat.zero_le _)

end PersonalBlockchain
