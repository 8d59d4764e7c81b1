import PersonalBlockchain.Model.Steps
import PersonalBlockchain.P2P.Changes

/-!
# Personal blockchain — what the handlers change

One lemma for each function of the node, `f_touches`: of which kinds its changes
are, for whatever set `K` of kinds includes them. `quiet` is in every such set. What
each kind of change keeps, the handlers keep; so an invariant of the node needs one
lemma for each kind and none for the functions.

Where it matters that a change happens only once or under a condition, the lemma
says more: `accepted_once` and `dialConnected_once` for a connection that is opened,
`quiet_of_free` for the slots.
-/

namespace PersonalBlockchain

open Std Locking Routine NodeM

namespace NodeM

variable {S : NodeSetup} {env : Env} {K : Set NodeChange} {held : List Mutex} {p : PeerId}
  {endpoint : String}

/-! ## Single steps -/

/-- A step that is quiet. -/
theorem act_touches {α : Type} {f : Node → α × Node} (hq : .quiet ∈ K)
    (h : ∀ node, Quiet node (f node).2) : Touches S env K held (act f) :=
  .act fun node _ => ⟨.quiet, hq, h node⟩

theorem read_touches {α : Type} {m : Mutex} {f : Node → α} :
    Touches S env K held (withLock m (read f)) := .withLock (.read f)

/-- One of the managers. -/
theorem tell_touches {m : Mutex} {f : Node → Node} (hq : .quiet ∈ K)
    (h : ∀ node, Quiet node (f node)) : Touches S env K held (withLock m (change f)) :=
  .withLock (act_touches hq h)

/-- A message to one connection; gossip goes to all of them and is a broadcast. -/
theorem send_touches {msg : Message} (hs : .send ∈ K) (hmsg : msg.isGossip = false) :
    Touches S env K held (send p msg) :=
  .withLock (.act fun _ _ => ⟨.send, hs, p, msg, hmsg, rfl⟩)

theorem refreshMetrics_touches (hq : .quiet ∈ K) : Touches S env K held refreshMetrics := by
  refine .bind read_touches fun _ => .bind (act_touches hq fun _ => .rest) fun _ => ?_
  refine .bind read_touches fun _ => .bind (act_touches hq fun _ => .rest) fun _ => ?_
  exact .bind read_touches fun _ => act_touches hq fun _ => .rest

/-- The write queues come after `peersMutex_`. -/
theorem broadcast_run {msg : Message} {exclude : Option PeerId} {node : Node}
    (hheld : ∀ m ∈ held, m.rank < 2) :
    broadcast msg exclude held node = (.returned (), node.broadcasted msg exclude) := by
  -- the locks of the peers and of their queues come after all that is held
  have hpeers : Mutex.peers ∉ held := fun hm => absurd (hheld _ hm) (Nat.lt_irrefl 2)
  have hwrite : ∀ p, Mutex.write p ∉ Mutex.peers :: held := by
    intro p hm
    rcases List.mem_cons.mp hm with heq | hm
    · cases heq
    · exact absurd (hheld _ hm) (Nat.not_lt.mpr (Nat.le_succ 2))
  rw [broadcast, bind_run rfl, withLock_run hpeers, bind_run rfl]
  refine forEach_run (fun p node => ?_) _ _
  rw [bind_run rfl, ite_run]
  split
  · exact withLock_run (hwrite p)
  · rfl

/-- A broadcast is one change, though it fills many queues. -/
theorem broadcast_touches {msg : Message} {exclude : Option PeerId} (hb : .broadcast msg ∈ K)
    (hheld : ∀ m ∈ held, m.rank < 2) : Touches S env K held (broadcast msg exclude) := by
  intro node
  rw [broadcast_run hheld]
  exact .single fun _ => ⟨.broadcast msg, hb, exclude, rfl⟩

/-! ## Scores -/

theorem rewardPeerByEndpoint_touches {reward : Int} (hq : .quiet ∈ K)
    (hr : .reward endpoint ∈ K) (hreward : 0 ≤ reward := by decide) :
    Touches S env K held (rewardPeerByEndpoint endpoint reward) :=
  .bind (.withLock (.act fun _ _ => ⟨_, hr, reward, hreward, rfl⟩)) fun _ =>
    refreshMetrics_touches hq

/-- The block of `penalizePeerByEndpoint` under the guard of `peersMutex_`. -/
def closeBanned (S : NodeSetup) (env : Env) (endpoint : String) : NodeM Unit :=
  withLock .peers do
    let first ← read fun node =>
      node.peers.find? fun p => (node.connection p).getEndpoint = endpoint
    match first with
    | some p => do
      closePeer p
      tellPeerManager
        (PeerManager.quarantinePeer env.steady endpoint S.options.timeouts.quarantineSec)
      tellConnections (ConnectionManager.unregisterConnection endpoint)
    | none => pure ()

/-- A penalty is the scorer's answer and, when it says that the peer is banned,
the block under the guard. -/
theorem penalizePeerByEndpoint_eq {penalty : Int} :
    penalizePeerByEndpoint S env endpoint penalty = (do
      let banned ← withLock .scorer (act fun node =>
        let r := node.peerScorer.penalizePeer endpoint penalty
        (r.1, { node with peerScorer := r.2 }))
      if banned then closeBanned S env endpoint
      refreshMetrics : NodeM Unit) := rfl

/-- The connection that a ban closes has the endpoint that it unregisters. -/
theorem closeBanned_touches (hs : .shut endpoint ∈ K) :
    Touches S env K [] (closeBanned S env endpoint) := by
  refine .withLock (.read_bind fun node => ?_)
  -- the first listed connection of that endpoint is closed, if there is one
  cases hfirst : node.peers.find? fun p => (node.connection p).getEndpoint = endpoint with
  | none => exact .refl
  | some p =>
    have hp : (node.connection p).getEndpoint = endpoint := by
      simpa using List.find?_some hfirst
    refine .single fun _ => ⟨.shut endpoint, hs, fun q => q = p, ?_, ?_⟩
    · intro q hq
      rw [of_decide_eq_true hq, hp]
    · refine ⟨rfl, funext fun q => ?_, rfl, rfl, rfl, rfl, rfl, rfl, rfl, fun _ => rfl,
        fun _ => rfl⟩
      show (if q = p then _ else _ : Peer) = (if decide (q = p) = true then _ else _ : Peer)
      simp only [decide_eq_true_eq]

theorem penalizePeerByEndpoint_touches {penalty : Int} (hq : .quiet ∈ K)
    (hp : .penalize endpoint ∈ K) (hs : .shut endpoint ∈ K)
    (hpenalty : penalty ≤ 0 := by decide) :
    Touches S env K [] (penalizePeerByEndpoint S env endpoint penalty) := by
  rw [penalizePeerByEndpoint_eq]
  exact .bind (.withLock (.act fun _ _ => ⟨_, hp, penalty, hpenalty, rfl⟩)) fun _ =>
    .guarded (closeBanned_touches hs) fun _ => refreshMetrics_touches hq

/-! ## What was seen, and the ledger -/

theorem alreadySeenTx_touches {txID : String} (hs : .see ∈ K) :
    Touches S env K held (alreadySeenTx txID) := by
  refine .withLock (.act fun node _ => ⟨.see, hs, ?_⟩)
  split
  · exact ⟨_, _, rfl⟩
  · exact ⟨_, _, rfl⟩

theorem alreadySeenBlock_touches {hash : String} (hs : .see ∈ K) :
    Touches S env K held (alreadySeenBlock hash) := by
  refine .withLock (.act fun node _ => ⟨.see, hs, ?_⟩)
  split
  · exact ⟨_, _, rfl⟩
  · exact ⟨_, _, rfl⟩

theorem isDuplicate_touches {msg : Message} (hr : .remember ∈ K) :
    Touches S env K held (isDuplicate S env msg) := by
  refine .ite (.pure _) (.withLock (.act fun node _ => ⟨.remember, hr, ?_⟩))
  dsimp only
  split
  · exact ⟨_, rfl⟩
  · exact ⟨_, rfl⟩

theorem broadcastTransaction_touches {tx : Transaction} (hs : .see ∈ K)
    (hb : .broadcast { type := .newTransaction, payload := tx.toJson } ∈ K)
    (hheld : ∀ m ∈ held, m.rank < 2) : Touches S env K held (broadcastTransaction tx) :=
  .bind (alreadySeenTx_touches hs) fun _ => .ite (broadcast_touches hb hheld) (.pure _)

theorem broadcastBlock_touches {block : Block} (hs : .see ∈ K)
    (hb : .broadcast { type := .newBlock, payload := block.toJson } ∈ K)
    (hheld : ∀ m ∈ held, m.rank < 2) : Touches S env K held (broadcastBlock block) :=
  .bind (alreadySeenBlock_touches hs) fun _ => .ite (broadcast_touches hb hheld) (.pure _)

/-- What is stored is quiet. -/
theorem runEffect_touches {effect : Effect} (hq : .quiet ∈ K)
    (hblock : ∀ block, effect ≠ .onBlockAdded block) (htx : ∀ tx, effect ≠ .onTransactionAdded tx) :
    Touches S env K held (runEffect S effect) := by
  cases effect with
  | saveChain chain => exact .withLock (act_touches hq fun _ => .rest)
  | appendBlock block =>
    refine .withLock (.bind (.read _) fun storage => ?_)
    cases storage with
    | none => exact .pure _
    | some dir => exact .bind (.liftExcept _) fun _ => act_touches hq fun _ => .rest
  | onBlockAdded block => exact absurd rfl (hblock block)
  | onTransactionAdded tx => exact absurd rfl (htx tx)
  | onBlockAccepted block => exact .pure _

theorem callLedger_touches {α : Type} {f : Blockchain → Outcome α} (hl : .ledger ∈ K)
    (heffects : ∀ bc, ∀ effect ∈ (f bc).effects,
      Touches S env K [.blockchain] (runEffect S effect)) :
    Touches S env K [] (callLedger S f) :=
  .withLock (.act_bind (fun _ _ => ⟨.ledger, hl, _, rfl⟩) fun node =>
    .bind (.forEach (heffects node.blockchain)) fun _ => .pure _)

/-- A transaction that is taken in is passed on by the callback. -/
theorem callLedger_addTransaction_touches {tx : Transaction} (hl : .ledger ∈ K) (hs : .see ∈ K)
    (hb : .broadcast { type := .newTransaction, payload := tx.toJson } ∈ K) :
    Touches S env K [] (callLedger S fun bc => bc.addTransaction S.cfg env.now tx) := by
  refine callLedger_touches hl fun bc effect heffect => ?_
  rcases Blockchain.addTransaction_cases S.cfg env.now tx bc with h | ⟨-, h⟩
  · rw [h] at heffect
    exact absurd heffect List.not_mem_nil
  · rw [h, List.mem_singleton] at heffect
    subst heffect
    -- the callback runs under the mutex of the ledger
    exact broadcastTransaction_touches hs hb (by simp [Mutex.rank])

/-- A block that comes from a peer is not passed on by the ledger. -/
theorem callLedger_acceptBlock_touches {block : Block} (hq : .quiet ∈ K) (hl : .ledger ∈ K) :
    Touches S env K [] (callLedger S fun bc => bc.acceptBlock S.cfg env.now block) := by
  refine callLedger_touches hl fun bc effect heffect => runEffect_touches hq ?_ ?_
  all_goals
    rcases Blockchain.acceptBlock_cases S.cfg env.now block bc with h | h
    · rw [h] at heffect
      exact absurd heffect List.not_mem_nil
    · rw [Blockchain.acceptBlock_of h] at heffect
      intro item heq
      simp [heq] at heffect

/-- A chain that is taken over is stored and not passed on. -/
theorem callLedger_replaceChain_touches {newChain : List Block} (hq : .quiet ∈ K)
    (hl : .ledger ∈ K) :
    Touches S env K [] (callLedger S fun bc => bc.replaceChain S.cfg env.now newChain) := by
  refine callLedger_touches hl fun bc effect heffect => runEffect_touches hq ?_ ?_
  all_goals
    rcases Blockchain.replaceChain_cases S.cfg env.now newChain bc with h | h
    · rw [h] at heffect
      exact absurd heffect List.not_mem_nil
    · rw [Blockchain.replaceChain_of h] at heffect
      intro item heq
      simp [heq] at heffect

/-! ## Dialling and accepting -/

/-- A connection is closed, or none. -/
def Closes (node node' : Node) : Prop :=
  node' = node ∨ ∃ p, node' = node.updatePeer p Peer.close

theorem scores_reads {r : Node → Node → Prop} (peers : List String) :
    Within r held (connectedPeerScores.scores peers) := by
  induction peers with
  | nil => exact .pure _
  | cons endpoint rest ih =>
    exact .bind (.withLock (.read _)) fun _ => .bind ih fun _ => .pure _

theorem dropLowestScore_closes : Within Closes held dropLowestScore := by
  refine .bind (.bind (.withLock (.read _)) fun peers => scores_reads peers) fun scores => ?_
  refine .ite (.withLock (.act fun node => ?_)) (.pure _)
  dsimp only
  split
  next p _ => exact .inr ⟨p, rfl⟩
  next => exact .inl rfl

/-- What is closed for want of a slot leaves the slots as they are. -/
theorem closes_steps {direction : ConnectionDirection} {node node' : Node}
    (hc : .close direction ∈ K) (hfull : node.connectionManager.canAccept direction = false)
    (h : Relation.ReflTransGen Closes node node') :
    Relation.ReflTransGen (OneOf S env.steady K) node node' := by
  suffices hmain : Relation.ReflTransGen (OneOf S env.steady K) node node' ∧
      node'.connectionManager = node.connectionManager from hmain.1
  induction h with
  | refl => exact ⟨.refl, rfl⟩
  | tail _ hstep ih =>
    rcases hstep with rfl | ⟨p, rfl⟩
    · exact ih
    · exact ⟨ih.1.tail fun _ => ⟨.close direction, hc, ih.2 ▸ hfull, p, rfl⟩, ih.2⟩

/-- At most one connection is closed, and only while no slot is free. -/
theorem freeOutboundSlot_touches (hc : .close .outbound ∈ K) :
    Touches S env K held freeOutboundSlot := by
  refine .ask fun node => ?_
  rw [ite_run]
  split
  · exact .refl
  next hfull =>
    exact Within.bind_at
      (closes_steps hc (Bool.eq_false_of_not_eq_true hfull) (dropLowestScore_closes node))
      fun _ => read_touches

theorem connectToPeer_touches {dial : Dial} (hq : .quiet ∈ K) (hc : .close .outbound ∈ K) :
    Touches S env K held (connectToPeer S env dial) := by
  refine .ite (.pure _) (.bind read_touches fun _ => .ite (.pure _) ?_)
  refine .bind read_touches fun _ => .ite (.pure _) ?_
  refine .bind read_touches fun _ => .ite (.pure _) ?_
  refine .bind read_touches fun _ => .ite (.pure _) ?_
  refine .bind (freeOutboundSlot_touches hc) fun _ => .ite ?_ (act_touches hq fun _ => .rest)
  exact .bind (tell_touches hq fun _ => .rest) fun _ => act_touches hq fun _ => .rest

theorem connectToEndpoint_touches (hq : .quiet ∈ K) (hc : .close .outbound ∈ K) :
    Touches S env K held (connectToEndpoint S env endpoint) := by
  unfold connectToEndpoint
  split
  · exact connectToPeer_touches hq hc
  · exact .pure _

theorem retryConnect_touches {dial : Dial} (hq : .quiet ∈ K) :
    Touches S env K held (retryConnect S env dial) :=
  .ite (tell_touches hq fun _ => .rest) (act_touches hq fun _ => .rest)

theorem sendNodeAnnounce_touches (hs : .send ∈ K) :
    Touches S env K held (sendNodeAnnounce S p) :=
  .bind read_touches fun _ => send_touches hs rfl

/-- The endpoint of a connection that has just been accepted. -/
def acceptedEndpoint (remote : Option (String × UInt16)) : String :=
  Peer.getEndpoint { remote := remote }

theorem newPeer_endpoint {remote : Option (String × UInt16)} {node : Node} :
    ((node.updatePeer node.nextPeer fun _ => { remote := remote }).connection
      node.nextPeer).getEndpoint = acceptedEndpoint remote := by
  unfold Node.updatePeer
  dsimp only
  rw [if_pos rfl, acceptedEndpoint]

/-- A connection that is accepted is opened once, after others may have been
closed. What comes before it only makes room, and what comes after it greets. -/
theorem accepted_once {remote : Option (String × UInt16)} {node : Node} :
    Once S env.steady {.quiet, .close .inbound}
      (.open remote 0 (acceptedEndpoint remote) .inbound) {.quiet, .send} node
      (accepted S remote [] node).2 := by
  -- from the second look at the slots on
  have hrest : ∀ node, Once S env.steady {.quiet, .close .inbound}
      (.open remote 0 (acceptedEndpoint remote) .inbound) {.quiet, .send} node ((do
      let free ← askConnections (ConnectionManager.canAccept .inbound)
      if !free then tellMetrics fun m => { m with rejectedPeers := m.rejectedPeers + 1 }
      else do
        let p ← newPeer remote 0
        let endpoint ← getEndpoint p
        tellPeerManager (PeerManager.addKnownPeer endpoint)
        tellBootstrap (BootstrapManager.registerPeer endpoint)
        tellConnections (ConnectionManager.registerConnection endpoint .inbound)
        pushPeer p
        sendNodeAnnounce S p
        refreshMetrics : NodeM Unit) [] node).2 := by
    intro node
    rw [askConnections, bind_run (withLock_run List.not_mem_nil), ite_run]
    split
    · exact .inl (.single fun _ => ⟨.quiet, .inl rfl, .rest⟩)
    next hfree =>
    refine .inr ⟨node, _, .refl, ⟨fun _ => by simpa using hfree, ?_⟩, (show Touches S env
      {.quiet, .send} [] (do
      sendNodeAnnounce S node.nextPeer
      refreshMetrics) from
        .bind (sendNodeAnnounce_touches (by simp)) fun _ => refreshMetrics_touches (by simp)) _⟩
    refine ⟨rfl, rfl, rfl, rfl, ?_, rfl, rfl, rfl, rfl, fun _ => rfl, fun _ => rfl⟩
    show node.connectionManager.registerConnection _ .inbound = _
    exact congrArg (fun key => node.connectionManager.registerConnection key .inbound)
      newPeer_endpoint
  rw [accepted, askConnections, bind_run (withLock_run List.not_mem_nil), ite_run]
  split
  next hfull =>
    have hfull' : node.connectionManager.canAccept .inbound = false := by simpa using hfull
    have hcloses : Relation.ReflTransGen (OneOf S env.steady {.quiet, .close .inbound}) node
        (dropLowestScore [] node).2 :=
      closes_steps (.inr rfl) hfull' (dropLowestScore_closes node)
    rcases hrun : dropLowestScore [] node with ⟨ending, mid⟩
    rw [hrun] at hcloses
    cases ending with
    | returned u =>
      rw [bind_run hrun]
      exact (hrest mid).imp hcloses.trans fun ⟨first, last, hfirst, hrest⟩ =>
        ⟨first, last, hcloses.trans hfirst, hrest⟩
    | threw e => exact .inl ((bind_run_threw hrun).symm ▸ hcloses)
    | selfDeadlock m => exact .inl ((bind_run_selfDeadlock hrun).symm ▸ hcloses)
  next => exact hrest node

theorem accepted_touches {remote : Option (String × UInt16)} (hq : .quiet ∈ K)
    (hc : .close .inbound ∈ K) (ho : .open remote 0 (acceptedEndpoint remote) .inbound ∈ K)
    (hs : .send ∈ K) : Touches S env K [] (accepted S remote) :=
  fun _ => accepted_once.steps (by simp [Set.insert_subset_iff, hq, hc]) ho
    (by simp [Set.insert_subset_iff, hq, hs])

/-- A dial that completes opens one connection, with the endpoint that was
dialled and not the one that the socket reports. -/
theorem dialConnected_once {dial : Dial} {remote : Option (String × UInt16)} {node : Node} :
    Once S env.steady {.quiet} (.open remote dial.port (makeEndpoint dial.host dial.port) .outbound)
      {.quiet, .enroll, .send} node (dialConnected S env dial remote [] node).2 := by
  -- the same whether the scorer knows of it before or after
  refine .inr ⟨{ node with dials := node.dials.erase dial }, _,
    .single fun _ => ⟨.quiet, rfl, .rest⟩,
    ⟨nofun, .rest⟩, .head (fun _ => ⟨.enroll, by simp, dial.host, dial.port, rfl⟩)
    ((show Touches S env {.quiet, .enroll, .send} [] (do
    sendNodeAnnounce S node.nextPeer
    let own ← identityEndpoint S
    send node.nextPeer {
      type := .registerNode
      payload := .object [("endpoint", .string own), ("nodeId", .string S.identity.nodeId)] }
    send node.nextPeer { type := .requestBootstrap }
    let requester ← identityEndpoint S
    send node.nextPeer {
      type := .requestPeers
      payload := .object
        [("nodeId", .string S.identity.nodeId), ("requester", .string requester)] }
    send node.nextPeer { type := .requestChain }
    refreshMetrics) from ?_) _)⟩
  have hs : NodeChange.send ∈ ({.quiet, .enroll, .send} : Set NodeChange) := by simp
  refine .bind (sendNodeAnnounce_touches hs) fun _ => .bind read_touches fun _ => ?_
  refine .bind (send_touches hs rfl) fun _ => .bind (send_touches hs rfl) fun _ => ?_
  refine .bind read_touches fun _ => .bind (send_touches hs rfl) fun _ => ?_
  exact .bind (send_touches hs rfl) fun _ => refreshMetrics_touches (by simp)

theorem dialConnected_touches {dial : Dial} {remote : Option (String × UInt16)}
    (hq : .quiet ∈ K) (he : .enroll ∈ K)
    (ho : .open remote dial.port (makeEndpoint dial.host dial.port) .outbound ∈ K)
    (hs : .send ∈ K) : Touches S env K [] (dialConnected S env dial remote) :=
  fun _ => dialConnected_once.steps (by simpa using hq) ho
    (by simp [Set.insert_subset_iff, hq, he, hs])

/-! ## Gossip -/

/-- While a slot is free, nothing is closed. -/
theorem quiet_of_free {node node' : Node}
    (h : Relation.ReflTransGen (OneOf S env.steady {.quiet, .close .outbound}) node node')
    (hlimited : node.Limited S) (hfree : node.connectionManager.canAccept .outbound = true) :
    Quiet node node' := by
  induction h with
  | refl => exact .refl node
  | tail _ hstep ih =>
    rw [Node.Limited, ← ih.connectionManager] at hlimited
    obtain ⟨c, hc | hc, hleads⟩ := hstep hlimited
    · subst hc
      exact ih.trans hleads
    · rw [Set.mem_singleton_iff] at hc
      subst hc
      rw [← ih.connectionManager, hleads.1] at hfree
      cases hfree

/-- The expansion stops at the limit of `connectToPeer`. -/
theorem attemptRandomPeerExpansion_touches (hq : .quiet ∈ K) :
    Touches S env K held (attemptRandomPeerExpansion S env) := by
  refine .ask fun node => ?_
  rw [ite_run]
  split
  · exact .refl
  -- a slot is free, so no dial has to close anybody
  next hfree =>
    refine .single fun hlimited => ⟨.quiet, hq, ?_⟩
    refine quiet_of_free ((show Touches S env _ held (do
      let connected ← getPeerList
      let own ← identityEndpoint S
      let peers ← askPeerManager (PeerManager.getRandomPeers env.steady env.shuffle
        (max (S.options.maxOutboundPeers - node.connectionManager.count .outbound) 2)
        (connected ++ [own]))
      forEach (connectToEndpoint S env) peers) from ?_) node) hlimited ?_
    · refine .bind read_touches fun _ => .bind read_touches fun _ => .bind read_touches fun _ => ?_
      exact .forEach fun _ _ => connectToEndpoint_touches (.inl rfl) (.inr rfl)
    · rw [ConnectionManager.canAccept, hlimited.1]
      exact decide_eq_true (Nat.not_le.mp hfree)

theorem discovered_reads {r : Node → Node → Prop} (items : List Json) :
    Within r held (discovered S env items) := by
  induction items with
  | nil => exact .pure _
  | cons item rest ih =>
    -- only strings are looked at, and they are looked up under locks
    cases item with
    | string endpoint =>
      refine .bind (.bind (.withLock (.read _)) fun own => .ite (.pure _) ?_) fun taken =>
        .bind ih fun _ => .pure _
      split
      · exact .pure _
      · exact .ite (.pure _) (.bind (.withLock (.read _)) fun _ =>
          .bind (.withLock (.read _)) fun _ => .pure _)
    | _ => exact ih

theorem handleReceivedPeers_touches {payload : Json} (hq : .quiet ∈ K) :
    Touches S env K held (handleReceivedPeers S env payload) := by
  cases payload with
  | array items =>
    refine .bind (discovered_reads items) fun found => ?_
    refine .bind (tell_touches hq fun _ => .rest) fun _ => ?_
    refine .bind (.forEach fun _ _ => tell_touches hq fun _ => .rest) fun _ => ?_
    exact .bind (attemptRandomPeerExpansion_touches hq) fun _ => refreshMetrics_touches hq
  | _ => exact .pure _

theorem requestPeersFromAll_touches (hheld : ∀ m ∈ held, m.rank < 2)
    (hb : ∀ payload, .broadcast { type := .requestPeers, payload := payload } ∈ K) :
    Touches S env K held (requestPeersFromAll S) :=
  .bind read_touches fun _ => broadcast_touches (hb _) hheld

theorem gossip_touches (hq : .quiet ∈ K) (he : .evict ∈ K)
    (hb : ∀ payload, .broadcast { type := .requestPeers, payload := payload } ∈ K) :
    Touches S env K [] (gossip S env) := by
  refine .bind (requestPeersFromAll_touches (by simp) hb) fun _ => ?_
  refine .bind (attemptRandomPeerExpansion_touches hq) fun _ => ?_
  exact .bind (.withLock (.act fun _ _ => ⟨_, he, 300, rfl⟩)) fun _ => refreshMetrics_touches hq

theorem connectToBootstrapPeers_touches (hq : .quiet ∈ K) (hc : .close .outbound ∈ K) :
    Touches S env K held (connectToBootstrapPeers S env) :=
  .bind read_touches fun _ => .forEach fun _ _ => connectToEndpoint_touches hq hc

/-! ## Heartbeat -/

/-- What `dropClosed` makes of one connection of the list. -/
def unregisterClosed (node : Node) (p : PeerId) : Node :=
  if (node.connection p).isOpen then node else node.unregistered (node.connection p).getEndpoint

theorem getEndpoint_of_closed {peer : Peer} (h : peer.isOpen = false) :
    peer.getEndpoint = "unknown" := by
  rw [Peer.getEndpoint, Peer.remoteEndpoint, if_neg (by simp [h])]

theorem unregistered_twice {node : Node} {key : String} :
    (node.unregistered key).unregistered key = node.unregistered key := by
  have hpeers : (node.connectionManager.peers.erase key).erase key =
      node.connectionManager.peers.erase key := by
    refine ExtTreeMap.ext_getElem? fun a => ?_
    simp only [FiniteMap.getElem?_erase_eq]
    split
    · rfl
    · rfl
  simp only [Node.unregistered, ConnectionManager.unregisterConnection, hpeers]

/-- Closed connections all answer "unknown" for their endpoint, so the loop
unregisters that endpoint, once or not at all. -/
theorem foldl_unregisterClosed (ps : List PeerId) (node : Node) :
    ps.foldl unregisterClosed node =
      if ∃ p ∈ ps, (node.connection p).isOpen = false then node.unregistered "unknown"
      else node := by
  induction ps generalizing node with
  | nil => simp
  | cons p ps ih =>
    rw [List.foldl_cons, unregisterClosed]
    by_cases hp : (node.connection p).isOpen = true
    · rw [if_pos hp, ih]
      simp [hp]
    -- a closed socket has no remote endpoint, so the key is the same for all of them
    · have hclosed : (node.connection p).isOpen = false := Bool.eq_false_of_not_eq_true hp
      rw [if_neg hp, getEndpoint_of_closed hclosed, ih,
        if_pos (⟨p, List.mem_cons_self, hclosed⟩ :
          ∃ q ∈ p :: ps, (node.connection q).isOpen = false)]
      split
      · exact unregistered_twice
      · rfl

/-- What is left is the list without the closed connections. What they give back
is the slot of the endpoint that a closed connection answers with. -/
theorem dropClosed_run {node : Node} :
    dropClosed [] node = (.returned node.cleaned.peers, node.cleaned) := by
  -- the loop is the fold over the listed connections
  have hloop : ∀ ps : List PeerId, ∀ node : Node, forEach (fun p => do
      let connected ← isConnected p
      if !connected then do
        let endpoint ← getEndpoint p
        tellConnections (ConnectionManager.unregisterConnection endpoint)) ps [.peers] node =
      (.returned (), ps.foldl unregisterClosed node) := by
    refine forEach_run fun p node => ?_
    rw [bind_run rfl, ite_run, unregisterClosed]
    by_cases hp : (node.connection p).isOpen = true
    · rw [if_pos hp, if_neg (by simp [hp])]
      rfl
    · rw [if_neg hp, if_pos (by simp [hp])]
      rfl
  rw [dropClosed, withLock_run List.not_mem_nil, bind_run rfl, bind_run (hloop _ _),
    foldl_unregisterClosed]
  unfold Node.cleaned
  split
  · rfl
  · rfl

theorem heartbeat_ping_touches (hp : .ping p ∈ K) :
    Touches S env K [] (do
      let endpoint ← getEndpoint p
      tellScorer (PeerScorer.markPingSent env.steady endpoint)
      send p { type := .ping }) :=
  fun _ => .single fun _ => ⟨.ping p, hp, rfl⟩

/-- What `closeTimedOut` makes of one connection of the list. -/
def closeOverdue (S : NodeSetup) (env : Env) (endpoint : String) (node : Node) (p : PeerId) :
    Node :=
  if (node.connection p).getEndpoint = endpoint then
    { node.updatePeer p Peer.close with
      peerManager := node.peerManager.quarantinePeer env.steady endpoint
        S.options.timeouts.quarantineSec }
  else node

/-- Only connections of the endpoint are closed. -/
theorem foldl_closeOverdue (node : Node) (ps : List PeerId) :
    ∃ closed : PeerId → Bool,
      (∀ p, closed p = true → (node.connection p).getEndpoint = endpoint) ∧
        Quiet (node.closing closed) (ps.foldl (closeOverdue S env endpoint) node) := by
  -- from the connections closed so far, one more at most
  suffices hmain : ∀ (node' : Node) (closed : PeerId → Bool),
      (∀ p, closed p = true → (node.connection p).getEndpoint = endpoint) →
      Quiet (node.closing closed) node' →
      ∃ closed' : PeerId → Bool,
        (∀ p, closed' p = true → (node.connection p).getEndpoint = endpoint) ∧
          Quiet (node.closing closed') (ps.foldl (closeOverdue S env endpoint) node') from
    hmain node (fun _ => false) (fun p hp => by cases hp) (.refl node)
  induction ps with
  | nil => exact fun node' closed hclosed hquiet => ⟨closed, hclosed, hquiet⟩
  | cons p ps ih =>
    intro node' closed hclosed hquiet
    rw [List.foldl_cons, closeOverdue]
    by_cases hp : (node'.connection p).getEndpoint = endpoint
    · rw [if_pos hp]
      refine ih _ (fun q => closed q || q = p) ?_ ?_
      · intro q hq
        rcases (Bool.or_eq_true _ _).mp hq with hq | hq
        · exact hclosed q hq
        · rw [of_decide_eq_true hq]
          by_cases hpc : closed p = true
          · exact hclosed p hpc
          · have hsame : (node.closing closed).connection p = node.connection p := if_neg hpc
            rw [← hsame, ← hquiet.connection, hp]
      · refine ⟨hquiet.blockchain, funext fun q => ?_, hquiet.nextPeer, hquiet.peers,
          hquiet.connectionManager, hquiet.seenTxIDs, hquiet.seenBlockHashes, hquiet.messageDedup,
          hquiet.broadcasts, hquiet.awaits, hquiet.standing⟩
        have hq := congrFun hquiet.connection q
        unfold Node.closing at hq ⊢
        unfold Node.updatePeer
        dsimp only at hq ⊢
        rw [hq]
        by_cases hqp : q = p
        · subst hqp
          rw [if_pos rfl, if_pos ((Bool.or_eq_true _ _).mpr (.inr (decide_eq_true rfl)))]
          by_cases hqc : closed q = true
          · rw [if_pos hqc]
            rfl
          · rw [if_neg hqc]
        · rw [if_neg hqp]
          exact if_congr (by simp [hqp]) rfl rfl
    · rw [if_neg hp]
      exact ih node' closed hclosed hquiet

theorem closeTimedOut_touches (hs : .shut endpoint ∈ K) :
    Touches S env K [.peers] (closeTimedOut S env endpoint) := by
  intro node
  -- the loop as a fold over the nodes it goes through
  have hloop : ∀ ps : List PeerId, ∀ node : Node, forEach (fun p => do
      let current ← getEndpoint p
      if current = endpoint then do
        closePeer p
        tellPeerManager (PeerManager.quarantinePeer env.steady endpoint
          S.options.timeouts.quarantineSec)) ps [.peers] node =
      (.returned (), ps.foldl (closeOverdue S env endpoint) node) := by
    refine forEach_run fun p node => ?_
    rw [bind_run rfl, ite_run, closeOverdue]
    split
    · rfl
    · rfl
  obtain ⟨closed, hclosed, hquiet⟩ : ∃ closed : PeerId → Bool,
      (∀ p, closed p = true → (node.connection p).getEndpoint = endpoint) ∧
        Quiet (node.closing closed) (node.peers.foldl (closeOverdue S env endpoint) node) :=
    foldl_closeOverdue node node.peers
  rw [closeTimedOut, bind_run rfl, bind_run (hloop _ _)]
  refine .single fun _ => ⟨.shut endpoint, hs, closed, hclosed, ?_⟩
  exact ⟨hquiet.blockchain, hquiet.connection, hquiet.nextPeer, hquiet.peers,
    congrArg (ConnectionManager.unregisterConnection endpoint) hquiet.connectionManager,
    hquiet.seenTxIDs, hquiet.seenBlockHashes, hquiet.messageDedup, hquiet.broadcasts,
    hquiet.awaits, hquiet.standing⟩

/-- The closed connections are dropped, the others pinged, and those that have
not answered are closed. -/
theorem heartbeat_touches (hq : .quiet ∈ K) (hc : .clean ∈ K) (hp : ∀ p, .ping p ∈ K)
    (hs : ∀ key, .shut key ∈ K) : Touches S env K [] (heartbeat S env) := by
  refine .bind (fun node => ?_) fun snapshot =>
    .bind (.forEach fun p _ => heartbeat_ping_touches (hp p)) fun _ => ?_
  · rw [dropClosed_run]
    exact .single fun _ => ⟨.clean, hc, rfl⟩
  · refine .bind read_touches fun timedOut => .guarded ?_ fun _ => refreshMetrics_touches hq
    exact .withLock (.forEach fun key _ => closeTimedOut_touches (hs key))

/-! ## `handleMessage` -/

theorem learnEndpoint_touches (hq : .quiet ∈ K) : Touches S env K held (learnEndpoint endpoint) :=
  .bind (tell_touches hq fun _ => .rest) fun _ => tell_touches hq fun _ => .rest

theorem onRequestBootstrap_touches (hs : .send ∈ K) :
    Touches S env K held (onRequestBootstrap env p) :=
  .bind read_touches fun _ => send_touches hs rfl

/-- An announcement sets the listening port and enlists the endpoint. -/
theorem onNodeAnnounce_touches {payload : Json} (hq : .quiet ∈ K) (he : .enroll ∈ K)
    (hl : ∀ port, .listenPort p port ∈ K) :
    Touches S env K held (onNodeAnnounce env p payload) := by
  refine .bind (.liftExcept _) fun publicIp => .bind (.liftExcept _) fun port =>
    .bind (.liftExcept _) fun endpoint => ?_
  have hendpoint : Touches S env K held
      (if endpoint ≠ "" then learnEndpoint endpoint else pure ()) :=
    .ite (learnEndpoint_touches hq) (.pure _)
  refine .ite (.bind (.act fun _ _ => ⟨_, hl _, rfl⟩) fun _ => ?_) hendpoint
  exact .bind (.withLock (.act fun _ _ => ⟨_, he, _, _, rfl⟩)) fun _ =>
    .bind (learnEndpoint_touches hq) fun _ => hendpoint

theorem onRegisterNode_touches {payload : Json} (hq : .quiet ∈ K) (hs : .send ∈ K) :
    Touches S env K held (onRegisterNode env p payload) := by
  refine .bind (.liftExcept _) fun endpoint => ?_
  have hreply : Touches S env K held (onRequestBootstrap env p) := onRequestBootstrap_touches hs
  refine .ite (.bind (tell_touches hq fun _ => .rest) fun _ => ?_) hreply
  exact .bind (tell_touches hq fun _ => .rest) fun _ => hreply

/-- What a transaction that comes may change: the caches, the ledger, the
scores, and the queues of all others. -/
theorem onNewTransaction_touches {payload : Json} (hq : .quiet ∈ K) (hsee : .see ∈ K)
    (hl : .ledger ∈ K) (hr : .reward endpoint ∈ K) (hp : .penalize endpoint ∈ K)
    (hs : .shut endpoint ∈ K)
    (hb : ∀ payload, .broadcast { type := .newTransaction, payload := payload } ∈ K) :
    Touches S env K [] (onNewTransaction S env p endpoint payload) := by
  refine .attempt ?_ (penalizePeerByEndpoint_touches hq hp hs)
  refine .bind (.liftExcept _) fun tx => .bind (alreadySeenTx_touches hsee) fun _ =>
    .ite ?_ (.pure _)
  refine .bind (callLedger_addTransaction_touches hl hsee (hb _)) fun accepted => .ite ?_ ?_
  · exact .bind (rewardPeerByEndpoint_touches hq hr) fun _ => broadcast_touches (hb _) (by simp)
  · exact penalizePeerByEndpoint_touches hq hp hs

theorem offerBlock_touches {block : Block} (hq : .quiet ∈ K) (hl : .ledger ∈ K)
    (hs : .send ∈ K) : Touches S env K [] (offerBlock S env p block) := by
  refine .bind read_touches fun chain => .ite (callLedger_acceptBlock_touches hq hl) ?_
  exact .guarded (send_touches hs rfl) fun _ => .pure _

theorem onNewBlock_touches {payload : Json} (hq : .quiet ∈ K) (hsee : .see ∈ K)
    (hl : .ledger ∈ K) (hr : .reward endpoint ∈ K) (hp : .penalize endpoint ∈ K)
    (hs : .shut endpoint ∈ K) (hsend : .send ∈ K)
    (hb : ∀ payload, .broadcast { type := .newBlock, payload := payload } ∈ K) :
    Touches S env K [] (onNewBlock S env p endpoint payload) := by
  refine .attempt ?_ (penalizePeerByEndpoint_touches hq hp hs)
  refine .bind (.liftExcept _) fun block => .bind (alreadySeenBlock_touches hsee) fun _ =>
    .ite (.bind (offerBlock_touches hq hl hsend) fun accepted => .ite ?_ (.pure _)) (.pure _)
  exact .bind (rewardPeerByEndpoint_touches hq hr) fun _ => broadcast_touches (hb _) (by simp)

theorem onRequestChain_touches (hs : .send ∈ K) : Touches S env K held (onRequestChain p) :=
  .bind read_touches fun _ => send_touches hs rfl

theorem onResponseChain_touches {payload : Json} (hq : .quiet ∈ K) (hl : .ledger ∈ K)
    (hr : .reward endpoint ∈ K) (hp : .penalize endpoint ∈ K) (hs : .shut endpoint ∈ K) :
    Touches S env K [] (onResponseChain S env endpoint payload) := by
  refine .attempt ?_ (penalizePeerByEndpoint_touches hq hp hs)
  refine .bind (.liftExcept _) fun newChain =>
    .bind (callLedger_replaceChain_touches hq hl) fun replaced => ?_
  exact .ite (rewardPeerByEndpoint_touches hq hr) (.pure _)

theorem onRequestPeers_touches (hs : .send ∈ K) :
    Touches S env K held (onRequestPeers S env p) := by
  refine .bind read_touches fun _ => .bind read_touches fun _ => ?_
  exact .bind read_touches fun _ => send_touches hs rfl

end NodeM

namespace NodeM

variable {S : NodeSetup} {env : Env} {K : Set NodeChange} {p : PeerId} {peerKey : String}
  {msg : Message}

/-- One case for each case of the `switch`: a message changes at most what
`Message.changes` lists for its type. -/
theorem dispatch_touches :
    Touches S env (msg.changes p peerKey) [] (dispatch S env p peerKey msg) := by
  have hq : .quiet ∈ msg.changes p peerKey := .inl rfl
  unfold dispatch
  -- one handler a type, each with the changes of its own
  cases htype : msg.type
  all_goals simp only [Message.changes, htype] at hq ⊢
  case nodeAnnounce => exact onNodeAnnounce_touches hq (by simp) (by simp)
  case registerNode => exact onRegisterNode_touches hq (by simp)
  case requestBootstrap => exact onRequestBootstrap_touches (by simp)
  case responseBootstrap => exact handleReceivedPeers_touches hq
  case newTransaction =>
    exact onNewTransaction_touches hq (by simp) (by simp) (by simp) (by simp) (by simp) (by simp)
  case newBlock =>
    exact onNewBlock_touches hq (by simp) (by simp) (by simp) (by simp) (by simp) (by simp)
      (by simp)
  case requestChain => exact onRequestChain_touches (by simp)
  case responseChain =>
    exact onResponseChain_touches hq (by simp) (by simp) (by simp) (by simp)
  case ping => exact send_touches (by simp) rfl
  case pong => exact .withLock (.act fun _ _ => ⟨.pong peerKey, by simp, rfl⟩)
  case requestPeers => exact onRequestPeers_touches (by simp)
  case responsePeers => exact handleReceivedPeers_touches hq
  case peerList => exact handleReceivedPeers_touches hq
  case unknown => exact .pure _

theorem handleAdmitted_touches :
    Touches S env ({.remember} ∪ msg.changes p peerKey) []
      (handleAdmitted S env p peerKey msg) := by
  have hq : .quiet ∈ msg.changes p peerKey := .inl rfl
  refine .bind (isDuplicate_touches (.inl rfl)) fun duplicate => .ite (.pure _) ?_
  refine .mono (fun s s' h hlimited => ?_) (.bind (tell_touches hq fun _ => .markSeen) fun _ =>
    .bind dispatch_touches fun _ => refreshMetrics_touches hq)
  obtain ⟨c, hc, hleads⟩ := h hlimited
  exact ⟨c, .inr hc, hleads⟩

end NodeM

end PersonalBlockchain
