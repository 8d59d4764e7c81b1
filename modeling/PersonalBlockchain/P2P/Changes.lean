import PersonalBlockchain.P2P.Handlers

/-!
# Personal blockchain — kinds of change

The changes a handler makes to the ledger, the connections, the list of peers,
the connection manager, what was seen before and the scores, in a few kinds.
Everything else is `Quiet`: the storage, the managers of what is known, the
counters, dials and timers. A new connection is one change, and so is the
closing of the connections of an endpoint together with its unregistration.

`NodeChange` lists the kinds and `NodeChange.Leads` says what a change of a kind
does. `Touches S env K held x` says that all changes of the routine `x` are of kinds
in `K`; the lemmas of `P2P/Footprint.lean` are of this form. An invariant of the node
is then proved once for each kind of change and not once for each handler.
-/

namespace PersonalBlockchain

open Locking Routine

/-! ## Changes of the state -/

namespace Node

/-- Drop a registration. -/
def unregistered (key : String) (node : Node) : Node :=
  { node with connectionManager := node.connectionManager.unregisterConnection key }

/-- Close some connections. -/
def closing (closed : PeerId → Bool) (node : Node) : Node :=
  { node with connection := fun p =>
      if closed p then (node.connection p).close else node.connection p }

/-- A new connection, in `peers_` and registered. Its identifier is the next
one, so that no connection is confused with an older one. -/
def opened (remote : Option (String × UInt16)) (port : UInt16) (key : String)
    (direction : ConnectionDirection) (node : Node) : Node :=
  { node.updatePeer node.nextPeer (fun _ => { remote := remote, knownListenPort := port }) with
    nextPeer := node.nextPeer + 1
    peers := node.peers ++ [node.nextPeer]
    connectionManager := node.connectionManager.registerConnection key direction }

/-- A message for every open connection but one. -/
def broadcasted (msg : Message) (exclude : Option PeerId) (node : Node) : Node :=
  node.peers.foldl
    (fun node p =>
      if exclude ≠ some p ∧ (node.connection p).isOpen then
        node.updatePeer p fun peer => peer.send msg
      else node)
    { node with broadcasts := node.broadcasts ++ [msg] }

/-- The heartbeat of one connection. -/
def pinged (now : Instant) (p : PeerId) (node : Node) : Node :=
  Node.updatePeer p (fun peer => peer.send { type := .ping }) { node with
    peerScorer := node.peerScorer.markPingSent now (node.connection p).getEndpoint }

/-- `peers_` without what is closed; of that, `"unknown"` is unregistered. -/
def cleaned (node : Node) : Node :=
  { node with
    peers := node.peers.filter fun p => (node.connection p).isOpen
    connectionManager :=
      if ∃ p ∈ node.peers, (node.connection p).isOpen = false then
        node.connectionManager.unregisterConnection "unknown"
      else node.connectionManager }

end Node

/-- Nothing changes but what the kinds of change leave out. -/
structure Quiet (node node' : Node) : Prop where
  blockchain : node'.blockchain = node.blockchain
  connection : node'.connection = node.connection
  nextPeer : node'.nextPeer = node.nextPeer
  peers : node'.peers = node.peers
  connectionManager : node'.connectionManager = node.connectionManager
  seenTxIDs : node'.seenTxIDs = node.seenTxIDs
  seenBlockHashes : node'.seenBlockHashes = node.seenBlockHashes
  messageDedup : node'.messageDedup = node.messageDedup
  broadcasts : node'.broadcasts = node.broadcasts
  awaits : ∀ key, node'.peerScorer.awaitsSince key = node.peerScorer.awaitsSince key
  standing : ∀ key, node'.peerScorer.standing key = node.peerScorer.standing key

namespace Quiet

variable {node node' node'' : Node}

theorem refl (node : Node) : Quiet node node :=
  ⟨rfl, rfl, rfl, rfl, rfl, rfl, rfl, rfl, rfl, fun _ => rfl, fun _ => rfl⟩

theorem trans (h : Quiet node node') (h' : Quiet node' node'') : Quiet node node'' where
  blockchain := h'.blockchain.trans h.blockchain
  connection := h'.connection.trans h.connection
  nextPeer := h'.nextPeer.trans h.nextPeer
  peers := h'.peers.trans h.peers
  connectionManager := h'.connectionManager.trans h.connectionManager
  seenTxIDs := h'.seenTxIDs.trans h.seenTxIDs
  seenBlockHashes := h'.seenBlockHashes.trans h.seenBlockHashes
  messageDedup := h'.messageDedup.trans h.messageDedup
  broadcasts := h'.broadcasts.trans h.broadcasts
  awaits key := (h'.awaits key).trans (h.awaits key)
  standing key := (h'.standing key).trans (h.standing key)

/-- What the kinds of change leave out. -/
theorem rest {node : Node} {storage peerManager bootstrapManager networkMetrics dials timers} :
    Quiet node { node with
      storage := storage, peerManager := peerManager, bootstrapManager := bootstrapManager
      networkMetrics := networkMetrics, dials := dials, timers := timers } :=
  ⟨rfl, rfl, rfl, rfl, rfl, rfl, rfl, rfl, rfl, fun _ => rfl, fun _ => rfl⟩

/-- When an endpoint was last seen is no part of its standing. -/
theorem markSeen {now : Instant} {key : String} :
    Quiet node { node with peerScorer := node.peerScorer.markSeen now key } :=
  ⟨rfl, rfl, rfl, rfl, rfl, rfl, rfl, rfl, rfl, fun _ => PeerScorer.awaitsSince_markSeen,
    fun _ => PeerScorer.standing_markSeen⟩

end Quiet

/-- A transaction or a block, which nodes pass on. -/
def Message.isGossip (msg : Message) : Bool := msg.type = .newTransaction || msg.type = .newBlock

/-- The kinds of change. -/
inductive NodeChange
  | quiet
  | ledger
  /-- the rate limiter of a connection -/
  | count (p : PeerId)
  /-- the messages that are remembered -/
  | remember
  /-- a peer is known to the scorer -/
  | enroll
  | evict
  | reward (key : String)
  | penalize (key : String)
  /-- the sets of what was seen -/
  | see
  /-- a message that is not passed on, for one connection -/
  | send
  | broadcast (msg : Message)
  | ping (p : PeerId)
  | pong (key : String)
  | listenPort (p : PeerId) (port : UInt16)
  /-- a connection is closed, and nothing else, for want of a free slot -/
  | close (direction : ConnectionDirection)
  /-- connections of one endpoint are closed, and the endpoint unregistered -/
  | shut (key : String)
  | clean
  /-- what is read from a connection has come to its end -/
  | disconnect (p : PeerId)
  /-- what waited for a connection is written, or given up -/
  | flush (p : PeerId)
  | open (remote : Option (String × UInt16)) (port : UInt16) (key : String)
      (direction : ConnectionDirection)

/-- The states a change of this kind leads to. -/
def NodeChange.Leads (now : Instant) (node node' : Node) : NodeChange → Prop
  | quiet => Quiet node node'
  | ledger => ∃ blockchain, node' = { node with blockchain := blockchain }
  | count p => ∃ times, node' = node.updatePeer p fun peer => { peer with messageTimes := times }
  | remember => ∃ messageDedup, node' = { node with messageDedup := messageDedup }
  | enroll => ∃ host port, node' = { node with
      peerScorer := node.peerScorer.addPeer now host port }
  | evict => ∃ staleSeconds, node' = { node with
      peerScorer := node.peerScorer.evictStalePeers now staleSeconds }
  | reward key => ∃ amount ≥ 0, node' = { node with
      peerScorer := node.peerScorer.rewardPeer key amount }
  | penalize key => ∃ penalty ≤ 0, node' = { node with
      peerScorer := (node.peerScorer.penalizePeer key penalty).2 }
  | see => ∃ txIDs blockHashes,
      node' = { node with seenTxIDs := txIDs, seenBlockHashes := blockHashes }
  | send => ∃ p msg, msg.isGossip = false ∧ node' = node.updatePeer p fun peer => peer.send msg
  | broadcast msg => ∃ exclude, node' = node.broadcasted msg exclude
  | ping p => node' = node.pinged now p
  | pong key => node' = { node with
      peerScorer := node.peerScorer.markPongReceived now key }
  | listenPort p port => node' = node.updatePeer p fun peer => { peer with knownListenPort := port }
  | close direction => node.connectionManager.canAccept direction = false ∧
      ∃ p, node' = node.updatePeer p Peer.close
  | shut key => ∃ closed : PeerId → Bool,
      (∀ p, closed p = true → (node.connection p).getEndpoint = key) ∧
        Quiet ((node.closing closed).unregistered key) node'
  | clean => node' = node.cleaned
  | disconnect p => node' = node.updatePeer p Peer.close
  | flush p => node' = node.updatePeer p Peer.written ∨ node' = node.updatePeer p Peer.writeFailed
  | .open remote port key direction =>
    -- a dial was checked when it started, not when it comes to its end
    (direction = .inbound → node.connectionManager.canAccept .inbound = true) ∧
      Quiet (node.opened remote port key direction) node'

/-- The limits the node was constructed with. -/
def Node.Limited (S : NodeSetup) (node : Node) : Prop :=
  node.connectionManager.maxOutboundPeers = S.options.maxOutboundPeers ∧
    node.connectionManager.maxInboundPeers = S.options.maxInboundPeers

/-- One change of some kinds, of a node with its limits. -/
def OneOf (S : NodeSetup) (now : Instant) (K : Set NodeChange) (node node' : Node) : Prop :=
  node.Limited S → ∃ c ∈ K, c.Leads now node node'

theorem OneOf.mono {S : NodeSetup} {now : Instant} {K K' : Set NodeChange} (hK : K ⊆ K')
    {node node' : Node} (h : OneOf S now K node node') : OneOf S now K' node node' :=
  fun hlimited => (h hlimited).imp fun _ hc => ⟨hK hc.1, hc.2⟩

/-- Changes of some kinds, or such changes and then one of another kind, and
what comes after. -/
def Once (S : NodeSetup) (now : Instant) (before : Set NodeChange) (c : NodeChange)
    (after : Set NodeChange) (node node' : Node) : Prop :=
  Relation.ReflTransGen (OneOf S now before) node node' ∨
    ∃ first last, Relation.ReflTransGen (OneOf S now before) node first ∧ c.Leads now first last ∧
      Relation.ReflTransGen (OneOf S now after) last node'

theorem Once.mono {S : NodeSetup} {now : Instant} {before before' after after' : Set NodeChange}
    {c : NodeChange} {node node' : Node} (h : Once S now before c after node node')
    (hbefore : before ⊆ before') (hafter : after ⊆ after') :
    Once S now before' c after' node node' :=
  h.imp (fun hsteps => hsteps.lift id fun _ _ => OneOf.mono hbefore)
    fun ⟨first, last, hfirst, hleads, hlast⟩ =>
      ⟨first, last, hfirst.lift id fun _ _ => OneOf.mono hbefore, hleads,
        hlast.lift id fun _ _ => OneOf.mono hafter⟩

/-- What happens once at most is among the changes of all kinds together. -/
theorem Once.steps {S : NodeSetup} {now : Instant} {before after K : Set NodeChange}
    {c : NodeChange} {node node' : Node} (h : Once S now before c after node node')
    (hbefore : before ⊆ K) (hc : c ∈ K) (hafter : after ⊆ K) :
    Relation.ReflTransGen (OneOf S now K) node node' := by
  rcases h.mono hbefore hafter with h | ⟨first, last, hfirst, hleads, hlast⟩
  · exact h
  · exact (hfirst.tail fun _ => ⟨c, hc, hleads⟩).trans hlast

/-- All changes of a routine are of some kinds. -/
abbrev Touches {α : Type} (S : NodeSetup) (env : Env) (K : Set NodeChange) (held : List Mutex)
    (x : NodeM α) : Prop :=
  Within (OneOf S env.steady K) held x

/-- The kinds of change the `switch` of `handleMessage` makes. -/
def Message.changes (p : PeerId) (peerKey : String) (msg : Message) : Set NodeChange :=
  {.quiet} ∪
    match msg.type with
    | .nodeAnnounce => {.enroll} ∪ Set.range (.listenPort p)
    | .registerNode | .requestBootstrap | .requestChain | .requestPeers | .ping => {.send}
    | .newTransaction =>
      {.see, .ledger, .reward peerKey, .penalize peerKey, .shut peerKey} ∪
        Set.range fun payload => .broadcast ⟨.newTransaction, payload⟩
    | .newBlock =>
      {.see, .ledger, .reward peerKey, .penalize peerKey, .shut peerKey, .send} ∪
        Set.range fun payload => .broadcast ⟨.newBlock, payload⟩
    | .responseChain => {.ledger, .reward peerKey, .penalize peerKey, .shut peerKey}
    | .pong => {.pong peerKey}
    | _ => ∅

end PersonalBlockchain
