import PersonalBlockchain.Lib.Locking
import PersonalBlockchain.Model.Blockchain
import PersonalBlockchain.P2P.Managers
import PersonalBlockchain.P2P.PeerScorer
import PersonalBlockchain.Storage.LevelDBManager

/-!
# Personal blockchain — the P2P node

`class Node`: message handling, gossip, heartbeat, dialling and accepting. A
member function is a `Routine` over the state of the node: it takes the
mutexes the source takes, in its order, and an exception leaves it where one
leaves the source. Completions of asynchronous operations and timers are
inputs; what one handler call reads of clocks, of the random shuffle and of the
iteration order of an unordered set is its `Env`.

This module has the state, the connections and what was seen before; the handlers
follow in `P2P/Handlers.lean`, where `react` makes one machine of them.
`std::mutex`es are told apart by `Mutex`; the ranks say in which order the source
means to take them.
-/

namespace PersonalBlockchain

open Std Locking Routine FileSwap

/-- A connection object of the node. -/
abbrev PeerId := Nat

/-- The mutexes of a node; each connection has two of its own. -/
inductive Mutex
  | blockchain
  | seen
  | peers
  | scorer
  | peerManager
  | bootstrap
  | connections
  | identity
  | storage
  | rate (p : PeerId)
  | write (p : PeerId)
  deriving DecidableEq

/-- Callbacks of the ledger take `seenMutex_` and `peersMutex_`, and under
`peersMutex_` the managers and the write queues are used. -/
def Mutex.rank : Mutex → Nat
  | blockchain => 0
  | seen => 1
  | peers => 2
  | _ => 3

/-! ## The node -/

/-- `RetryPolicy`, with its defaults. -/
structure RetryPolicy where
  maxRetries : Int := 6
  baseDelayMs : Int := 500
  maxDelayMs : Int := 30000
  jitterMs : Int := 400
  reconnectCooldownMs : Int := 1200

/-- `NetworkTimeouts`, with its defaults. -/
structure NetworkTimeouts where
  heartbeatTimeoutSec : Int := 45
  quarantineSec : Int := 120
  dedupWindowSec : Int := 90

/-- `NodeOptions`, with its defaults. -/
structure NodeOptions where
  maxOutboundPeers : Nat := 8
  maxInboundPeers : Nat := 32
  retryPolicy : RetryPolicy := {}
  timeouts : NetworkTimeouts := {}

/-- `NodeIdentityRecord`, as far as the node uses it. -/
structure NodeIdentityRecord where
  nodeId : String
  publicKey : String
  advertisedIp : String
  port : UInt16

/-- What a node is constructed with and never changes. -/
structure NodeSetup where
  cfg : NodeConfig
  /-- `nlohmann::json::dump` -/
  dump : Json → String
  port : UInt16
  options : NodeOptions := {}
  identity : NodeIdentityRecord

/-- What one handler call finds around it. -/
structure Env where
  now : TimePoint
  steady : Instant
  /-- `std::shuffle` -/
  shuffle : List String → List String
  /-- the order in which an unordered set is iterated -/
  order : List String → List String
  /-- drawn from `0 … jitterMs` -/
  jitter : Int

/-- An outgoing connection on its way. -/
structure Dial where
  host : String
  port : UInt16
  retryCount : Nat
  deriving DecidableEq

/-- The state of a node. `broadcasts` is not in the source: it is a record of
what was said, and no handler reads it. -/
structure Node where
  blockchain : Blockchain
  /-- `none` when the ledger has no storage -/
  storage : Option DataDir
  /-- every connection object the node ever made -/
  connection : PeerId → Peer
  nextPeer : PeerId
  peers : List PeerId
  seenTxIDs : ExtTreeSet String
  seenBlockHashes : ExtTreeSet String
  messageDedup : ExtTreeMap String Instant
  peerScorer : PeerScorer
  peerManager : PeerManager
  bootstrapManager : BootstrapManager
  connectionManager : ConnectionManager
  networkMetrics : NetworkMetrics
  /-- dials that have not completed -/
  dials : List Dial
  /-- retry timers that have not fired, with their delay in milliseconds -/
  timers : List (Dial × Int)
  /-- not in the source: every message `broadcast` was called with -/
  broadcasts : List Message

/-- What the constructor leaves. The identity is loaded before, into the setup. -/
def Node.create (S : NodeSetup) (bootstrapNodes : List String) (blockchain : Blockchain)
    (storage : Option DataDir) : Node where
  blockchain := blockchain
  storage := storage
  connection := fun _ => { remote := none, isOpen := false }
  nextPeer := 0
  peers := []
  seenTxIDs := ∅
  seenBlockHashes := ∅
  messageDedup := ∅
  peerScorer := {}
  peerManager := PeerManager.mergeKnownPeers bootstrapNodes {}
  bootstrapManager := BootstrapManager.setBootstrapPeers bootstrapNodes
  connectionManager := {
    maxOutboundPeers := S.options.maxOutboundPeers
    maxInboundPeers := S.options.maxInboundPeers }
  networkMetrics := {}
  dials := []
  timers := []
  broadcasts := []

/-- A member function of the node. -/
abbrev NodeM := Routine Mutex JsonError Node

/-- Change one connection. -/
def Node.updatePeer (p : PeerId) (f : Peer → Peer) (node : Node) : Node :=
  { node with connection := fun q => if q = p then f (node.connection q) else node.connection q }

namespace NodeM

variable (S : NodeSetup) (env : Env)

/-! ## The managers behind their mutexes -/

/-- A look at the scorer. -/
def askScorer {α : Type} (f : PeerScorer → α) : NodeM α :=
  withLock .scorer (read fun node => f node.peerScorer)

/-- A change of the scorer. -/
def tellScorer (f : PeerScorer → PeerScorer) : NodeM Unit :=
  withLock .scorer (change fun node => { node with peerScorer := f node.peerScorer })

/-- A look at the peer manager. -/
def askPeerManager {α : Type} (f : PeerManager → α) : NodeM α :=
  withLock .peerManager (read fun node => f node.peerManager)

/-- A change of the peer manager. -/
def tellPeerManager (f : PeerManager → PeerManager) : NodeM Unit :=
  withLock .peerManager (change fun node => { node with peerManager := f node.peerManager })

/-- A look at the bootstrap manager. -/
def askBootstrap {α : Type} (f : BootstrapManager → α) : NodeM α :=
  withLock .bootstrap (read fun node => f node.bootstrapManager)

/-- A change of the bootstrap manager. -/
def tellBootstrap (f : BootstrapManager → BootstrapManager) : NodeM Unit :=
  withLock .bootstrap
    (change fun node => { node with bootstrapManager := f node.bootstrapManager })

/-- A look at the connection manager. -/
def askConnections {α : Type} (f : ConnectionManager → α) : NodeM α :=
  withLock .connections (read fun node => f node.connectionManager)

/-- A change of the connection manager. -/
def tellConnections (f : ConnectionManager → ConnectionManager) : NodeM Unit :=
  withLock .connections
    (change fun node => { node with connectionManager := f node.connectionManager })

/-- The counters are atomic and have no mutex. -/
def tellMetrics (f : NetworkMetrics → NetworkMetrics) : NodeM Unit :=
  change fun node => { node with networkMetrics := f node.networkMetrics }

/-- `nodeIdentity_.endpoint()`. -/
def identityEndpoint : NodeM String :=
  withLock .identity (read fun _ => makeEndpoint S.identity.advertisedIp S.identity.port)

/-! ## Connections -/

/-- `peer->getEndpoint()`. -/
def getEndpoint (p : PeerId) : NodeM String :=
  read fun node => (node.connection p).getEndpoint

/-- `peer->isConnected()`. -/
def isConnected (p : PeerId) : NodeM Bool :=
  read fun node => (node.connection p).isOpen

/-- `peer->close()`. -/
def closePeer (p : PeerId) : NodeM Unit :=
  change (Node.updatePeer p Peer.close)

/-- `peer->send(msg)`. -/
def send (p : PeerId) (msg : Message) : NodeM Unit :=
  withLock (.write p) (change (Node.updatePeer p fun peer => peer.send msg))

/-- `peer->isRateLimited(maxPerSecond)`. -/
def isRateLimited (p : PeerId) (maxPerSecond : Int32) : NodeM Bool :=
  withLock (.rate p) (act fun node =>
    let limited := (node.connection p).isRateLimited env.steady maxPerSecond
    (limited.1, node.updatePeer p fun _ => limited.2))

/-- `getPeerList`. -/
def getPeerList : NodeM (List String) :=
  withLock .peers (read fun node =>
    (node.peers.filter fun p => (node.connection p).isOpen).map fun p =>
      (node.connection p).getEndpoint)

/-- `refreshMetrics`. -/
def refreshMetrics : NodeM Unit := do
  let connected ← getPeerList
  tellMetrics fun m => { m with connectedPeers := connected.length }
  let known ← askPeerManager PeerManager.knownPeers
  tellMetrics fun m => { m with knownPeers := known.length }
  let banned ← askScorer PeerScorer.bannedCount
  tellMetrics fun m => { m with bannedPeers := banned }

/-- `broadcast`. -/
def broadcast (msg : Message) (exclude : Option PeerId := none) : NodeM Unit := do
  change fun node => { node with broadcasts := node.broadcasts ++ [msg] }
  withLock .peers do
    let peers ← read Node.peers
    forEach (fun p => do
      let connected ← isConnected p
      if exclude ≠ some p ∧ connected then send p msg) peers

/-- Close the first connection with this endpoint. -/
def closeFirst (endpoint : String) : NodeM Unit :=
  withLock .peers (change fun node =>
    match node.peers.find? fun p => (node.connection p).getEndpoint = endpoint with
    | some p => node.updatePeer p Peer.close
    | none => node)

/-- `removePeer`. The `lock_guard` lives to the end of the function. -/
def removePeer (p : PeerId) (quarantine : Bool) : NodeM Unit := do
  let endpoint ← getEndpoint p
  if quarantine then
    tellPeerManager
      (PeerManager.quarantinePeer env.steady endpoint S.options.timeouts.quarantineSec)
  tellConnections (ConnectionManager.unregisterConnection endpoint)
  withLock .peers do
    -- whoever is closed goes as well
    change fun node => { node with
      peers := node.peers.filter fun q => !(q = p || !(node.connection q).isOpen) }
    -- still under the guard
    refreshMetrics

/-- `penalizePeerByEndpoint`. -/
def penalizePeerByEndpoint (endpoint : String) (penalty : Int) : NodeM Unit := do
  let banned ← withLock .scorer (act fun node =>
    let r := node.peerScorer.penalizePeer endpoint penalty
    (r.1, { node with peerScorer := r.2 }))
  if banned then
    -- the block of the guard ends before the metrics are refreshed
    withLock .peers do
      let first ← read fun node =>
        node.peers.find? fun p => (node.connection p).getEndpoint = endpoint
      match first with
      -- the source breaks off after one connection; others of the same
      -- endpoint stay open
      | some p => do
        closePeer p
        tellPeerManager
          (PeerManager.quarantinePeer env.steady endpoint S.options.timeouts.quarantineSec)
        tellConnections (ConnectionManager.unregisterConnection endpoint)
      | none => pure ()
  refreshMetrics

/-- `rewardPeerByEndpoint`. -/
def rewardPeerByEndpoint (endpoint : String) (reward : Int) : NodeM Unit := do
  tellScorer (PeerScorer.rewardPeer endpoint reward)
  refreshMetrics

/-! ## What was seen before -/

/-- `while (seen.size() > limit) seen.erase(seen.begin())`; each turn removes
one, so the size is enough fuel. -/
def trimSeen (limit : Nat) : Nat → ExtTreeSet String → ExtTreeSet String
  | 0, seen => seen
  | fuel + 1, seen =>
    if seen.size > limit then
      -- `begin()` is the least key, not the oldest
      match seen.min? with
      | some least => trimSeen limit fuel (seen.erase least)
      | none => seen
    else seen

/-- A set of at most `limit` entries, with one more. -/
def insertSeen (limit : Nat) (key : String) (seen : ExtTreeSet String) : ExtTreeSet String :=
  trimSeen limit (seen.insert key).size (seen.insert key)

/-- Whether the transaction was seen before; it is now. -/
def alreadySeenTx (txID : String) : NodeM Bool :=
  withLock .seen (act fun node =>
    if node.seenTxIDs.contains txID then (true, node)
    else (false, { node with seenTxIDs := insertSeen 10000 txID node.seenTxIDs }))

/-- Whether the block was seen before; it is now. -/
def alreadySeenBlock (hash : String) : NodeM Bool :=
  withLock .seen (act fun node =>
    if node.seenBlockHashes.contains hash then (true, node)
    else (false, { node with seenBlockHashes := insertSeen 1000 hash node.seenBlockHashes }))

/-- `broadcastTransaction`. -/
def broadcastTransaction (tx : Transaction) : NodeM Unit := do
  let seen ← alreadySeenTx tx.txID
  if !seen then broadcast { type := .newTransaction, payload := tx.toJson }

/-- `broadcastBlock`. -/
def broadcastBlock (block : Block) : NodeM Unit := do
  let seen ← alreadySeenBlock block.hash
  if !seen then broadcast { type := .newBlock, payload := block.toJson }

/-- The key under which a message is remembered. -/
def dedupKey (msg : Message) : String :=
  toString msg.type.number ++ ":" ++ S.cfg.crypto.sha256 (S.dump msg.payload)

/-- The same message came within the window. -/
def inDedupWindow (msg : Message) (node : Node) : Bool :=
  match node.messageDedup[dedupKey S msg]? with
  | some last => inSeconds (env.steady - last) < S.options.timeouts.dedupWindowSec
  | none => false

/-- The block of `handleMessage` that drops repeated messages. -/
def isDuplicate (msg : Message) : NodeM Bool :=
  -- heartbeats repeat themselves
  if msg.type = .ping ∨ msg.type = .pong then pure false
  else withLock .seen (act fun node =>
    if inDedupWindow S env msg node then (true, node)
    else
      -- this one is remembered, and what has left the window is forgotten
      let remembered := (node.messageDedup.insert (dedupKey S msg) env.steady).filter
        fun _ last => inSeconds (env.steady - last) ≤ S.options.timeouts.dedupWindowSec
      (false, { node with messageDedup := remembered }))

end NodeM

end PersonalBlockchain
