import PersonalBlockchain.P2P.Node

/-!
# Personal blockchain — what the P2P node does

The handlers of `class Node`: dialling and accepting, gossip, the heartbeat and
`handleMessage`, and `react`, which runs the handler of one input. The ledger is
called under its mutex, and its callbacks run there too.
-/

namespace PersonalBlockchain

open Std Locking Routine FileSwap

namespace NodeM

variable (S : NodeSetup) (env : Env)

/-! ## Calling the ledger -/

/-- One call an operation of the ledger makes. No callback is ever set for
`onBlockAccepted`. -/
def runEffect : Effect → NodeM Unit
  | .saveChain chain => withLock .storage (change fun node =>
      { node with storage := node.storage.map fun dir =>
          (run (LevelDBManager.saveChain chain) dir).2 })
  | .appendBlock block => withLock .storage do
      let storage ← read Node.storage
      match storage with
      | some dir => do
        let program ← liftExcept (LevelDBManager.appendBlock S.cfg.crypto block dir)
        change fun node => { node with storage := some (run program dir).2 }
      | none => pure ()
  | .onBlockAdded block => broadcastBlock block
  | .onTransactionAdded tx => broadcastTransaction tx
  | .onBlockAccepted _ => pure ()

/-- An operation of the ledger, its effects included. -/
def callLedger {α : Type} (f : Blockchain → Outcome α) : NodeM α :=
  withLock .blockchain do
    let outcome ← act fun node =>
      (f node.blockchain, { node with blockchain := (f node.blockchain).node })
    -- storage and callbacks run before the mutex is given back
    forEach (runEffect S) outcome.effects
    return outcome.ret

/-- `getChain`. -/
def getChain : NodeM (List Block) :=
  withLock .blockchain (read fun node => node.blockchain.chain)

/-! ## Dialling -/

/-- `isAlreadyConnected`: any connection on the port will do. -/
def isAlreadyConnected (host : String) (port : UInt16) : NodeM Bool :=
  withLock .peers (read fun node => node.peers.any fun p =>
    let peer := node.connection p
    peer.isOpen && (peer.getEndpoint = makeEndpoint host port || peer.knownListenPort = port ||
      peer.getPort = port))

/-- `connectedPeerScores`. -/
def connectedPeerScores : NodeM (List (String × Int)) := do
  let peers ← getPeerList
  scores peers
where
  scores : List String → NodeM (List (String × Int))
    | [] => pure []
    | endpoint :: rest => do
      let score ← askScorer (PeerScorer.getScore endpoint)
      let others ← scores rest
      return (endpoint, score) :: others

/-- Close the connection with the lowest score. -/
def dropLowestScore : NodeM Unit := do
  let scores ← connectedPeerScores
  let dropCandidate := ConnectionManager.selectLowestScorePeerToDrop scores
  if dropCandidate ≠ "" then closeFirst dropCandidate

/-- A free outbound slot, after dropping a connection if there is none. -/
def freeOutboundSlot : NodeM Bool := do
  let free ← askConnections (ConnectionManager.canAccept .outbound)
  if free then pure true
  else do
    dropLowestScore
    -- closing a connection does not unregister it
    askConnections (ConnectionManager.canAccept .outbound)

/-- The end of `connectToPeer`: a dial or a rejection. -/
def startDial (dial : Dial) : NodeM Unit := do
  let free ← freeOutboundSlot
  if free then do
    tellPeerManager (PeerManager.markDialAttempt env.steady (makeEndpoint dial.host dial.port))
    change fun node => { node with dials := node.dials ++ [dial] }
  else tellMetrics fun m => { m with rejectedPeers := m.rejectedPeers + 1 }

/-- `connectToPeer`, up to the start of the asynchronous connect. -/
def connectToPeer (dial : Dial) : NodeM Unit :=
  let endpoint := makeEndpoint dial.host dial.port
  -- the own port is not dialled, on whatever host
  if dial.port = S.port then pure ()
  else do
    let connected ← isAlreadyConnected dial.host dial.port
    if connected then pure ()
    else do
      let due ← askPeerManager (PeerManager.shouldAttemptConnection env.steady endpoint
        S.options.retryPolicy.reconnectCooldownMs)
      if !due then pure ()
      else do
        let quarantined ← askPeerManager (PeerManager.isQuarantined env.steady endpoint)
        if quarantined then pure ()
        else do
          let banned ← askScorer (PeerScorer.isBanned endpoint)
          if banned then pure () else startDial env dial

/-- `retryConnect`: the next timer, or quarantine. -/
def retryConnect (dial : Dial) : NodeM Unit :=
  if (dial.retryCount : Int) ≥ S.options.retryPolicy.maxRetries then
    tellPeerManager (PeerManager.quarantinePeer env.steady (makeEndpoint dial.host dial.port)
      S.options.timeouts.quarantineSec)
  else
    let delayMs := min (S.options.retryPolicy.baseDelayMs * 2 ^ dial.retryCount)
      S.options.retryPolicy.maxDelayMs + env.jitter
    change fun node => { node with timers := node.timers ++ [(dial, delayMs)] }

/-- `sendNodeAnnounce`. -/
def sendNodeAnnounce (p : PeerId) : NodeM Unit := do
  let endpoint ← identityEndpoint S
  send p {
    type := .nodeAnnounce
    payload := .object [
      ("endpoint", .string endpoint),
      ("nodeId", .string S.identity.nodeId),
      ("port", .numberUnsigned S.port.toUInt64),
      ("publicIp", .string S.identity.advertisedIp),
      ("publicKey", .string S.identity.publicKey)] }

/-- A new connection object. -/
def newPeer (remote : Option (String × UInt16)) (listenPort : UInt16) : NodeM PeerId :=
  act fun node =>
    (node.nextPeer, { node.updatePeer node.nextPeer
      (fun _ => { remote := remote, knownListenPort := listenPort }) with
        nextPeer := node.nextPeer + 1 })

/-- `peers_.push_back(peer)`. -/
def pushPeer (p : PeerId) : NodeM Unit :=
  withLock .peers (change fun node => { node with peers := node.peers ++ [p] })

/-- An asynchronous connect has succeeded. -/
def dialConnected (dial : Dial) (remote : Option (String × UInt16)) : NodeM Unit := do
  let endpoint := makeEndpoint dial.host dial.port
  change fun node => { node with dials := node.dials.erase dial }
  let p ← newPeer remote dial.port
  tellScorer (PeerScorer.addPeer env.steady dial.host dial.port)
  tellPeerManager (PeerManager.addKnownPeer endpoint)
  tellBootstrap (BootstrapManager.registerPeer endpoint)
  pushPeer p
  tellConnections (ConnectionManager.registerConnection endpoint .outbound)
  sendNodeAnnounce S p
  let own ← identityEndpoint S
  send p {
    type := .registerNode
    payload := .object [("endpoint", .string own), ("nodeId", .string S.identity.nodeId)] }
  send p { type := .requestBootstrap }
  let requester ← identityEndpoint S
  send p {
    type := .requestPeers
    payload := .object
      [("nodeId", .string S.identity.nodeId), ("requester", .string requester)] }
  send p { type := .requestChain }
  refreshMetrics

/-- A resolve or a connect has failed. -/
def dialFailed (dial : Dial) : NodeM Unit := do
  change fun node => { node with dials := node.dials.erase dial }
  retryConnect S env dial

/-- A retry timer fires. -/
def retryTimer (dial : Dial) : NodeM Unit := do
  change fun node => { node with
    timers := node.timers.eraseP fun timer => timer.1 = dial }
  connectToPeer S env { dial with retryCount := dial.retryCount + 1 }

/-- The acceptor has a connection. -/
def accepted (remote : Option (String × UInt16)) : NodeM Unit := do
  let roomy ← askConnections (ConnectionManager.canAccept .inbound)
  if !roomy then dropLowestScore
  let free ← askConnections (ConnectionManager.canAccept .inbound)
  if !free then tellMetrics fun m => { m with rejectedPeers := m.rejectedPeers + 1 }
  else do
    let p ← newPeer remote 0
    let endpoint ← getEndpoint p
    tellPeerManager (PeerManager.addKnownPeer endpoint)
    tellBootstrap (BootstrapManager.registerPeer endpoint)
    tellConnections (ConnectionManager.registerConnection endpoint .inbound)
    pushPeer p
    sendNodeAnnounce S p
    refreshMetrics

/-! ## Gossip -/

/-- `connectToPeer` for an endpoint that parses. -/
def connectToEndpoint (endpoint : String) : NodeM Unit :=
  match PeerManager.parseEndpoint endpoint with
  | some (host, port) => connectToPeer S env ⟨host, port, 0⟩
  | none => pure ()

/-- `attemptRandomPeerExpansion`. -/
def attemptRandomPeerExpansion : NodeM Unit := do
  let outboundCount ← askConnections (ConnectionManager.count .outbound)
  if outboundCount ≥ S.options.maxOutboundPeers then pure ()
  else do
    let connected ← getPeerList
    let own ← identityEndpoint S
    let peers ← askPeerManager (PeerManager.getRandomPeers env.steady env.shuffle
      (max (S.options.maxOutboundPeers - outboundCount) 2) (connected ++ [own]))
    forEach (connectToEndpoint S env) peers

/-- Whether `handleReceivedPeers` takes an endpoint. -/
def isDiscovered (endpoint : String) : NodeM Bool := do
  let own ← identityEndpoint S
  if endpoint = "" ∨ endpoint = own then pure false
  else
    match PeerManager.parseEndpoint endpoint with
    | none => pure false
    | some (_, port) =>
      if port = S.port then pure false
      else do
        let banned ← askScorer (PeerScorer.isBanned endpoint)
        let quarantined ← askPeerManager (PeerManager.isQuarantined env.steady endpoint)
        return !(banned || quarantined)

/-- The endpoints a received list adds. -/
def discovered : List Json → NodeM (List String)
  | [] => pure []
  | .string endpoint :: rest => do
    let taken ← isDiscovered S env endpoint
    let others ← discovered rest
    return if taken then endpoint :: others else others
  | _ :: rest => discovered rest

/-- `handleReceivedPeers`. -/
def handleReceivedPeers (payload : Json) : NodeM Unit :=
  match payload with
  | .array items => do
    let found ← discovered S env items
    -- known to both managers before anything is dialled
    tellPeerManager (PeerManager.mergeKnownPeers found)
    forEach (fun peer => tellBootstrap (BootstrapManager.registerPeer peer)) found
    attemptRandomPeerExpansion S env
    refreshMetrics
  -- `if (!payload.is_array()) return;`
  | _ => pure ()

/-- `requestPeersFromAll`. -/
def requestPeersFromAll : NodeM Unit := do
  let own ← identityEndpoint S
  broadcast {
    type := .requestPeers
    payload := .object [("nodeId", .string S.identity.nodeId), ("requester", .string own)] }

/-- The gossip timer. -/
def gossip : NodeM Unit := do
  requestPeersFromAll S
  attemptRandomPeerExpansion S env
  tellScorer (PeerScorer.evictStalePeers env.steady 300)
  refreshMetrics

/-- `connectToBootstrapPeers`. -/
def connectToBootstrapPeers : NodeM Unit := do
  let peers ← askBootstrap BootstrapManager.bootstrapPeers
  forEach (connectToEndpoint S env) peers

/-! ## Heartbeat -/

/-- Connections that were closed leave `peers_`. -/
def dropClosed : NodeM (List PeerId) :=
  withLock .peers do
    let peers ← read Node.peers
    forEach (fun p => do
      let connected ← isConnected p
      if !connected then do
        -- of a closed connection this is "unknown"
        let endpoint ← getEndpoint p
        tellConnections (ConnectionManager.unregisterConnection endpoint)) peers
    act fun node =>
      let kept := node.peers.filter fun p => (node.connection p).isOpen
      (kept, { node with peers := kept })

/-- Close the connections of an endpoint whose pong is overdue. -/
def closeTimedOut (endpoint : String) : NodeM Unit := do
  let peers ← read Node.peers
  forEach (fun p => do
    let current ← getEndpoint p
    if current = endpoint then do
      closePeer p
      tellPeerManager
        (PeerManager.quarantinePeer env.steady endpoint S.options.timeouts.quarantineSec)) peers
  tellConnections (ConnectionManager.unregisterConnection endpoint)

/-- The heartbeat timer. -/
def heartbeat : NodeM Unit := do
  let snapshot ← dropClosed
  forEach (fun p => do
    let endpoint ← getEndpoint p
    tellScorer (PeerScorer.markPingSent env.steady endpoint)
    send p { type := .ping }) snapshot
  let timedOut ← askScorer
    (PeerScorer.getHeartbeatTimeoutPeers env.steady S.options.timeouts.heartbeatTimeoutSec)
  -- one guard for all that are overdue
  if timedOut ≠ [] then withLock .peers (forEach (closeTimedOut S env) timedOut)
  refreshMetrics

/-! ## `handleMessage` -/

/-- Make an endpoint known to the managers. -/
def learnEndpoint (endpoint : String) : NodeM Unit := do
  tellPeerManager (PeerManager.addKnownPeer endpoint)
  tellBootstrap (BootstrapManager.registerPeer endpoint)

/-- `case NODE_ANNOUNCE`, once the payload is read. -/
def announced (p : PeerId) (publicIp : String) (peerPort : UInt16) (endpoint : String) :
    NodeM Unit := do
  if publicIp ≠ "" ∧ peerPort > 0 then do
    change (Node.updatePeer p fun peer => { peer with knownListenPort := peerPort })
    tellScorer (PeerScorer.addPeer env.steady publicIp peerPort)
    learnEndpoint (makeEndpoint publicIp peerPort)
  if endpoint ≠ "" then learnEndpoint endpoint

/-- `case NODE_ANNOUNCE`. -/
def onNodeAnnounce (p : PeerId) (payload : Json) : NodeM Unit := do
  let publicIp ← liftExcept (payload.value Json.getString "publicIp" "")
  let port ← liftExcept (payload.value Json.getInt "port" 0)
  let endpoint ← liftExcept (payload.value Json.getString "endpoint" "")
  -- `static_cast<uint16_t>`
  announced env p publicIp port.toUInt32.toUInt16 endpoint

/-- `case REQUEST_BOOTSTRAP`. -/
def onRequestBootstrap (p : PeerId) : NodeM Unit := do
  let topology ← askBootstrap (BootstrapManager.knownTopology env.order 512)
  send p { type := .responseBootstrap, payload := .array (topology.map .string) }

/-- `case REGISTER_NODE`, once the payload is read. -/
def registered (p : PeerId) (endpoint : String) : NodeM Unit := do
  if endpoint ≠ "" then do
    tellBootstrap (BootstrapManager.registerPeer endpoint)
    tellPeerManager (PeerManager.addKnownPeer endpoint)
  onRequestBootstrap env p

/-- `case REGISTER_NODE`. -/
def onRegisterNode (p : PeerId) (payload : Json) : NodeM Unit := do
  let endpoint ← liftExcept (payload.value Json.getString "endpoint" "")
  registered env p endpoint

/-- `case NEW_TRANSACTION`. -/
def onNewTransaction (p : PeerId) (peerKey : String) (payload : Json) : NodeM Unit :=
  attempt
    (do
      let tx ← liftExcept (Transaction.fromJson S.cfg.crypto payload)
      let alreadySeen ← alreadySeenTx tx.txID
      if !alreadySeen then do
        let accepted ← callLedger S fun bc => bc.addTransaction S.cfg env.now tx
        if accepted then do
          -- forwarded here and, by the callback of the ledger, not again: the
          -- identifier was seen
          rewardPeerByEndpoint peerKey PeerScorer.rewardValidTx
          broadcast { type := .newTransaction, payload := payload } (some p)
        else penalizePeerByEndpoint S env peerKey PeerScorer.penaltyInvalidTx)
    (penalizePeerByEndpoint S env peerKey PeerScorer.penaltyInvalidTx)

/-- The ledger takes a block that extends the chain as it was read before; a
block further ahead asks for the whole chain. -/
def offerBlock (p : PeerId) (block : Block) : NodeM Bool := do
  let chain ← getChain
  if block.index = UInt64.ofNat chain.length ∧
      block.previousHash = (chain.getLast?.map Block.hash).getD "" then
    callLedger S fun bc => bc.acceptBlock S.cfg env.now block
  else do
    if UInt64.ofNat chain.length ≤ block.index then send p { type := .requestChain }
    return false

/-- `case NEW_BLOCK`; a rejected block is not penalised. -/
def onNewBlock (p : PeerId) (peerKey : String) (payload : Json) : NodeM Unit :=
  attempt
    (do
      let block ← liftExcept (Block.fromJson S.cfg.crypto payload)
      let alreadySeen ← alreadySeenBlock block.hash
      if !alreadySeen then do
        let accepted ← offerBlock S env p block
        if accepted then do
          rewardPeerByEndpoint peerKey PeerScorer.rewardValidBlock
          broadcast { type := .newBlock, payload := payload } (some p))
    (penalizePeerByEndpoint S env peerKey PeerScorer.penaltyInvalidBlock)

/-- `case REQUEST_CHAIN`. -/
def onRequestChain (p : PeerId) : NodeM Unit := do
  let chain ← getChain
  send p { type := .responseChain, payload := .array (chain.map Block.toJson) }

/-- `case RESPONSE_CHAIN`. -/
def onResponseChain (peerKey : String) (payload : Json) : NodeM Unit :=
  attempt
    (do
      -- a payload that is no array is iterated as nlohmann does
      let newChain ← liftExcept (payload.iterate.mapM (Block.fromJson S.cfg.crypto))
      let replaced ← callLedger S fun bc => bc.replaceChain S.cfg env.now newChain
      if replaced then rewardPeerByEndpoint peerKey PeerScorer.rewardValidBlock)
    (penalizePeerByEndpoint S env peerKey PeerScorer.penaltyInvalidBlock)

/-- `case REQUEST_PEERS`. -/
def onRequestPeers (p : PeerId) : NodeM Unit := do
  let known ← askPeerManager PeerManager.knownPeers
  let own ← identityEndpoint S
  let topology ← askBootstrap (BootstrapManager.knownTopology env.order 256)
  let peers := ((known ++ [own] ++ topology).mergeSort fun s t => decide (s ≤ t)).eraseReps
  send p { type := .responsePeers, payload := .array (peers.map .string) }

/-- The `switch` of `handleMessage`. -/
def dispatch (p : PeerId) (peerKey : String) (msg : Message) : NodeM Unit :=
  match msg.type with
  | .nodeAnnounce => onNodeAnnounce env p msg.payload
  | .registerNode => onRegisterNode env p msg.payload
  | .requestBootstrap => onRequestBootstrap env p
  | .responseBootstrap => handleReceivedPeers S env msg.payload
  | .newTransaction => onNewTransaction S env p peerKey msg.payload
  | .newBlock => onNewBlock S env p peerKey msg.payload
  | .requestChain => onRequestChain p
  | .responseChain => onResponseChain S env peerKey msg.payload
  | .ping => send p { type := .pong }
  | .pong => tellScorer (PeerScorer.markPongReceived env.steady peerKey)
  | .requestPeers => onRequestPeers S env p
  | .responsePeers | .peerList => handleReceivedPeers S env msg.payload
  | .unknown => pure ()

/-- `handleMessage` from the deduplication on. -/
def handleAdmitted (p : PeerId) (peerKey : String) (msg : Message) : NodeM Unit := do
  let duplicate ← isDuplicate S env msg
  if duplicate then pure ()
  else do
    tellScorer (PeerScorer.markSeen env.steady peerKey)
    dispatch S env p peerKey msg
    refreshMetrics

/-- `handleMessage`. -/
def handleMessage (p : PeerId) (msg : Message) : NodeM Unit := do
  let peerKey ← getEndpoint p
  let banned ← askScorer (PeerScorer.isBanned peerKey)
  -- a ban may be older than this connection
  if banned then removePeer S env p true
  else do
    let limited ← isRateLimited env p 100
    if limited then penalizePeerByEndpoint S env peerKey PeerScorer.penaltyInvalidTx
    else handleAdmitted S env p peerKey msg

end NodeM

/-! ## One input -/

/-- What a node reacts to. -/
inductive NodeInput
  | message (p : PeerId) (msg : Message)
  | heartbeat
  | gossip
  /-- the peer rotation timer -/
  | rotation
  | accepted (remote : Option (String × UInt16))
  | dialConnected (dial : Dial) (remote : Option (String × UInt16))
  | dialFailed (dial : Dial)
  | retryTimer (dial : Dial)
  /-- `start` -/
  | bootstrap
  /-- the timer of `start` -/
  | requestChain

/-- The handler of an input. -/
def react (S : NodeSetup) (env : Env) : NodeInput → NodeM Unit
  | .message p msg => NodeM.handleMessage S env p msg
  | .heartbeat => NodeM.heartbeat S env
  | .gossip => NodeM.gossip S env
  | .rotation => NodeM.attemptRandomPeerExpansion S env
  | .accepted remote => NodeM.accepted S remote
  | .dialConnected dial remote => NodeM.dialConnected S env dial remote
  | .dialFailed dial => NodeM.dialFailed S env dial
  | .retryTimer dial => NodeM.retryTimer S env dial
  | .bootstrap => NodeM.connectToBootstrapPeers S env
  | .requestChain => NodeM.broadcast { type := .requestChain }

end PersonalBlockchain
