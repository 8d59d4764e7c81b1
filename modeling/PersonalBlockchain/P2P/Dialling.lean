import PersonalBlockchain.P2P.Runs

/-!
# Personal blockchain — dialling

`connectToPeer` compares ports where it means endpoints: it never dials its own
port on another host, and any connection on the port of an endpoint counts as a
connection to it. A dial that failed is repeated after a delay that does not
know of the dial cooldown, and a repetition that is refused sets no timer.

## Results

* `connectToPeer_starts_iff` — which dials are started while a slot is free;
* `connectToPeer_by_endpoint_iff` — peers are told apart by their endpoints exactly
  when ports do not get in the way;
* `failureHandled_iff` — what the timer of a failed dial finds decides whether the
  next attempt is made;
* `dialledToTheEnd_iff` — when the chain of attempts goes to its end;
* `reconnect_chain_iff` — both along the attempts of the default policy.
-/

namespace PersonalBlockchain

open Std Locking Routine NodeM FiniteMap

/-! ## What `connectToPeer` looks at -/

/-- The endpoint a dial is for. -/
def Dial.endpoint (dial : Dial) : String := makeEndpoint dial.host dial.port

/-- The endpoint under which the node is known. -/
def NodeSetup.endpoint (S : NodeSetup) : String := makeEndpoint S.identity.advertisedIp S.port

namespace Node

/-- A connected peer has this endpoint. -/
def connectedTo (endpoint : String) (node : Node) : Bool :=
  node.peers.any fun p => (node.connection p).isOpen && (node.connection p).getEndpoint = endpoint

/-- A connected peer listens on this port, or connected from it. -/
def connectedOnPort (port : UInt16) (node : Node) : Bool :=
  node.peers.any fun p => (node.connection p).isOpen &&
    ((node.connection p).knownListenPort = port || (node.connection p).getPort = port)

/-- The endpoint was not dialled within the cooldown, and is not quarantined. -/
def dialDue (S : NodeSetup) (env : Env) (endpoint : String) (node : Node) : Bool :=
  node.peerManager.shouldAttemptConnection env.steady endpoint
    S.options.retryPolicy.reconnectCooldownMs

/-- Nothing about the endpoint itself stands in the way of a dial. -/
structure Dialable (S : NodeSetup) (env : Env) (endpoint : String) (node : Node) : Prop where
  unconnected : node.connectedTo endpoint = false
  unbanned : node.peerScorer.isBanned endpoint = false
  unquarantined : node.peerManager.isQuarantined env.steady endpoint = false
  due : node.dialDue S env endpoint = true
  free : node.connectionManager.canAccept .outbound = true

/-- A dial has started. -/
def dialling (env : Env) (dial : Dial) (node : Node) : Node :=
  { node with
    peerManager := node.peerManager.markDialAttempt env.steady dial.endpoint
    dials := node.dials ++ [dial] }

end Node

/-- A routine starts this dial. -/
def StartsDial (x : NodeM Unit) (dial : Dial) (node : Node) : Prop :=
  (x [] node).2.dials = node.dials ++ [dial]

variable {S : NodeSetup} {env env' : Env} {dial : Dial} {node node' : Node} {host : String}
  {port : UInt16}

/-- `isAlreadyConnected` looks for the endpoint, and then for the port alone. -/
theorem isAlreadyConnected_run :
    isAlreadyConnected host port [] node =
      (.returned (node.connectedTo (makeEndpoint host port) || node.connectedOnPort port),
        node) := by
  have hany : (node.connectedTo (makeEndpoint host port) || node.connectedOnPort port) =
      node.peers.any fun p =>
        (node.connection p).isOpen && ((node.connection p).getEndpoint = makeEndpoint host port ||
          (node.connection p).knownListenPort = port || (node.connection p).getPort = port) := by
    rw [Node.connectedTo, Node.connectedOnPort]
    induction node.peers with
    | nil => rfl
    | cons p ps ih => grind
  rw [hany]
  rfl

theorem freeOutboundSlot_run (hfree : node.connectionManager.canAccept .outbound = true) :
    freeOutboundSlot [] node = (.returned true, node) := by
  show (if node.connectionManager.canAccept .outbound = true then pure true else _ : NodeM Bool)
    [] node = _
  rw [if_pos hfree]
  rfl

theorem startDial_run (hfree : node.connectionManager.canAccept .outbound = true) :
    startDial env dial [] node = (.returned (), node.dialling env dial) := by
  rw [startDial, bind_run (freeOutboundSlot_run hfree), if_pos rfl]
  rfl

/-- The checks of `connectToPeer`, in the order of the source. -/
theorem connectToPeer_checks : connectToPeer S env dial [] node =
    if dial.port = S.port then (.returned (), node)
    else if (node.connectedTo dial.endpoint || node.connectedOnPort dial.port) = true then
      (.returned (), node)
    else if (!node.dialDue S env dial.endpoint) = true then (.returned (), node)
    else if node.peerManager.isQuarantined env.steady dial.endpoint = true then
      (.returned (), node)
    else if node.peerScorer.isBanned dial.endpoint = true then (.returned (), node)
    else startDial env dial [] node := by
  unfold connectToPeer
  rw [ite_run, bind_run isAlreadyConnected_run, ite_run, bind_run rfl, ite_run, bind_run rfl,
    ite_run, bind_run rfl, ite_run]
  rfl

/-- With a slot free, `connectToPeer` starts its dial or does nothing. -/
theorem connectToPeer_run (hfree : node.connectionManager.canAccept .outbound = true) :
    connectToPeer S env dial [] node =
      (.returned (),
        if dial.port ≠ S.port ∧ node.connectedTo dial.endpoint = false ∧
            node.connectedOnPort dial.port = false ∧ node.dialDue S env dial.endpoint = true ∧
            node.peerScorer.isBanned dial.endpoint = false then
          node.dialling env dial
        else node) := by
  -- what is quarantined was not due
  have hquarantined : node.dialDue S env dial.endpoint = true →
      node.peerManager.isQuarantined env.steady dial.endpoint = false := by
    rw [Node.dialDue, PeerManager.shouldAttemptConnection]
    split
    · exact nofun
    next h => exact fun _ => Bool.eq_false_of_not_eq_true h
  rw [connectToPeer_checks, startDial_run hfree]
  grind

/-- Which dials are started. -/
theorem connectToPeer_starts_iff (hfree : node.connectionManager.canAccept .outbound = true) :
    StartsDial (connectToPeer S env dial) dial node ↔
      dial.port ≠ S.port ∧ node.connectedTo dial.endpoint = false ∧
        node.connectedOnPort dial.port = false ∧ node.dialDue S env dial.endpoint = true ∧
        node.peerScorer.isBanned dial.endpoint = false := by
  rw [StartsDial, connectToPeer_run hfree]
  split
  next h => exact iff_of_true rfl h
  next h => exact iff_of_false (fun heq => by simp at heq) h

/-! ## Endpoints and ports -/

/-- **When peers are identified by their endpoints**: `connectToPeer` starts
every dial that nothing about the endpoint forbids, and `isAlreadyConnected`
finds only the endpoint itself, exactly when the port is not the own port of
the node and each connected peer on the port comes with a connection to the
endpoint. -/
theorem connectToPeer_by_endpoint_iff (S : NodeSetup) (env : Env) (dial : Dial) (node : Node) :
    ((dial.endpoint ≠ S.endpoint → node.Dialable S env dial.endpoint →
        StartsDial (connectToPeer S env dial) dial node) ∧
      ((isAlreadyConnected dial.host dial.port [] node).1 = .returned true →
        node.connectedTo dial.endpoint = true)) ↔
    (dial.endpoint ≠ S.endpoint → node.Dialable S env dial.endpoint → dial.port ≠ S.port) ∧
      (node.connectedOnPort dial.port = true → node.connectedTo dial.endpoint = true) := by
  -- the check answers for the endpoint and for its port alike
  have hconnected : (isAlreadyConnected dial.host dial.port [] node).1 = .returned true ↔
      node.connectedTo dial.endpoint = true ∨ node.connectedOnPort dial.port = true := by
    rw [isAlreadyConnected_run, ← Dial.endpoint, Ending.returned.injEq, Bool.or_eq_true]
  constructor
  · rintro ⟨hdials, honly⟩
    refine ⟨fun hown hdialable => ?_, fun hon => honly (hconnected.mpr (.inr hon))⟩
    exact ((connectToPeer_starts_iff hdialable.free).mp (hdials hown hdialable)).1
  · rintro ⟨hport, honly⟩
    refine ⟨fun hown hdialable => ?_, fun h => (hconnected.mp h).elim id honly⟩
    refine (connectToPeer_starts_iff hdialable.free).mpr ⟨hport hown hdialable,
      hdialable.unconnected, Bool.eq_false_of_not_eq_true fun hon => ?_, hdialable.due,
      hdialable.unbanned⟩
    exact absurd (honly hon) (Bool.eq_false_iff.mp hdialable.unconnected)

section Sample

/-- One of the nodes that are shipped together, on one port each. -/
def composeSetup : NodeSetup :=
  { setupOf [] with port := 5000, identity := { sampleIdentity with port := 5000 } }

/-- Its configured peers are the other nodes. -/
def composeNode : Node := Node.create composeSetup ["node2:5000", "node3:5000"] sampleStart none

/-- A connection to one host is made. -/
def oneConnection : List NodeEvent :=
  [.connect (sampleEnv 0) "10.0.0.2" 9000,
    .input (sampleEnv 1) (.dialConnected ⟨"10.0.0.2", 9000, 0⟩ (some ("10.0.0.2", 9000)))]

end Sample

/-- A node does not dial its first configured peer, which is another host; and
with a connection to one host it takes another for connected. -/
theorem connectToPeer_by_endpoint_counterexample :
    ((⟨"node2", 5000, 0⟩ : Dial).endpoint ≠ composeSetup.endpoint ∧
      composeNode.Dialable composeSetup (sampleEnv 0) "node2:5000" ∧
      ¬ StartsDial (connectToPeer composeSetup (sampleEnv 0) ⟨"node2", 5000, 0⟩)
        ⟨"node2", 5000, 0⟩ composeNode) ∧
    ∃ tr node, NodeRun composeSetup composeNode tr node ∧
      isAlreadyConnected "10.0.0.3" 9000 [] node = (.returned true, node) ∧
      node.connectedTo "10.0.0.3:9000" = false := by
  refine ⟨⟨by decide, ⟨by decide +kernel, by decide +kernel, by decide +kernel, by decide +kernel,
    by decide +kernel⟩, ?_⟩, ?_⟩
  · exact fun h => absurd ((connectToPeer_starts_iff (by decide +kernel)).mp h).1 (by decide)
  obtain ⟨tr, node, hrun, hcheck⟩ := Machine.Run.exists_of_exec (nodeStep composeSetup)
    oneConnection composeNode
    (fun r => r.2.connectedOnPort 9000 && !r.2.connectedTo "10.0.0.3:9000") (by decide +kernel)
  obtain ⟨hon, hto⟩ := (Bool.and_eq_true _ _).mp hcheck
  refine ⟨tr, node, hrun, ?_, by simpa using hto⟩
  rw [isAlreadyConnected_run, hon, Bool.or_true]

/-! ## The repetitions of a dial -/

/-- The delay of `retryConnect`, in milliseconds. -/
def NodeSetup.retryDelayMs (S : NodeSetup) (retryCount : Nat) (jitter : Int) : Int :=
  min (S.options.retryPolicy.baseDelayMs * 2 ^ retryCount) S.options.retryPolicy.maxDelayMs + jitter

/-- After the last attempt the endpoint is quarantined, before it there is a
timer. -/
theorem dialFailed_run :
    dialFailed S env dial [] node =
      (.returned (),
        if (dial.retryCount : Int) ≥ S.options.retryPolicy.maxRetries then
          { node with
            dials := node.dials.erase dial
            peerManager := node.peerManager.quarantinePeer env.steady dial.endpoint
              S.options.timeouts.quarantineSec }
        else
          { node with
            dials := node.dials.erase dial
            timers := node.timers ++ [(dial, S.retryDelayMs dial.retryCount env.jitter)] }) := by
  rw [dialFailed, bind_run rfl, retryConnect, ite_run]
  split
  · rfl
  · rfl

/-- A timer calls `connectToPeer` with the next count. -/
theorem retryTimer_starts_iff (hfree : node.connectionManager.canAccept .outbound = true) :
    StartsDial (retryTimer S env dial) { dial with retryCount := dial.retryCount + 1 } node ↔
      dial.port ≠ S.port ∧ node.connectedTo dial.endpoint = false ∧
        node.connectedOnPort dial.port = false ∧ node.dialDue S env dial.endpoint = true ∧
        node.peerScorer.isBanned dial.endpoint = false :=
  have hfree' : { node with timers := node.timers.eraseP fun timer => timer.1 = dial
      }.connectionManager.canAccept .outbound = true := hfree
  connectToPeer_starts_iff hfree'

/-- The cooldown counts from the last dial on record. -/
theorem dialDue_iff (env : Env) {endpoint : String} {last : Instant}
    (hlast : node.peerManager.lastDialAttempt[endpoint]? = some last)
    (hcooldown : S.options.retryPolicy.reconnectCooldownMs = 1200) :
    node.dialDue S env endpoint = true ↔
      node.peerManager.isQuarantined env.steady endpoint = false ∧
        1200000000 ≤ env.steady - last := by
  rw [Node.dialDue, PeerManager.shouldAttemptConnection, hlast, hcooldown]
  split
  next h => exact iff_of_false nofun (by simp [h])
  next h =>
    rw [decide_eq_true_eq, le_tdiv_iff (by decide) (by decide)]
    exact (and_iff_right (Bool.eq_false_of_not_eq_true h)).symm

/-- A dial has failed in `node`: its timer is set, and starts the next attempt
when it fires in `node'`; or the endpoint is quarantined after the last one. -/
def FailureHandled (S : NodeSetup) (env env' : Env) (dial : Dial) (node node' : Node) : Prop :=
  ((dialFailed S env dial [] node).2.timers =
      node.timers ++ [(dial, S.retryDelayMs dial.retryCount env.jitter)] ∧
    StartsDial (retryTimer S env' dial) { dial with retryCount := dial.retryCount + 1 } node') ∨
  ((dial.retryCount : Int) ≥ S.options.retryPolicy.maxRetries ∧
    (dialFailed S env dial [] node).2.peerManager = node.peerManager.quarantinePeer env.steady
      dial.endpoint S.options.timeouts.quarantineSec)

/-- What the timer finds when it fires decides. -/
theorem failureHandled_iff (hfree : node'.connectionManager.canAccept .outbound = true) :
    FailureHandled S env env' dial node node' ↔
      (dial.retryCount : Int) ≥ S.options.retryPolicy.maxRetries ∨
      dial.port ≠ S.port ∧ node'.connectedTo dial.endpoint = false ∧
        node'.connectedOnPort dial.port = false ∧ node'.dialDue S env' dial.endpoint = true ∧
        node'.peerScorer.isBanned dial.endpoint = false := by
  rw [FailureHandled, dialFailed_run, retryTimer_starts_iff hfree]
  split
  next hlast => exact iff_of_true (.inr ⟨hlast, rfl⟩) (.inl hlast)
  next hmore =>
    rw [or_iff_right hmore, or_iff_left fun h => hmore h.1]
    exact and_iff_right rfl

/-! ## All attempts -/

/-- How an attempt fails: after how long, in nanoseconds, and with which jitter
for the timer. -/
structure DialFailure where
  latency : Int
  jitter : Int

section Attempts

variable (S : NodeSetup) (env : Env) (host : String) (port : UInt16) (t : Instant)
  (fails : Nat → DialFailure) (node : Node)

/-- When an attempt is made; each timer fires when it expires. -/
def attemptTime : Nat → Instant
  | 0 => t
  | r + 1 => attemptTime r + (fails r).latency + S.retryDelayMs r (fails r).jitter * 1000000

/-- An attempt: the first dial, or the timer that repeats it. -/
def attemptDial : Nat → NodeM Unit
  | 0 => connectToPeer S { env with steady := t } ⟨host, port, 0⟩
  | r + 1 => retryTimer S { env with steady := attemptTime S t fails (r + 1) } ⟨host, port, r⟩

/-- The node when an attempt is due, after those before it have failed. -/
def beforeAttempt : Nat → Node
  | 0 => node
  | r + 1 =>
    (dialFailed S
      { env with
        steady := attemptTime S t fails r + (fails r).latency
        jitter := (fails r).jitter }
      ⟨host, port, r⟩ [] (attemptDial S env host port t fails r [] (beforeAttempt r)).2).2

end Attempts

/-- An endpoint is dialled `maxRetries + 1` times, and then quarantined. -/
def DialledToTheEnd (S : NodeSetup) (env : Env) (host : String) (port : UInt16) (t : Instant)
    (fails : Nat → DialFailure) (node : Node) : Prop :=
  (∀ r : Nat, (r : Int) ≤ S.options.retryPolicy.maxRetries →
    StartsDial (attemptDial S env host port t fails r) ⟨host, port, r⟩
      (beforeAttempt S env host port t fails node r)) ∧
  ∀ r : Nat, (r : Int) = S.options.retryPolicy.maxRetries →
    (beforeAttempt S env host port t fails node (r + 1)).peerManager.quarantinedUntil[
        makeEndpoint host port]? =
      some (attemptTime S t fails r + (fails r).latency +
        S.options.timeouts.quarantineSec * 1000000000)

/-- Nothing changes but dials, timers and the record of dials. -/
structure OnlyDials (node node' : Node) : Prop where
  peers : node'.peers = node.peers
  connection : node'.connection = node.connection
  peerScorer : node'.peerScorer = node.peerScorer
  connectionManager : node'.connectionManager = node.connectionManager
  quarantinedUntil : node'.peerManager.quarantinedUntil = node.peerManager.quarantinedUntil

variable {t : Instant} {fails : Nat → DialFailure} {r : Nat}

/-- What an attempt changes. -/
theorem attemptDial_run (hfree : node.connectionManager.canAccept .outbound = true)
    (hstarts : StartsDial (attemptDial S env host port t fails r) ⟨host, port, r⟩ node) :
    OnlyDials node (attemptDial S env host port t fails r [] node).2 ∧
      (attemptDial S env host port t fails r [] node).2.peerManager.lastDialAttempt[
        makeEndpoint host port]? = some (attemptTime S t fails r) := by
  -- in both cases `connectToPeer` has started its dial
  have hdial : ∀ node : Node, node.connectionManager.canAccept .outbound = true →
      StartsDial (connectToPeer S { env with steady := attemptTime S t fails r } ⟨host, port, r⟩)
        ⟨host, port, r⟩ node →
      connectToPeer S { env with steady := attemptTime S t fails r } ⟨host, port, r⟩ [] node =
        (.returned (), node.dialling { env with steady := attemptTime S t fails r }
          ⟨host, port, r⟩) := by
    intro node hfree hstarts
    rw [connectToPeer_run hfree, if_pos ((connectToPeer_starts_iff hfree).mp hstarts)]
  have hrecord : (node.peerManager.lastDialAttempt.insert (makeEndpoint host port)
      (attemptTime S t fails r))[makeEndpoint host port]? = some (attemptTime S t fails r) := by
    rw [getElem?_insert_eq, if_pos rfl]
  cases r with
  | zero =>
    rw [show attemptDial S env host port t fails 0 [] node = _ from hdial node hfree hstarts]
    exact ⟨⟨rfl, rfl, rfl, rfl, rfl⟩, hrecord⟩
  | succ r =>
    rw [attemptDial, retryTimer, bind_run rfl,
      hdial { node with timers := node.timers.eraseP fun timer => timer.1 = ⟨host, port, r⟩ }
        hfree hstarts]
    exact ⟨⟨rfl, rfl, rfl, rfl, rfl⟩, hrecord⟩

namespace OnlyDials

variable {node'' : Node} (h : OnlyDials node node')

/-- One after the other they still change nothing else. -/
theorem trans (h : OnlyDials node node') (h' : OnlyDials node' node'') : OnlyDials node node'' :=
  ⟨h'.peers.trans h.peers, h'.connection.trans h.connection, h'.peerScorer.trans h.peerScorer,
    h'.connectionManager.trans h.connectionManager,
    h'.quarantinedUntil.trans h.quarantinedUntil⟩

include h

theorem connectedTo (endpoint : String) :
    node'.connectedTo endpoint = node.connectedTo endpoint := by
  rw [Node.connectedTo, Node.connectedTo, h.peers, h.connection]

theorem connectedOnPort (port : UInt16) :
    node'.connectedOnPort port = node.connectedOnPort port := by
  rw [Node.connectedOnPort, Node.connectedOnPort, h.peers, h.connection]

theorem isQuarantined (now : Instant) (endpoint : String) :
    node'.peerManager.isQuarantined now endpoint = node.peerManager.isQuarantined now endpoint := by
  rw [PeerManager.isQuarantined, PeerManager.isQuarantined, h.quarantinedUntil]

end OnlyDials

/-- While attempts are left, the failures of the earlier ones change nothing
else either. -/
theorem beforeAttempt_spec (hfree : node.connectionManager.canAccept .outbound = true)
    (hr : (r : Int) < S.options.retryPolicy.maxRetries)
    (hstarts : ∀ k ≤ r, StartsDial (attemptDial S env host port t fails k) ⟨host, port, k⟩
      (beforeAttempt S env host port t fails node k)) :
    OnlyDials node (beforeAttempt S env host port t fails node (r + 1)) ∧
      (beforeAttempt S env host port t fails node (r + 1)).peerManager.lastDialAttempt[
        makeEndpoint host port]? = some (attemptTime S t fails r) := by
  -- the attempt itself, and then its failure
  have hone : ∀ {r : Nat}, (r : Int) < S.options.retryPolicy.maxRetries →
      OnlyDials node (beforeAttempt S env host port t fails node r) →
      StartsDial (attemptDial S env host port t fails r) ⟨host, port, r⟩
        (beforeAttempt S env host port t fails node r) →
      OnlyDials node (beforeAttempt S env host port t fails node (r + 1)) ∧
        (beforeAttempt S env host port t fails node (r + 1)).peerManager.lastDialAttempt[
          makeEndpoint host port]? = some (attemptTime S t fails r) := by
    intro r hr honly hstart
    obtain ⟨hdials, hrecord⟩ := attemptDial_run (honly.connectionManager ▸ hfree) hstart
    rw [beforeAttempt, dialFailed_run, if_neg (Int.not_le.mpr hr)]
    have hboth := honly.trans hdials
    exact ⟨⟨hboth.peers, hboth.connection, hboth.peerScorer, hboth.connectionManager,
      hboth.quarantinedUntil⟩, hrecord⟩
  induction r with
  | zero => exact hone hr ⟨rfl, rfl, rfl, rfl, rfl⟩ (hstarts 0 (Nat.le_refl 0))
  | succ r ih =>
    have hbefore := ih (by omega) fun k hk => hstarts k (Nat.le_succ_of_le hk)
    exact hone hr hbefore.1 (hstarts (r + 1) (Nat.le_refl _))

/-- Whether the next attempt is made depends on the time since the last. -/
theorem nextAttempt_starts_iff (hfree : node.connectionManager.canAccept .outbound = true)
    (hcooldown : S.options.retryPolicy.reconnectCooldownMs = 1200)
    (hr : (r : Int) < S.options.retryPolicy.maxRetries)
    (hstarts : ∀ k ≤ r, StartsDial (attemptDial S env host port t fails k) ⟨host, port, k⟩
      (beforeAttempt S env host port t fails node k)) :
    StartsDial (attemptDial S env host port t fails (r + 1)) ⟨host, port, r + 1⟩
        (beforeAttempt S env host port t fails node (r + 1)) ↔
      node.peerManager.isQuarantined (attemptTime S t fails (r + 1))
          (makeEndpoint host port) = false ∧
        1200000000 ≤ (fails r).latency + S.retryDelayMs r (fails r).jitter * 1000000 := by
  obtain ⟨honly, hrecord⟩ := beforeAttempt_spec hfree hr hstarts
  obtain ⟨hport, hto, hon, -, hbanned⟩ :=
    (connectToPeer_starts_iff hfree).mp (hstarts 0 (Nat.zero_le r))
  -- the time since the last attempt is its latency and the delay of the timer
  have helapsed : attemptTime S t fails (r + 1) - attemptTime S t fails r =
      (fails r).latency + S.retryDelayMs r (fails r).jitter * 1000000 := by
    rw [attemptTime, Int.add_assoc, add_sub_cancel_left]
  rw [attemptDial]
  refine (retryTimer_starts_iff (honly.connectionManager ▸ hfree)).trans ?_
  have hdue := dialDue_iff { env with steady := attemptTime S t fails (r + 1) } hrecord hcooldown
  rw [honly.isQuarantined, helapsed] at hdue
  rw [← hdue, honly.connectedTo, honly.connectedOnPort, honly.peerScorer]
  exact ⟨fun h => h.2.2.2.1, fun h => ⟨hport, hto, hon, h, hbanned⟩⟩

/-- The default policy. -/
theorem retryDelayMs_default (hpolicy : S.options.retryPolicy = {}) (r : Nat) (jitter : Int) :
    S.retryDelayMs r jitter = min (500 * 2 ^ r) 30000 + jitter := by
  rw [NodeSetup.retryDelayMs, hpolicy]

/-- Quarantine does not begin by waiting. -/
theorem not_isQuarantined_later {pm : PeerManager} {endpoint : String} {now later : Instant}
    (h : pm.isQuarantined now endpoint = false) (hlater : now ≤ later) :
    pm.isQuarantined later endpoint = false := by
  unfold PeerManager.isQuarantined at h ⊢
  split
  next deadline hdeadline =>
    rw [hdeadline] at h
    have hover : ¬ now < deadline := by simpa using h
    exact decide_eq_false fun hstill => hover (Int.lt_of_le_of_lt hlater hstill)
  next => rfl

/-- Attempts that keep to the cooldown come one after the other. -/
theorem le_attemptTime (h : ∀ k < r, 1200000000 ≤
    (fails k).latency + S.retryDelayMs k (fails k).jitter * 1000000) :
    t ≤ attemptTime S t fails r := by
  induction r with
  | zero => exact Int.le_refl t
  | succ r ih =>
    have hbefore := ih fun k hk => h k (Nat.lt_succ_of_lt hk)
    have hlast := h r (Nat.lt_succ_self r)
    rw [attemptTime, Int.add_assoc]
    exact hbefore.trans (Int.le_add_of_nonneg_right ((by decide : (0 : Int) ≤ _).trans hlast))

/-- **When the chain of attempts goes to its end**: with the default policy,
exactly when each of the six delays, together with the time its attempt took to
fail, is as long as the dial cooldown of 1200 ms. The induction is on the
attempts. -/
theorem dialledToTheEnd_iff (hpolicy : S.options.retryPolicy = {})
    (hfree : node.connectionManager.canAccept .outbound = true)
    (hfirst : StartsDial (connectToPeer S { env with steady := t } ⟨host, port, 0⟩)
      ⟨host, port, 0⟩ node) :
    DialledToTheEnd S env host port t fails node ↔
      ∀ r < 6, 1200000000 ≤
        (fails r).latency + S.retryDelayMs r (fails r).jitter * 1000000 := by
  have hmax : S.options.retryPolicy.maxRetries = 6 := by rw [hpolicy]
  have hcooldown : S.options.retryPolicy.reconnectCooldownMs = 1200 := by rw [hpolicy]
  have hnext : ∀ r < 6, (∀ k ≤ r, StartsDial (attemptDial S env host port t fails k) ⟨host, port, k⟩
      (beforeAttempt S env host port t fails node k)) → _ := fun r hr hstarts =>
    nextAttempt_starts_iff hfree hcooldown (by omega) hstarts
  constructor
  · rintro ⟨hstarts, -⟩ r hr
    refine ((hnext r hr fun k hk => hstarts k (by omega)).mp ?_).2
    exact hstarts (r + 1) (by omega)
  -- every gap is longer than the cooldown, so each timer starts the next attempt
  · intro hgaps
    have hdue := ((connectToPeer_starts_iff hfree).mp hfirst).2.2.2.1
    have hquarantined : node.peerManager.isQuarantined t (makeEndpoint host port) = false := by
      rw [Node.dialDue, PeerManager.shouldAttemptConnection] at hdue
      split at hdue
      · cases hdue
      next h => exact Bool.eq_false_of_not_eq_true h
    refine ⟨?_, ?_⟩
    · -- one attempt after the other
      suffices hmain : ∀ r ≤ 6, ∀ k ≤ r, StartsDial (attemptDial S env host port t fails k)
          ⟨host, port, k⟩ (beforeAttempt S env host port t fails node k) from
        fun r hr => hmain r (by omega) r (Nat.le_refl r)
      intro r
      induction r with
      | zero =>
        intro _ k hk
        obtain rfl := Nat.le_zero.mp hk
        exact hfirst
      | succ r ih =>
        intro hr k hk
        have hbefore := ih (by omega)
        rcases Nat.lt_or_eq_of_le hk with hk | rfl
        · exact hbefore k (by omega)
        · refine (hnext r (by omega) hbefore).mpr ⟨?_, hgaps r (by omega)⟩
          exact not_isQuarantined_later hquarantined
            (le_attemptTime fun k hk => hgaps k (by omega))
    · intro r hr
      rw [beforeAttempt, dialFailed_run, if_pos (Int.le_of_eq hr.symm)]
      exact (getElem?_insert_eq).trans (if_pos rfl)

/-- **When the chain of reconnects lives on.** With the default policy, let a
dial fail at any count, after any latency, with any jitter and any lateness of
its timer, while its endpoint stays unconnected and unbanned and a slot is free.
Then the next attempt is made, or the endpoint is quarantined after the last
one, exactly when it was the last one, or the port is not the node's own, no
connection uses it, no quarantine holds and the time from dial to dial is at
least the cooldown of 1200 ms. And an endpoint that never answers is dialled
seven times and then quarantined exactly when each of the six delays keeps to
the cooldown. -/
theorem reconnect_chain_iff (S : NodeSetup) (hpolicy : S.options.retryPolicy = {})
    (env env' : Env) (dial : Dial) (node node' : Node) (latency late : Int)
    (hunconnected : node'.connectedTo dial.endpoint = false)
    (hunbanned : node'.peerScorer.isBanned dial.endpoint = false)
    (hfree' : node'.connectionManager.canAccept .outbound = true)
    (hlast : node'.peerManager.lastDialAttempt[dial.endpoint]? = some (env.steady - latency))
    (htimer : env'.steady =
      env.steady + (min (500 * 2 ^ dial.retryCount) 30000 + env.jitter) * 1000000 + late)
    (t : Instant) (fails : Nat → DialFailure)
    (hfree : node.connectionManager.canAccept .outbound = true)
    (hfirst : StartsDial (connectToPeer S { env with steady := t } ⟨dial.host, dial.port, 0⟩)
      ⟨dial.host, dial.port, 0⟩ node) :
    (FailureHandled S env env' dial node node' ↔
      6 ≤ dial.retryCount ∨
      dial.port ≠ S.port ∧ node'.connectedOnPort dial.port = false ∧
        node'.peerManager.isQuarantined env'.steady dial.endpoint = false ∧
        1200000000 ≤ latency +
          (min (500 * 2 ^ dial.retryCount) 30000 + env.jitter) * 1000000 + late) ∧
    (DialledToTheEnd S env dial.host dial.port t fails node ↔
      ∀ r < 6, 1200000000 ≤
        (fails r).latency + (min (500 * 2 ^ r) 30000 + (fails r).jitter) * 1000000) := by
  constructor
  -- what has gone by since the attempt that failed, on the clock of the timer
  · have helapsed : env'.steady - (env.steady - latency) =
        latency + (min (500 * 2 ^ dial.retryCount) 30000 + env.jitter) * 1000000 + late := by
      rw [htimer]
      exact (by omega : ∀ a b c d : Int, a + b + c - (a - d) = d + b + c) _ _ _ _
    have hmax : (dial.retryCount : Int) ≥ S.options.retryPolicy.maxRetries ↔
        6 ≤ dial.retryCount := by
      rw [hpolicy]
      exact Int.ofNat_le (m := 6)
    have hdue := dialDue_iff (S := S) env' hlast (by rw [hpolicy])
    rw [helapsed] at hdue
    rw [failureHandled_iff hfree', hmax, hdue]
    simp only [hunconnected, hunbanned, true_and, and_true]
  · rw [dialledToTheEnd_iff hpolicy hfree hfirst]
    simp only [retryDelayMs_default hpolicy]

section Sample

/-- The sample node. -/
def nodeOfDials : Node := Node.create (setupOf []) [] sampleStart none

/-- A dial to a host that refuses connections. -/
def refused : Dial := ⟨"10.0.0.2", 9001, 0⟩

/-- Half a second on the steady clock. -/
def halfSecond : Env := { sampleEnv 0 with steady := 500000000 }

/-- A dial is refused at once, and its timer fires. -/
def refusedAtOnce : List NodeEvent :=
  [.connect (sampleEnv 0) "10.0.0.2" 9001,
    .input (sampleEnv 0) (.dialFailed refused),
    .input halfSecond (.retryTimer refused)]

end Sample

/-- Nothing is dialled then, no timer is set, and nothing is quarantined. -/
theorem reconnect_chain_counterexample :
    ∃ tr node, NodeRun (setupOf []) nodeOfDials tr node ∧
      (tr.map fun e => (e.post.dials, e.post.timers)) =
        [([refused], []), ([], [(refused, 500)]), ([], [])] ∧
      node.connectedTo refused.endpoint = false ∧
      node.peerScorer.isBanned refused.endpoint = false ∧
      node.connectionManager.canAccept .outbound = true ∧
      node.peerManager.quarantinedUntil.isEmpty = true := by
  have hrun := Machine.Run.exists_of_exec (nodeStep (setupOf [])) refusedAtOnce nodeOfDials
    (fun r => decide ((r.1.map fun e => (e.post.dials, e.post.timers)) =
        [([refused], []), ([], [(refused, 500)]), ([], [])] ∧
      r.2.connectedTo refused.endpoint = false ∧
      r.2.peerScorer.isBanned refused.endpoint = false ∧
      r.2.connectionManager.canAccept .outbound = true ∧
      r.2.peerManager.quarantinedUntil.isEmpty = true))
    (by decide +kernel)
  obtain ⟨tr, node, hrun, hcheck⟩ := hrun
  exact ⟨tr, node, hrun, of_decide_eq_true hcheck⟩

/-- Dials that fail after a second each. -/
theorem reconnect_chain_slow_failures :
    FailureHandled (setupOf []) (sampleEnv 1) { sampleEnv 1 with steady := 1500000000 } refused
        nodeOfDials (nodeOfDials.dialling (sampleEnv 0) refused) ∧
      DialledToTheEnd (setupOf []) (sampleEnv 1) "10.0.0.2" 9001 0 (fun _ => ⟨1000000000, 0⟩)
        nodeOfDials := by
  have hchain := reconnect_chain_iff (setupOf []) rfl (sampleEnv 1)
    { sampleEnv 1 with steady := 1500000000 } refused nodeOfDials
    (nodeOfDials.dialling (sampleEnv 0) refused) 1000000000 0 (by decide +kernel)
    (by decide +kernel) (by decide +kernel) (by decide +kernel) (by decide +kernel) 0
    (fun _ => ⟨1000000000, 0⟩) (by decide +kernel)
    ((connectToPeer_starts_iff (by decide +kernel)).mpr (by decide +kernel))
  refine ⟨hchain.1.mpr (.inr (by decide +kernel)), hchain.2.mpr fun r _ => ?_⟩
  show (1200000000 : Int) ≤ 1000000000 + (min (500 * 2 ^ r) 30000 + 0) * 1000000
  have hone : (1 : Int) ≤ 2 ^ r := one_le_pow₀ (by decide)
  have hlow : (500 : Int) ≤ min (500 * 2 ^ r) 30000 := le_min (by omega) (by decide)
  omega

end PersonalBlockchain
