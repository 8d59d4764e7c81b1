import PersonalBlockchain.Lib.Gathering
import PersonalBlockchain.P2P.Dialling
import PersonalBlockchain.P2P.Frames

/-!
# Personal blockchain — what a node learns of other peers

`Message.names` are the endpoints a message names for the node that handles it,
and `NodeEvent.names` what an event brings in that way. `Learns` states what
becomes of what a node knows: both managers gather the same endpoints in the same
order, and all that the node says and dials stays within `E` when what it knows
does.

`nodeStep_hears` states that an event makes a node learn nothing but what it
brings.
-/

namespace PersonalBlockchain

open Locking Routine NodeM Gathering

/-! ## The endpoints in messages -/

/-- A string, and nothing else. -/
def Json.string? : Json → Option String
  | .string s => some s
  | _ => none

/-- The strings of an array. -/
def Json.strings : Json → List String
  | .array items => items.filterMap Json.string?
  | _ => []

/-- What is learned of an announcement. -/
def announcedEndpoints (publicIp : String) (peerPort : UInt16) (endpoint : String) : List String :=
  (if publicIp ≠ "" ∧ peerPort > 0 then [makeEndpoint publicIp peerPort] else []) ++ [endpoint]

/-- The endpoints a message names. -/
def Message.names (msg : Message) : List String :=
  match msg.type with
  | .nodeAnnounce =>
    match msg.payload.value Json.getString "publicIp" "", msg.payload.value Json.getInt "port" 0,
      msg.payload.value Json.getString "endpoint" "" with
    | .ok publicIp, .ok port, .ok endpoint =>
      announcedEndpoints publicIp port.toUInt32.toUInt16 endpoint
    | _, _, _ => []
  | .registerNode =>
    match msg.payload.value Json.getString "endpoint" "" with
    | .ok endpoint => [endpoint]
    | .error _ => []
  | .responseBootstrap | .responsePeers | .peerList => msg.payload.strings
  | _ => []

/-- The endpoints an event brings. -/
def NodeEvent.names : NodeEvent → List String
  | input _ (.message _ msg) => msg.names
  | input _ (.accepted remote) => [acceptedEndpoint remote]
  | input _ (.dialConnected dial _) | input _ (.dialFailed dial) | input _ (.retryTimer dial) =>
    [dial.endpoint]
  | connect _ host port => [makeEndpoint host port]
  | _ => []

/-! ## What is known -/

/-- Endpoints are gathered, but not the empty one. -/
abbrev learn (known endpoints : List String) : List String :=
  addAll (fun endpoint => endpoint = "") known endpoints

theorem addKnownPeer_knownPeers {endpoint : String} {pm : PeerManager} :
    (pm.addKnownPeer endpoint).knownPeers = learn pm.knownPeers [endpoint] := by
  simp only [PeerManager.addKnownPeer, learn, addAll_cons, addAll_nil, add, decide_eq_true_eq]
  split
  · rfl
  · rfl

theorem mergeKnownPeers_knownPeers {endpoints : List String} {pm : PeerManager} :
    (pm.mergeKnownPeers endpoints).knownPeers = learn pm.knownPeers endpoints := by
  induction endpoints generalizing pm with
  | nil => rfl
  | cons endpoint rest ih =>
    show ((pm.addKnownPeer endpoint).mergeKnownPeers rest).knownPeers = _
    rw [ih, addKnownPeer_knownPeers]
    rfl

theorem registerPeer_topologyPeers {endpoint : String} {bm : BootstrapManager} :
    (bm.registerPeer endpoint).topologyPeers = learn bm.topologyPeers [endpoint] := by
  simp only [BootstrapManager.registerPeer, learn, addAll_cons, addAll_nil, add,
    decide_eq_true_eq]
  split
  · rfl
  · rfl

theorem registerPeer_bootstrapPeers {endpoint : String} {bm : BootstrapManager} :
    (bm.registerPeer endpoint).bootstrapPeers = bm.bootstrapPeers := by
  rw [BootstrapManager.registerPeer]
  split
  · rfl
  · rfl

/-- Whatever a node knows, dials and says of endpoints is in `E`. -/
structure Node.Knows (E : Set String) (node : Node) : Prop where
  known : ∀ endpoint ∈ node.peerManager.knownPeers, endpoint ∈ E
  topology : ∀ endpoint ∈ node.bootstrapManager.topologyPeers, endpoint ∈ E
  bootstrap : ∀ endpoint ∈ node.bootstrapManager.bootstrapPeers, endpoint ∈ E
  dials : ∀ dial ∈ node.dials, dial.endpoint ∈ E
  timers : ∀ timer ∈ node.timers, timer.1.endpoint ∈ E
  queues : ∀ p, ∀ msg ∈ (node.connection p).writeQueue, ∀ endpoint ∈ msg.names, endpoint ∈ E

/-- Both managers gather these endpoints. -/
structure Learns (E : Set String) (endpoints : List String) (node node' : Node) : Prop where
  known : node'.peerManager.knownPeers = learn node.peerManager.knownPeers endpoints
  topology :
    node'.bootstrapManager.topologyPeers = learn node.bootstrapManager.topologyPeers endpoints
  keeps : node.Knows E → node'.Knows E

/-- Some of the endpoints that are named are learned. -/
def Hears (E : Set String) (names : List String) (node node' : Node) : Prop :=
  ∃ endpoints ⊆ names, Learns E endpoints node node'

variable {E : Set String} {names endpoints endpoints' : List String} {node node' node'' : Node}

theorem Rests.learns (h : Rests node node') : Learns E [] node node' where
  known := h.knownPeers
  topology := congrArg BootstrapManager.topologyPeers h.bootstrap
  keeps hknows :=
    ⟨h.knownPeers ▸ hknows.known, h.bootstrap ▸ hknows.topology, h.bootstrap ▸ hknows.bootstrap,
      fun dial hdial => hknows.dials dial (h.dials hdial),
      fun timer htimer => hknows.timers timer (h.timers htimer),
      fun p msg hmsg => hknows.queues p msg (h.queues p hmsg)⟩

instance : Plain (Learns E []) := ⟨Rests.learns⟩

theorem Learns.trans (h : Learns E endpoints node node') (h' : Learns E endpoints' node' node'') :
    Learns E (endpoints ++ endpoints') node node'' where
  known := by rw [h'.known, h.known, learn, learn, learn, addAll_append]
  topology := by rw [h'.topology, h.topology, learn, learn, learn, addAll_append]
  keeps := h'.keeps ∘ h.keeps

theorem Learns.hears (h : Learns E endpoints node node') (hsub : endpoints ⊆ names) :
    Hears E names node node' := ⟨endpoints, hsub, h⟩

instance : IsTrans Node (Hears E names) :=
  ⟨fun _ _ _ ⟨_, hsub, h⟩ ⟨_, hsub', h'⟩ => ⟨_, List.append_subset.mpr ⟨hsub, hsub'⟩, h.trans h'⟩⟩

/-- Steps that learn nothing. -/
theorem learns_of_steps (h : Relation.ReflTransGen (Learns E []) node node') :
    Learns E [] node node' := by
  induction h with
  | refl => exact Rests.learns .rest
  | tail _ hstep ih => exact ih.trans hstep

/-! ## What is said and dialled -/

/-- Where a node finds itself: its own endpoints are in `E`, and so are the other
spellings of what is; containers are iterated and shuffled within it. -/
structure Hosts (S : NodeSetup) (env : Env) (E : Set String) : Prop where
  own : S.endpoint ∈ E
  identity : makeEndpoint S.identity.advertisedIp S.identity.port ∈ E
  respelled : ∀ endpoint ∈ E, ∀ host port,
    PeerManager.parseEndpoint endpoint = some (host, port) → makeEndpoint host port ∈ E
  order : ∀ endpoints, (∀ endpoint ∈ endpoints, endpoint ∈ E) →
    ∀ endpoint ∈ env.order endpoints, endpoint ∈ E
  shuffle : ∀ endpoints, (∀ endpoint ∈ endpoints, endpoint ∈ E) →
    ∀ endpoint ∈ env.shuffle endpoints, endpoint ∈ E

/-- With no bound on the endpoints there is nothing to ask. -/
theorem hosts_univ {S : NodeSetup} {env : Env} : Hosts S env Set.univ :=
  ⟨trivial, trivial, fun _ _ _ _ _ => trivial, fun _ _ _ _ => trivial, fun _ _ _ _ => trivial⟩

namespace NodeM

variable {S : NodeSetup} {env : Env} {held : List Mutex} {p : PeerId} {msg : Message}

/-- A message may be sent when the endpoints it names are within the bound. -/
theorem says_learns (h : ∀ endpoint ∈ msg.names, endpoint ∈ E) : Says (Learns E []) msg := by
  refine fun node p => ⟨rfl, rfl, fun hknows => ⟨hknows.known, hknows.topology, hknows.bootstrap,
    hknows.dials, hknows.timers, fun q msg' hmsg => ?_⟩⟩
  dsimp only [Node.updatePeer] at hmsg
  split at hmsg
  -- the queue of this connection has the message now, unless it was full
  · rcases mem_send hmsg with hmsg | rfl
    · exact hknows.queues q msg' hmsg
    · exact h
  · exact hknows.queues q msg' hmsg

/-- Most messages name no endpoint. -/
theorem says_nameless (h : msg.names = []) : Says (Learns E []) msg :=
  says_learns fun _ hendpoint => absurd (h ▸ hendpoint) List.not_mem_nil

theorem dials_learns {dial : Dial} (h : dial.endpoint ∈ E) : Dials (Learns E []) dial := by
  refine fun node => ⟨rfl, rfl, fun hknows => { hknows with dials := fun dial' hdial => ?_ }⟩
  rcases List.mem_append.mp hdial with hdial | hdial
  · exact hknows.dials dial' hdial
  · exact List.mem_singleton.mp hdial ▸ h

theorem waits_learns {dial : Dial} (h : dial.endpoint ∈ E) : Waits (Learns E []) dial := by
  refine fun node _ => ⟨rfl, rfl, fun hknows => { hknows with timers := fun timer htimer => ?_ }⟩
  rcases List.mem_append.mp htimer with htimer | htimer
  · exact hknows.timers timer htimer
  · exact List.mem_singleton.mp htimer ▸ h

/-- What a routine says and dials may be within `E` because the node knows
nothing else when it starts. -/
theorem learns_at {α : Type} {x : NodeM α} (huniv : Does (Learns Set.univ []) held x)
    (h : node.Knows E → Does (Learns E []) held x) :
    Relation.ReflTransGen (Learns E []) node (x held node).2 := by
  by_cases hknows : node.Knows E
  · exact h hknows node
  · have hsteps := learns_of_steps (huniv node)
    exact .single ⟨hsteps.known, hsteps.topology, fun hknows' => absurd hknows' hknows⟩

theorem names_announce : Message.names ⟨.nodeAnnounce, .object [
    ("endpoint", .string (makeEndpoint S.identity.advertisedIp S.identity.port)),
    ("nodeId", .string S.identity.nodeId),
    ("port", .numberUnsigned S.port.toUInt64),
    ("publicIp", .string S.identity.advertisedIp),
    ("publicKey", .string S.identity.publicKey)]⟩ =
      announcedEndpoints S.identity.advertisedIp S.port
        (makeEndpoint S.identity.advertisedIp S.identity.port) := by
  show announcedEndpoints _ S.port.toUInt64.toUInt32.toInt32.toUInt32.toUInt16 _ = _
  simp

theorem mem_announcedEndpoints {publicIp endpoint endpoint' : String} {peerPort : UInt16}
    (h : endpoint' ∈ announcedEndpoints publicIp peerPort endpoint) :
    endpoint' = makeEndpoint publicIp peerPort ∨ endpoint' = endpoint := by
  unfold announcedEndpoints at h
  split at h
  · simpa using h
  · exact .inr (by simpa using h)

/-- What an answer with these endpoints names. -/
theorem strings_answer (endpoints : List String) :
    Json.strings (.array (endpoints.map .string)) = endpoints := by
  show (endpoints.map Json.string).filterMap Json.string? = endpoints
  rw [List.filterMap_map]
  exact List.filterMap_some

variable (hE : Hosts S env E)
include hE

theorem sendNodeAnnounce_learns : Does (Learns E []) held (sendNodeAnnounce S p) := by
  refine .ask fun node => send_plain (says_learns fun endpoint hmem => ?_) node
  rw [names_announce] at hmem
  rcases mem_announcedEndpoints hmem with rfl | rfl
  · exact hE.own
  · exact hE.identity

theorem connectToEndpoint_learns {endpoint : String} (h : endpoint ∈ E) :
    Does (Learns E []) held (connectToEndpoint S env endpoint) :=
  connectToEndpoint_plain fun host port hparse =>
    dials_learns (hE.respelled endpoint h host port hparse)

theorem attemptRandomPeerExpansion_learns :
    Does (Learns E []) held (attemptRandomPeerExpansion S env) := by
  refine .bind ask_plain fun outbound => .ite (.pure _) (.bind ask_plain fun connected => ?_)
  refine .bind ask_plain fun own => .ask fun node => learns_at ?_ fun hknows => ?_
  · exact .forEach fun endpoint _ => connectToEndpoint_learns hosts_univ trivial
  -- the candidates are some of the known peers, in a random order
  · refine .forEach fun endpoint hmem => connectToEndpoint_learns hE ?_
    refine hE.shuffle _ (fun peer hpeer => ?_) endpoint (List.mem_of_mem_take hmem)
    exact hknows.known peer (List.mem_filter.mp hpeer).1

theorem connectToBootstrapPeers_learns :
    Does (Learns E []) held (connectToBootstrapPeers S env) := by
  refine .ask fun node => learns_at ?_ fun hknows => ?_
  · exact .forEach fun endpoint _ => connectToEndpoint_learns hosts_univ trivial
  · exact .forEach fun endpoint hmem => connectToEndpoint_learns hE (hknows.bootstrap _ hmem)

theorem gossip_learns : Does (Learns E []) held (gossip S env) := by
  refine .bind (.bind ask_plain fun _ => broadcast_plain (says_nameless rfl)) fun _ => ?_
  refine .bind (attemptRandomPeerExpansion_learns hE) fun _ => ?_
  exact .bind tellScorer_plain fun _ => refreshMetrics_plain

theorem onRequestBootstrap_learns : Does (Learns E []) held (onRequestBootstrap env p) := by
  refine .ask fun node => learns_at ?_ fun hknows => ?_
  · exact send_plain (says_learns fun _ _ => trivial)
  · refine send_plain (says_learns fun endpoint hmem => ?_)
    rw [Message.names, strings_answer] at hmem
    exact hE.order _ hknows.topology endpoint (List.mem_of_mem_take hmem)

/-- The answer is what is known, and what is known is within the bound. -/
theorem onRequestPeers_learns : Does (Learns E []) held (onRequestPeers S env p) := by
  -- the known peers are read first, the topology later
  refine .ask fun node => learns_at ?_ fun hknows => ?_
  · exact .bind ask_plain fun _ => .bind ask_plain fun _ =>
      send_plain (says_learns fun _ _ => trivial)
  · refine .ask fun node' => Within.ask (fun node' => learns_at ?_ fun hknows' => ?_) node'
    · exact send_plain (says_learns fun _ _ => trivial)
    · refine send_plain (says_learns fun endpoint hmem => ?_)
      rw [Message.names, strings_answer, mem_eraseReps, List.mem_mergeSort, List.mem_append,
        List.mem_append, List.mem_singleton] at hmem
      rcases hmem with (hmem | rfl) | hmem
      · exact hknows.known endpoint hmem
      · exact hE.identity
      · exact hE.order _ hknows'.topology endpoint (List.mem_of_mem_take hmem)

end NodeM

/-! ## What is learned -/

/-- Endpoints that both managers gather. -/
def Node.learning (endpoints : List String) (node : Node) : Node :=
  { node with
    peerManager := node.peerManager.mergeKnownPeers endpoints
    bootstrapManager := endpoints.foldl (fun bm endpoint => bm.registerPeer endpoint)
      node.bootstrapManager }

theorem foldl_registerPeer (endpoints : List String) (bm : BootstrapManager) :
    (endpoints.foldl (fun bm endpoint => bm.registerPeer endpoint) bm).topologyPeers =
      learn bm.topologyPeers endpoints ∧
    (endpoints.foldl (fun bm endpoint => bm.registerPeer endpoint) bm).bootstrapPeers =
      bm.bootstrapPeers := by
  induction endpoints generalizing bm with
  | nil => exact ⟨rfl, rfl⟩
  | cons endpoint rest ih =>
    refine ⟨(ih (bm.registerPeer endpoint)).1.trans ?_,
      (ih (bm.registerPeer endpoint)).2.trans registerPeer_bootstrapPeers⟩
    rw [registerPeer_topologyPeers]
    rfl

theorem learning_learns (hE : ∀ endpoint ∈ endpoints, endpoint ∈ E) :
    Learns E endpoints node (node.learning endpoints) := by
  -- whatever a list learns is one of the endpoints it is given
  have hlearned : ∀ known, (∀ endpoint ∈ known, endpoint ∈ E) →
      ∀ endpoint ∈ learn known endpoints, endpoint ∈ E := by
    intro known hknown endpoint hmem
    rcases mem_addAll.mp hmem with hmem | ⟨hmem, -⟩
    · exact hknown endpoint hmem
    · exact hE endpoint hmem
  have hbootstrap := foldl_registerPeer endpoints node.bootstrapManager
  refine ⟨mergeKnownPeers_knownPeers, hbootstrap.1, fun hknows =>
    { hknows with known := ?_, topology := ?_, bootstrap := ?_ }⟩
  · show ∀ endpoint ∈ (node.peerManager.mergeKnownPeers endpoints).knownPeers, endpoint ∈ E
    rw [mergeKnownPeers_knownPeers]
    exact hlearned _ hknows.known
  · show ∀ endpoint ∈ BootstrapManager.topologyPeers _, endpoint ∈ E
    rw [Node.learning, hbootstrap.1]
    exact hlearned _ hknows.topology
  · show ∀ endpoint ∈ BootstrapManager.bootstrapPeers _, endpoint ∈ E
    rw [Node.learning, hbootstrap.2]
    exact hknows.bootstrap

/-- Whether a node takes an endpoint from a list that it receives. -/
def Node.discovers (S : NodeSetup) (env : Env) (node : Node) (endpoint : String) : Bool :=
  if endpoint = "" ∨ endpoint = makeEndpoint S.identity.advertisedIp S.identity.port then false
  else
    match PeerManager.parseEndpoint endpoint with
    | none => false
    | some (_, port) =>
      if port = S.port then false
      else !(node.peerScorer.isBanned endpoint ||
        node.peerManager.isQuarantined env.steady endpoint)

namespace NodeM

variable {S : NodeSetup} {env : Env} {held : List Mutex} {p : PeerId} {msg : Message}

theorem isDiscovered_run {endpoint : String} :
    isDiscovered S env endpoint [] node = (.returned (node.discovers S env endpoint), node) := by
  rw [isDiscovered, bind_run rfl, Node.discovers]
  split
  · rfl
  · cases PeerManager.parseEndpoint endpoint with
    | none => rfl
    | some parts =>
      dsimp only
      split
      · rfl
      · rfl

/-- The filter over the list that came, which changes nothing. -/
theorem discovered_run {items : List Json} : discovered S env items [] node =
    (.returned ((Json.strings (.array items)).filter (node.discovers S env)), node) := by
  induction items with
  | nil => rfl
  | cons item rest ih =>
    cases item with
    -- other entries are skipped
    | string endpoint =>
      rw [discovered, bind_run isDiscovered_run, bind_run ih]
      show (Ending.returned (if node.discovers S env endpoint = true then _ else _), node) = _
      rw [← List.filter_cons]
      rfl
    | _ => exact ih

/-- The endpoints that are taken are learned first, and then the expansion runs.
-/
theorem handleReceivedPeers_run {items : List Json} :
    handleReceivedPeers S env (.array items) [] node =
      (do
        attemptRandomPeerExpansion S env
        refreshMetrics : NodeM Unit) []
          (node.learning ((Json.strings (.array items)).filter (node.discovers S env))) := by
  -- the loop writes one manager only
  have hregister : ∀ (endpoints : List String) (node : Node),
      endpoints.foldl (fun node peer => { node with
        bootstrapManager := node.bootstrapManager.registerPeer peer }) node =
      { node with
        bootstrapManager :=
          endpoints.foldl (fun bm peer => bm.registerPeer peer) node.bootstrapManager } := by
    intro endpoints
    induction endpoints with
    | nil => exact fun _ => rfl
    | cons endpoint rest ih => exact fun node => ih _
  rw [handleReceivedPeers, bind_run discovered_run, bind_run rfl]
  rw [bind_run (forEach_run (fun _ _ => rfl) _ _), hregister]
  rfl

/-- Steps that learn nothing ensure that nothing is heard. -/
theorem ensures_hears {α : Type} {x : NodeM α} (h : Does (Learns E []) held x) :
    Ensures (Hears E names) held x :=
  .of_within h fun _ _ hsteps => (learns_of_steps hsteps).hears (List.nil_subset _)

theorem learning_hears (endpoints : List String) (hE : ∀ endpoint ∈ endpoints, endpoint ∈ E)
    (hsub : endpoints ⊆ names) : Hears E names node (node.learning endpoints) :=
  (learning_learns hE).hears hsub

theorem learnEndpoint_hears {endpoint : String} (hmem : endpoint ∈ names)
    (hE : ∀ endpoint ∈ names, endpoint ∈ E) :
    Ensures (Hears E names) held (learnEndpoint endpoint) := by
  refine .bind (.withLock .change) (fun _ => .withLock .change) ?_
  rintro node _ _ rfl rfl
  exact learning_hears [endpoint] (by simpa using hE endpoint hmem)
    (by simpa using hmem)

/-- Both managers are told, one after the other. -/
theorem gather_hears {α : Type} {endpoint : String} {x : NodeM α} (hmem : endpoint ∈ names)
    (hE : ∀ endpoint ∈ names, endpoint ∈ E) (hx : Ensures (Hears E names) held x) :
    Ensures (Hears E names) held (tellPeerManager (PeerManager.addKnownPeer endpoint) >>= fun _ =>
      tellBootstrap (BootstrapManager.registerPeer endpoint) >>= fun _ => x) := by
  have hlast : Ensures (fun node node' => Hears E names { node with
      bootstrapManager := node.bootstrapManager.registerPeer endpoint } node') held
      (tellBootstrap (BootstrapManager.registerPeer endpoint) >>= fun _ => x) :=
    .bind (.withLock .change) (fun _ => hx) fun _ _ _ hmid h => hmid ▸ h
  refine .bind (.withLock .change) (fun _ => hlast) ?_
  rintro node _ node' rfl h
  exact IsTrans.trans _ _ _ (learning_hears [endpoint]
    (by simpa using hE endpoint hmem) (by simpa using hmem)) h

/-! ## The handlers -/

/-- The ledger and its callbacks know nothing of endpoints. -/
theorem callLedger_learns {α : Type} {f : Blockchain → Outcome α} :
    Does (Learns E []) held (callLedger S f) := by
  refine .withLock (.bind (.act fun node => ⟨rfl, rfl, fun hknows => ?_⟩) fun outcome => ?_)
  · exact ⟨hknows.known, hknows.topology, hknows.bootstrap, hknows.dials, hknows.timers,
      hknows.queues⟩
  · refine .bind (.forEach fun effect _ => runEffect_plain ?_ ?_) fun _ => .pure _
    · exact fun _ _ => says_nameless rfl
    · exact fun _ _ => says_nameless rfl

theorem onNewTransaction_learns {key : String} {payload : Json} :
    Does (Learns E []) held (onNewTransaction S env p key payload) := by
  refine .attempt (.bind (.liftExcept _) fun tx => ?_) penalizePeerByEndpoint_plain
  refine .bind alreadySeenTx_plain fun seen => .ite ?_ (.pure _)
  refine .bind callLedger_learns fun accepted => .ite ?_ penalizePeerByEndpoint_plain
  exact .bind rewardPeerByEndpoint_plain fun _ => broadcast_plain (says_nameless rfl)

theorem onNewBlock_learns {key : String} {payload : Json} :
    Does (Learns E []) held (onNewBlock S env p key payload) := by
  refine .attempt (.bind (.liftExcept _) fun block => ?_) penalizePeerByEndpoint_plain
  refine .bind alreadySeenBlock_plain fun seen => .ite (.bind ?_ fun accepted => ?_) (.pure _)
  -- a block that does not extend the tip may make the node ask for the chain
  · refine .bind ask_plain fun chain => .ite callLedger_learns ?_
    exact .guarded (send_plain (says_nameless rfl)) fun _ => .pure _
  · exact .ite (.bind rewardPeerByEndpoint_plain fun _ => broadcast_plain (says_nameless rfl))
      (.pure _)

theorem onResponseChain_learns {key : String} {payload : Json} :
    Does (Learns E []) held (onResponseChain S env key payload) := by
  refine .attempt (.bind (.liftExcept _) fun chain => ?_) penalizePeerByEndpoint_plain
  exact .bind callLedger_learns fun replaced => .ite rewardPeerByEndpoint_plain (.pure _)

section Hears

variable (hhosts : Hosts S env E) (hE : ∀ endpoint ∈ msg.names, endpoint ∈ E)
include hE

theorem onNodeAnnounce_hears (htype : msg.type = .nodeAnnounce) :
    Ensures (Hears E msg.names) held (onNodeAnnounce env p msg.payload) := by
  refine .liftExcept_bind fun publicIp hip => .liftExcept_bind fun port hport =>
    .liftExcept_bind fun endpoint hendpoint => ?_
  have hnames : msg.names =
      announcedEndpoints publicIp port.toUInt32.toUInt16 endpoint := by
    simp only [Message.names, htype, hip, hport, hendpoint]
  have hlast : Ensures (Hears E msg.names) held
      (if endpoint ≠ "" then learnEndpoint endpoint else pure ()) :=
    .ite (fun _ => learnEndpoint_hears (by simp [hnames, announcedEndpoints]) hE)
      fun _ => ensures_hears (.pure _)
  -- an address is learned before the endpoint, if one is given
  refine .ite (fun hgiven => ?_) fun _ => hlast
  refine .seq (ensures_hears (update_plain fun _ => List.Subset.refl _)) fun _ => ?_
  refine .seq (ensures_hears tellScorer_plain) fun _ => .seq ?_ fun _ => hlast
  exact learnEndpoint_hears (by simp [hnames, announcedEndpoints, hgiven]) hE

include hhosts

theorem onRegisterNode_hears (htype : msg.type = .registerNode) :
    Ensures (Hears E msg.names) held (onRegisterNode env p msg.payload) := by
  refine .liftExcept_bind fun endpoint hendpoint => ?_
  have hnames : msg.names = [endpoint] := by simp only [Message.names, htype, hendpoint]
  have htopology : Ensures (Hears E msg.names) held (onRequestBootstrap env p) :=
    ensures_hears (onRequestBootstrap_learns hhosts)
  refine .ite (fun _ => ?_) fun _ => htopology
  -- here the topology comes first
  have hadd : Ensures (fun node node' => Hears E msg.names
      { node with peerManager := node.peerManager.addKnownPeer endpoint } node') held
      (tellPeerManager (PeerManager.addKnownPeer endpoint) >>= fun _ =>
        onRequestBootstrap env p) :=
    .bind (.withLock .change) (fun _ => htopology) fun _ _ _ hmid h => hmid ▸ h
  refine .bind (.withLock .change) (fun _ => hadd) ?_
  rintro node _ node' rfl h
  exact IsTrans.trans _ _ _ (learning_hears [endpoint] (hnames ▸ hE)
    (hnames ▸ List.Subset.refl _)) h

/-- Of a list some endpoints are taken, and the rest is dropped. -/
theorem handleReceivedPeers_hears (hnames : msg.names = msg.payload.strings) :
    Ensures (Hears E msg.names) [] (handleReceivedPeers S env msg.payload) := by
  cases hpayload : msg.payload with
  | array items =>
    -- all that the node takes is learned at once, then it dials some of it
    intro node u node' h
    rw [handleReceivedPeers_run] at h
    have hsub : (Json.strings (.array items)).filter (node.discovers S env) ⊆ msg.names := by
      rw [hnames, hpayload]
      exact List.filter_sublist.subset
    have hrest : Ensures (Hears E msg.names) [] (do
        attemptRandomPeerExpansion S env
        refreshMetrics : NodeM Unit) :=
      ensures_hears (.bind (attemptRandomPeerExpansion_learns hhosts) fun _ =>
        refreshMetrics_plain)
    exact IsTrans.trans _ _ _ (learning_hears _ (fun endpoint hmem => hE endpoint (hsub hmem)) hsub)
      (hrest _ _ _ h)
  | _ => exact ensures_hears (.pure _)

/-- One case for each case of the `switch`. -/
theorem dispatch_hears {key : String} :
    Ensures (Hears E msg.names) [] (dispatch S env p key msg) := by
  unfold dispatch
  cases htype : msg.type with
  | nodeAnnounce => exact onNodeAnnounce_hears hE htype
  | registerNode => exact onRegisterNode_hears hhosts hE htype
  | requestBootstrap => exact ensures_hears (onRequestBootstrap_learns hhosts)
  | responseBootstrap | responsePeers | peerList =>
    exact handleReceivedPeers_hears hhosts hE (by simp only [Message.names, htype])
  | newTransaction => exact ensures_hears onNewTransaction_learns
  | newBlock => exact ensures_hears onNewBlock_learns
  | requestChain =>
    exact ensures_hears (.bind ask_plain fun _ => send_plain (says_nameless rfl))
  | responseChain => exact ensures_hears onResponseChain_learns
  | ping => exact ensures_hears (send_plain (says_nameless rfl))
  | pong => exact ensures_hears tellScorer_plain
  | requestPeers => exact ensures_hears (onRequestPeers_learns hhosts)
  | unknown => exact ensures_hears (.pure _)

/-- A message that is dropped or found twice teaches nothing. -/
theorem handleMessage_hears : Ensures (Hears E msg.names) [] (handleMessage S env p msg) := by
  -- the gates on the way to the dispatch learn nothing, whatever they find
  refine .seq (ensures_hears (.read _)) fun peerKey => ?_
  refine .seq (ensures_hears ask_plain) fun banned => ?_
  refine .ite (fun _ => ensures_hears removePeer_plain) fun _ => ?_
  refine .seq (ensures_hears isRateLimited_plain) fun limited => ?_
  refine .ite (fun _ => ensures_hears penalizePeerByEndpoint_plain) fun _ => ?_
  refine .seq (ensures_hears isDuplicate_plain) fun duplicate => ?_
  refine .ite (fun _ => ensures_hears (.pure _)) fun _ => ?_
  refine .seq (ensures_hears tellScorer_plain) fun _ => .seq (dispatch_hears hhosts hE) fun _ => ?_
  exact ensures_hears refreshMetrics_plain

end Hears

/-- The endpoint of the socket is learned, whoever it is. -/
theorem accepted_hears {remote : Option (String × UInt16)} (hhosts : Hosts S env E)
    (hE : ∀ endpoint ∈ [acceptedEndpoint remote], endpoint ∈ E) :
    Ensures (Hears E [acceptedEndpoint remote]) held (accepted S remote) := by
  refine .seq (ensures_hears ask_plain) fun roomy =>
    .guarded (ensures_hears dropLowestScore_plain) fun _ => ?_
  refine .seq (ensures_hears ask_plain) fun free =>
    .ite (fun _ => ensures_hears (change_plain fun _ => .rest)) fun _ => ?_
  -- the endpoint is that of the new connection
  intro node u node' h
  obtain ⟨mid, hnew, hrests, hendpoint⟩ :
      ∃ mid, newPeer remote 0 held node = (.returned node.nextPeer, mid) ∧ Rests node mid ∧
        getEndpoint node.nextPeer held mid = (.returned (acceptedEndpoint remote), mid) :=
    ⟨_, rfl, .update (List.nil_subset _),
      congrArg (fun endpoint => (Ending.returned endpoint, _)) newPeer_endpoint⟩
  rw [bind_run hnew, bind_run hendpoint] at h
  have hrest : Ensures (Hears E [acceptedEndpoint remote]) held (do
      tellPeerManager (PeerManager.addKnownPeer (acceptedEndpoint remote))
      tellBootstrap (BootstrapManager.registerPeer (acceptedEndpoint remote))
      tellConnections (ConnectionManager.registerConnection (acceptedEndpoint remote) .inbound)
      pushPeer node.nextPeer
      sendNodeAnnounce S node.nextPeer
      refreshMetrics : NodeM Unit) := by
    refine gather_hears (List.mem_singleton_self _) hE (ensures_hears ?_)
    refine .bind tellConnections_plain fun _ => .bind pushPeer_plain fun _ => ?_
    exact .bind (sendNodeAnnounce_learns hhosts) fun _ => refreshMetrics_plain
  exact IsTrans.trans _ _ _ (hrests.learns.hears (List.nil_subset _)) (hrest _ _ _ h)

theorem dialConnected_hears {dial : Dial} {remote : Option (String × UInt16)}
    (hhosts : Hosts S env E) (hE : ∀ endpoint ∈ [dial.endpoint], endpoint ∈ E) :
    Ensures (Hears E [dial.endpoint]) held (dialConnected S env dial remote) := by
  refine .seq (ensures_hears (change_plain fun _ =>
    .fewer List.erase_subset (List.Subset.refl _))) fun _ => ?_
  refine .seq (ensures_hears newPeer_plain) fun p => ?_
  refine .seq (ensures_hears tellScorer_plain) fun _ => ?_
  refine gather_hears (List.mem_singleton_self _) hE (ensures_hears ?_)
  refine .bind pushPeer_plain fun _ => .bind tellConnections_plain fun _ => ?_
  -- it announces and registers itself, then asks for the topology, peers and the chain
  refine .bind (sendNodeAnnounce_learns hhosts) fun _ => .ask fun node => ?_
  refine Within.bind (send_plain (says_learns fun endpoint hmem => ?_)) (fun _ => ?_) node
  · rw [List.mem_singleton.mp (show endpoint ∈ [_] from hmem)]
    exact hhosts.identity
  · refine .bind (send_plain (says_nameless rfl)) fun _ => .bind ask_plain fun _ => ?_
    refine .bind (send_plain (says_nameless rfl)) fun _ => ?_
    exact .bind (send_plain (says_nameless rfl)) fun _ => refreshMetrics_plain

end NodeM

/-! ## Events -/

/-- What an event finds around it; the ends of reads and writes find nothing. -/
def NodeEvent.env : NodeEvent → Option Env
  | input env _ | submit env _ | mine env _ | connect env _ _ => some env
  | disconnected _ | written _ | writeFailed _ => none

variable {S : NodeSetup} {env : Env}

theorem react_hears {input : NodeInput} (hhosts : Hosts S env E)
    (hE : ∀ endpoint ∈ (NodeEvent.input env input).names, endpoint ∈ E) :
    Ensures (Hears E (NodeEvent.input env input).names) [] (react S env input) := by
  cases input with
  | message p msg => exact handleMessage_hears hhosts hE
  | heartbeat => exact ensures_hears (heartbeat_plain (says_nameless rfl))
  | gossip => exact ensures_hears (gossip_learns hhosts)
  | rotation => exact ensures_hears (attemptRandomPeerExpansion_learns hhosts)
  | accepted remote => exact accepted_hears hhosts hE
  | dialConnected dial remote => exact dialConnected_hears hhosts hE
  | dialFailed dial =>
    have hdial := hE dial.endpoint (List.mem_singleton_self _)
    exact ensures_hears (.bind (change_plain fun _ =>
      .fewer List.erase_subset (List.Subset.refl _)) fun _ =>
        retryConnect_plain (waits_learns hdial))
  | retryTimer dial =>
    have hdial := hE dial.endpoint (List.mem_singleton_self _)
    exact ensures_hears (.bind (change_plain fun _ =>
      .fewer (List.Subset.refl _) List.eraseP_subset) fun _ =>
        connectToPeer_plain (dials_learns hdial))
  | bootstrap => exact ensures_hears (connectToBootstrapPeers_learns hhosts)
  | requestChain => exact ensures_hears (broadcast_plain (says_nameless rfl))

/-- **What an event makes a node learn**: endpoints that the event brings, the
same for both managers, and whatever the node says or dials meanwhile stays
within any set of endpoints that contained what it knew and what the event
brings. -/
theorem nodeStep_hears {event : NodeEvent} {u : Unit}
    (h : nodeStep S event node = some (u, node'))
    (hhosts : ∀ env ∈ event.env, Hosts S env E) (hE : ∀ endpoint ∈ event.names, endpoint ∈ E) :
    Hears E event.names node node' := by
  -- the ends of reads and writes change one connection
  have hupdate : ∀ (p : PeerId) (f : Peer → Peer),
      (f (node.connection p)).writeQueue ⊆ (node.connection p).writeQueue →
      Hears E event.names node (node.updatePeer p f) :=
    fun p f hf => (Rests.update hf).learns.hears (List.nil_subset _)
  cases event with
  | input env input =>
    exact react_hears (hhosts env rfl) hE _ _ _ (handlerReturned_eq_some.mp h)
  | submit env tx =>
    rw [← eq_of_requestEnded h]
    exact (learns_of_steps (callLedger_learns node)).hears (List.nil_subset _)
  | mine env minerAddress =>
    rw [nodeStep] at h
    split at h
    · cases h
    · rw [← eq_of_requestEnded h]
      exact (learns_of_steps (callLedger_learns node)).hears (List.nil_subset _)
  | connect env host port =>
    have hdial : Does (Learns E []) [] (connectToPeer S env ⟨host, port, 0⟩) :=
      connectToPeer_plain (dials_learns (hE _ (List.mem_singleton_self _)))
    exact ensures_hears hdial _ _ _ (handlerReturned_eq_some.mp h)
  | disconnected p =>
    cases h
    exact hupdate p Peer.close (List.Subset.refl _)
  | written p =>
    cases h
    exact hupdate p Peer.written (List.tail_subset _)
  | writeFailed p =>
    cases h
    exact hupdate p Peer.writeFailed (List.nil_subset _)

end PersonalBlockchain
