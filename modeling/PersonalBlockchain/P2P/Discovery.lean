import PersonalBlockchain.P2P.CatchUp
import PersonalBlockchain.P2P.Endpoints
import PersonalBlockchain.P2P.Learning
import PersonalBlockchain.P2P.Provenance

/-!
# Personal blockchain — peer discovery

Nodes learn of each other from announcements and from lists of peers, and dial
what they know. Nothing is ever forgotten, and both managers of a node know the
same; no address is made up, whatever is repeated, held back or handed to whom;
and what one node knows another knows after one question and its answer, but for
what it refuses.

## Results

* `managers_agree` — along every run of a node both managers know the same endpoints,
  each of them once;
* `endpoints_provenance` — in a closed network every endpoint that a node knows or
  dials has been configured, advertised or seen at a socket, up to its spelling;
* `peers_spread` — a node that asks for peers and handles the answer knows what the
  other one knew, but for what it refuses.
-/

namespace PersonalBlockchain

open Machine Locking Routine NodeM Gathering

/-! ## One node -/

section OneNode

variable {S : NodeSetup} {env : Env} {p : PeerId} {msg : Message} {payload : Json}
  {node node' : Node} {u : Unit}

theorem configure_topologyPeers {peer : String} {bm : BootstrapManager} :
    (bm.configure peer).topologyPeers = learn bm.topologyPeers [peer] := by
  rw [BootstrapManager.configure]
  split
  next hempty =>
    subst hempty
    rfl
  next =>
    split
    · exact registerPeer_topologyPeers
    · exact registerPeer_topologyPeers

theorem mem_configure {peer endpoint : String} {bm : BootstrapManager}
    (h : endpoint ∈ (bm.configure peer).bootstrapPeers) :
    endpoint ∈ bm.bootstrapPeers ∨ endpoint = peer := by
  rw [BootstrapManager.configure] at h
  split at h
  · exact .inl h
  · split at h
    · exact .inl (registerPeer_bootstrapPeers ▸ h)
    · exact (List.mem_append.mp h).imp id List.mem_singleton.mp

theorem foldl_configure (peers : List String) (bm : BootstrapManager) :
    (peers.foldl BootstrapManager.configure bm).topologyPeers = learn bm.topologyPeers peers ∧
      ∀ endpoint ∈ (peers.foldl BootstrapManager.configure bm).bootstrapPeers,
        endpoint ∈ bm.bootstrapPeers ∨ endpoint ∈ peers := by
  induction peers generalizing bm with
  | nil => exact ⟨rfl, fun endpoint hmem => .inl hmem⟩
  | cons peer rest ih =>
    obtain ⟨htopology, hbootstrap⟩ := ih (bm.configure peer)
    refine ⟨htopology.trans ?_, fun endpoint hmem => ?_⟩
    · rw [configure_topologyPeers]
      rfl
    · rcases hbootstrap endpoint hmem with hmem | hmem
      · exact (mem_configure hmem).imp id fun heq => List.mem_cons.mpr (.inl heq)
      · exact .inr (List.mem_cons_of_mem _ hmem)

/-- The peers a node is configured with are in its topology. -/
theorem setBootstrapPeers_spec (peers : List String) :
    (BootstrapManager.setBootstrapPeers peers).topologyPeers = learn [] peers ∧
      ∀ endpoint ∈ (BootstrapManager.setBootstrapPeers peers).bootstrapPeers, endpoint ∈ peers := by
  obtain ⟨htopology, hbootstrap⟩ := foldl_configure peers {}
  exact ⟨htopology, fun endpoint hmem => (hbootstrap endpoint hmem).resolve_left List.not_mem_nil⟩

/-- What is learned comes at the end, for both managers. -/
theorem nodeStep_gathers {event : NodeEvent} (h : nodeStep S event node = some (u, node')) :
    ∃ endpoints ⊆ event.names,
      node'.peerManager.knownPeers = learn node.peerManager.knownPeers endpoints ∧
      node'.bootstrapManager.topologyPeers =
        learn node.bootstrapManager.topologyPeers endpoints := by
  obtain ⟨endpoints, hsub, hlearns⟩ :=
    nodeStep_hears (E := Set.univ) h (fun _ _ => hosts_univ) fun _ _ => trivial
  exact ⟨endpoints, hsub, hlearns.known, hlearns.topology⟩

/-- What was known is known still, in its place. -/
theorem nodeStep_knownPeers {event : NodeEvent} (h : nodeStep S event node = some (u, node')) :
    node.peerManager.knownPeers <+: node'.peerManager.knownPeers := by
  obtain ⟨endpoints, -, hknown, -⟩ := nodeStep_gathers h
  exact hknown ▸ prefix_addAll

/-- **The managers agree.** Along every run of a node from its construction,
whatever peers send it: both managers know the same endpoints, each of them once
and never the empty one, and what was known at any earlier time is known still,
in its place. -/
theorem managers_agree (S : NodeSetup) (bootstrapNodes : List String) (blockchain : Blockchain)
    (storage : Option DataDir) (tr : List (Entry Node NodeEvent Unit)) (node : Node)
    (h : NodeRun S (Node.create S bootstrapNodes blockchain storage) tr node) :
    (∀ endpoint, endpoint ∈ node.peerManager.knownPeers ↔
      endpoint ∈ node.bootstrapManager.topologyPeers) ∧
    node.peerManager.knownPeers.Nodup ∧ "" ∉ node.peerManager.knownPeers ∧
    ∀ e ∈ tr, e.pre.peerManager.knownPeers <+: node.peerManager.knownPeers := by
  have hstart : (Node.create S bootstrapNodes blockchain storage).peerManager.knownPeers =
      learn [] bootstrapNodes := mergeKnownPeers_knownPeers
  -- the two lists are equal, not only their members
  have hinv := h.invariant (I := fun node =>
      node.peerManager.knownPeers = node.bootstrapManager.topologyPeers ∧
        Gathered (fun endpoint => endpoint = "") node.peerManager.knownPeers)
    ⟨hstart.trans (setBootstrapPeers_spec bootstrapNodes).1.symm, hstart ▸ Gathered.nil.addAll⟩ ?_
  · obtain ⟨hsame, hgathered⟩ := hinv
    refine ⟨fun endpoint => hsame ▸ Iff.rfl, hgathered.nodup, fun hempty => ?_, fun e he => ?_⟩
    · exact absurd (hgathered.free "" hempty) (by simp)
    · exact ((h.ratchet
        (R := fun node node' => node.peerManager.knownPeers <+: node'.peerManager.knownPeers)
        (fun _ => List.prefix_rfl) (fun _ _ _ => List.IsPrefix.trans)
        fun _ _ _ _ hs => nodeStep_knownPeers hs).2 e he).1
  · rintro s event u s' ⟨hsame, hgathered⟩ hs
    obtain ⟨endpoints, -, hknown, htopology⟩ := nodeStep_gathers hs
    rw [hknown, htopology, hsame]
    exact ⟨rfl, (hsame ▸ hgathered).addAll⟩

/-- The answer to a request for peers: what the node knows, and itself. -/
def Node.peersAnswer (S : NodeSetup) (env : Env) (node : Node) : Message where
  type := .responsePeers
  payload := .array ((((node.peerManager.knownPeers ++
    [makeEndpoint S.identity.advertisedIp S.identity.port] ++
    node.bootstrapManager.knownTopology env.order 256).mergeSort
      fun s t => decide (s ≤ t)).eraseReps).map .string)

/-- The answer names what the node knows, and the node. -/
theorem mem_names_peersAnswer {endpoint : String}
    (h : endpoint ∈ node.peerManager.knownPeers ∨
      endpoint = makeEndpoint S.identity.advertisedIp S.identity.port) :
    endpoint ∈ (node.peersAnswer S env).names := by
  rw [Node.peersAnswer, Message.names, strings_answer, mem_eraseReps, List.mem_mergeSort,
    List.mem_append, List.mem_append, List.mem_singleton]
  exact .inl h

/-- A request that is admitted is answered, when there is room in the queue. -/
theorem requestPeers_answered
    (h : nodeStep S (.input env (.message p ⟨.requestPeers, payload⟩)) node = some (u, node'))
    (hadmits : node.Admits S env p ⟨.requestPeers, payload⟩)
    (hroom : (node.connection p).writeQueue.length < Peer.maxWriteQueue) :
    (node'.connection p).writeQueue =
      (node.connection p).writeQueue ++ [node.peersAnswer S env] := by
  obtain ⟨mid, hdispatch, rfl⟩ := handleMessage_returned hadmits (handlerReturned_eq_some.mp h)
  -- counting the message leaves the queue alone
  have hcounted : ((node.counted env p).connection p).writeQueue =
      (node.connection p).writeQueue :=
    (congrArg Peer.writeQueue (updatePeer_connection.trans (if_pos rfl))).trans rfl
  have hmid : mid = (node.received S env p ⟨.requestPeers, payload⟩).updatePeer p
      fun peer => peer.send (node.peersAnswer S env) := (congrArg Prod.snd hdispatch).symm
  have hqueue : (mid.connection p).writeQueue =
      (((node.counted env p).connection p).send (node.peersAnswer S env)).writeQueue := by
    rw [hmid, updatePeer_connection, if_pos rfl]
    rfl
  show (mid.connection p).writeQueue = _
  rw [hqueue, Peer.send, if_neg (by rw [hcounted]; exact Nat.not_le.mpr hroom)]
  exact congrArg (· ++ _) hcounted

/-- That a message was received changes nothing in what is taken from it. -/
theorem received_discovers {endpoint : String} :
    (node.received S env p msg).discovers S env endpoint = node.discovers S env endpoint := by
  have hbanned : (node.received S env p msg).peerScorer.isBanned endpoint =
      node.peerScorer.isBanned endpoint := by
    rw [PeerScorer.isBanned_eq, PeerScorer.isBanned_eq]
    exact congrArg _ PeerScorer.standing_markSeen
  unfold Node.discovers
  rw [hbanned]
  rfl

theorem ne_empty_of_discovers {endpoint : String} (h : node.discovers S env endpoint = true) :
    endpoint ≠ "" := by
  rintro rfl
  rw [Node.discovers, if_pos (.inl rfl)] at h
  cases h

/-- What is taken from an answer is known from then on: it is filtered, and what
passes is told to both managers. -/
theorem responsePeers_known
    (h : nodeStep S (.input env (.message p msg)) node = some (u, node'))
    (hadmits : node.Admits S env p msg) (htype : msg.type = .responsePeers) {endpoint : String}
    (hnamed : endpoint ∈ msg.names) (hdiscovers : node.discovers S env endpoint = true) :
    endpoint ∈ node'.peerManager.knownPeers := by
  obtain ⟨mid, hdispatch, rfl⟩ := handleMessage_returned hadmits (handlerReturned_eq_some.mp h)
  rw [Message.names, htype] at hnamed
  rw [dispatch, htype] at hdispatch
  cases hpayload : msg.payload with
  | array items =>
    rw [hpayload] at hnamed
    simp only [hpayload] at hdispatch
    rw [handleReceivedPeers_run] at hdispatch
    -- what comes after the merge learns nothing more
    have hrest : Does (Learns Set.univ []) [] (do
        attemptRandomPeerExpansion S env
        refreshMetrics : NodeM Unit) :=
      .bind (attemptRandomPeerExpansion_learns hosts_univ) fun _ => refreshMetrics_plain
    have hmid := (learns_of_steps (hrest ((node.received S env p msg).learning
      ((Json.strings (.array items)).filter ((node.received S env p msg).discovers S env))))).known
    rw [hdispatch] at hmid
    have hrefreshes : Does (Learns Set.univ []) [] refreshMetrics := refreshMetrics_plain
    have hlast : mid.refreshed.peerManager.knownPeers = mid.peerManager.knownPeers :=
      (learns_of_steps (hrefreshes mid)).known
    rw [hlast, hmid]
    show endpoint ∈ (PeerManager.mergeKnownPeers _ _).knownPeers
    rw [mergeKnownPeers_knownPeers, mem_addAll]
    refine .inr ⟨List.mem_filter.mpr ⟨hnamed, received_discovers.trans hdiscovers⟩, ?_⟩
    exact decide_eq_false (ne_empty_of_discovers hdiscovers)
  | _ =>
    rw [hpayload] at hnamed
    exact absurd hnamed List.not_mem_nil

end OneNode

/-! ## Networks -/

section Network

variable {ι : Type}

/-- The endpoint with its port in decimal digits, as it is dialled. -/
def respelled (endpoint : String) : String :=
  match PeerManager.parseEndpoint endpoint with
  | some (host, port) => makeEndpoint host port
  | none => endpoint

theorem respelled_respelled (endpoint : String) :
    respelled (respelled endpoint) = respelled endpoint := by
  cases hparse : PeerManager.parseEndpoint endpoint with
  | none =>
    have hsame : respelled endpoint = endpoint := by rw [respelled, hparse]
    rw [hsame, hsame]
  | some parts =>
    obtain ⟨host, port⟩ := parts
    have hrespelled : respelled endpoint = makeEndpoint host port := by rw [respelled, hparse]
    obtain ⟨text, -, hhost, -, hport⟩ := PeerManager.parseEndpoint_eq_some.mp hparse
    obtain ⟨n, -, -, hpos⟩ := PeerManager.portOf_eq_some.mp hport
    rw [hrespelled, respelled, parseEndpoint_makeEndpoint hhost hpos]

/-- The endpoints an event brings into the network. -/
def NodeEvent.introduces : NodeEvent → List String
  | input _ (.accepted remote) => [acceptedEndpoint remote]
  | connect _ host port => [makeEndpoint host port]
  | _ => []

/-- Where endpoints come from: configured, advertised, accepted or from `main`. -/
def endpointOrigins (S : ι → NodeSetup) (bootstrapNodes : ι → List String)
    (tr : List (NetworkEntry ι)) : Set String :=
  {endpoint | (∃ i, endpoint ∈ bootstrapNodes i) ∨
    (∃ i, endpoint = (S i).endpoint ∨
      endpoint = makeEndpoint (S i).identity.advertisedIp (S i).identity.port) ∨
    ∃ e ∈ tr, endpoint ∈ e.call.2.introduces}

/-- What comes to its end was under way. -/
def NodeEvent.UnderWay (node : Node) : NodeEvent → Prop
  | input _ (.dialConnected dial _) | input _ (.dialFailed dial) => dial ∈ node.dials
  | input _ (.retryTimer dial) => ∃ timer ∈ node.timers, timer.1 = dial
  | _ => True

/-- Containers are iterated and shuffled as they are. -/
def Env.Rearranges (env : Env) : Prop :=
  ∀ endpoints, (env.shuffle endpoints).Perm endpoints ∧ (env.order endpoints).Perm endpoints

/-- What the network is relied on for. -/
structure Orderly (before : List (NetworkEntry ι)) (e : NetworkEntry ι) : Prop where
  delivered : Delivered before e
  underWay : e.call.2.UnderWay (e.pre e.call.1)
  rearranges : ∀ env ∈ e.call.2.env, env.Rearranges

/-- All that nodes know and have said is in `E`. -/
structure Informed (E : Set String) (tr : List (NetworkEntry ι)) (nodes : ι → Node) : Prop where
  nodes : ∀ i, (nodes i).Knows E
  before : ∀ e ∈ tr, ∀ i, (e.post i).Knows E

variable {E E' : Set String} {S : ι → NodeSetup} {bootstrapNodes : ι → List String}
  {tr : List (NetworkEntry ι)} {e : NetworkEntry ι} {nodes : ι → Node}

theorem Node.Knows.mono {node : Node} (h : node.Knows E) (hE : E ⊆ E') : node.Knows E' :=
  ⟨fun x hx => hE (h.known x hx), fun x hx => hE (h.topology x hx),
    fun x hx => hE (h.bootstrap x hx), fun dial hdial => hE (h.dials dial hdial),
    fun timer htimer => hE (h.timers timer htimer),
    fun p msg hmsg x hx => hE (h.queues p msg hmsg x hx)⟩

theorem Informed.mono (h : Informed E tr nodes) (hE : E ⊆ E') : Informed E' tr nodes :=
  ⟨fun i => (h.nodes i).mono hE, fun e he i => (h.before e he i).mono hE⟩

/-- The endpoints that stem from those origins. -/
abbrev traceable (S : ι → NodeSetup) (bootstrapNodes : ι → List String)
    (tr : List (NetworkEntry ι)) : Set String :=
  StemsFrom respelled (endpointOrigins S bootstrapNodes tr)

theorem traceable_append :
    traceable S bootstrapNodes tr ⊆ traceable S bootstrapNodes (tr ++ [e]) := by
  refine stemsFrom_mono fun endpoint h => h.imp id fun h => h.imp id ?_
  exact fun ⟨e', he', h⟩ => ⟨e', List.mem_append_left _ he', h⟩

/-- A node finds itself and its containers within what is traceable. -/
theorem hosts_traceable {env : Env} (h : env.Rearranges) (i : ι) :
    Hosts (S i) env (traceable S bootstrapNodes tr) where
  own := ⟨_, .inr (.inl ⟨i, .inl rfl⟩), .inl rfl⟩
  identity := ⟨_, .inr (.inl ⟨i, .inr rfl⟩), .inl rfl⟩
  respelled := by
    intro endpoint hmem host port hparse
    have hrespelled : respelled endpoint = makeEndpoint host port := by
      rw [PersonalBlockchain.respelled, hparse]
    exact hrespelled ▸ stemsFrom_decoded respelled_respelled hmem
  order _ hall endpoint hmem := hall endpoint ((h _).2.mem_iff.mp hmem)
  shuffle _ hall endpoint hmem := hall endpoint ((h _).1.mem_iff.mp hmem)

/-- What an event brings is known already, or is one of the origins. -/
theorem names_traceable (h : Informed (traceable S bootstrapNodes tr) tr e.pre)
    (horderly : Orderly tr e) :
    ∀ endpoint ∈ e.call.2.names, endpoint ∈ traceable S bootstrapNodes (tr ++ [e]) := by
  have hlast : e ∈ tr ++ [e] := List.mem_append_right _ (List.mem_singleton_self _)
  have hintroduced : ∀ endpoint ∈ e.call.2.introduces,
      endpoint ∈ traceable S bootstrapNodes (tr ++ [e]) :=
    fun endpoint hmem => ⟨endpoint, .inr (.inr ⟨e, hlast, hmem⟩), .inl rfl⟩
  have hunderWay := horderly.underWay
  have hdelivered := horderly.delivered
  obtain ⟨pre, ⟨i, event⟩, u, post⟩ := e
  intro endpoint hmem
  have hdial : ∀ dial : Dial, dial.endpoint ∈ traceable S bootstrapNodes tr →
      endpoint ∈ [dial.endpoint] →
      endpoint ∈ traceable S bootstrapNodes (tr ++ [⟨pre, (i, event), u, post⟩]) :=
    fun dial hknown heq => traceable_append (List.mem_singleton.mp heq ▸ hknown)
  cases event with
  | input env input =>
    cases input with
    | message p msg =>
      -- it was in some queue, all of whose messages name endpoints in the set
      obtain ⟨e', he', j, q, hqueue⟩ := hdelivered msg rfl
      exact traceable_append ((h.before e' he' j).queues q msg hqueue endpoint hmem)
    | accepted remote => exact hintroduced endpoint hmem
    | dialConnected dial remote => exact hdial dial ((h.nodes i).dials dial hunderWay) hmem
    | dialFailed dial => exact hdial dial ((h.nodes i).dials dial hunderWay) hmem
    | retryTimer dial =>
      obtain ⟨timer, htimer, rfl⟩ := hunderWay
      exact hdial timer.1 ((h.nodes i).timers timer htimer) hmem
    | _ => exact absurd hmem List.not_mem_nil
  | connect env host port => exact hintroduced endpoint hmem
  | _ => exact absurd hmem List.not_mem_nil

/-- New nodes know what they are configured with. -/
theorem informed_create {start : ι → Blockchain} {storage : ι → Option DataDir} :
    Informed (traceable S bootstrapNodes []) [] fun i =>
      Node.create (S i) (bootstrapNodes i) (start i) (storage i) := by
  -- at the start every list holds configured endpoints only
  have hconfigured : ∀ i, ∀ endpoint ∈ bootstrapNodes i,
      endpoint ∈ traceable S bootstrapNodes [] :=
    fun i endpoint hmem => ⟨endpoint, .inl ⟨i, hmem⟩, .inl rfl⟩
  refine ⟨fun i => ⟨fun endpoint hmem => ?_, fun endpoint hmem => ?_, fun endpoint hmem => ?_,
    fun _ hmem => absurd hmem List.not_mem_nil, fun _ hmem => absurd hmem List.not_mem_nil,
    fun _ _ hmem => absurd hmem List.not_mem_nil⟩, fun _ he => absurd he List.not_mem_nil⟩
  · rw [show (Node.create (S i) (bootstrapNodes i) (start i) (storage i)).peerManager.knownPeers =
      learn [] (bootstrapNodes i) from mergeKnownPeers_knownPeers] at hmem
    exact hconfigured i endpoint ((mem_addAll.mp hmem).resolve_left List.not_mem_nil).1
  · rw [show (Node.create (S i) (bootstrapNodes i) (start i)
      (storage i)).bootstrapManager.topologyPeers = learn [] (bootstrapNodes i) from
        (setBootstrapPeers_spec (bootstrapNodes i)).1] at hmem
    exact hconfigured i endpoint ((mem_addAll.mp hmem).resolve_left List.not_mem_nil).1
  · exact hconfigured i endpoint ((setBootstrapPeers_spec (bootstrapNodes i)).2 endpoint hmem)

variable [DecidableEq ι]

/-- A step of any node keeps to what is traceable, because `nodeStep_hears`
allows it no more than it knew and the event brings. -/
theorem Informed.step (h : Informed (traceable S bootstrapNodes tr) tr e.pre)
    (horderly : Orderly tr e)
    (hstep : each (fun i => nodeStep (S i)) e.call e.pre = some (e.ret, e.post)) :
    Informed (traceable S bootstrapNodes (tr ++ [e])) (tr ++ [e]) e.post := by
  obtain ⟨hlocal, hothers⟩ := each_eq_some hstep
  have hmono := h.mono (traceable_append (e := e))
  have hnodes : ∀ j, (e.post j).Knows (traceable S bootstrapNodes (tr ++ [e])) := by
    intro j
    by_cases hj : j = e.call.1
    -- the set has grown already by what the event brings
    · subst hj
      obtain ⟨endpoints, -, hlearns⟩ := nodeStep_hears hlocal
        (fun env henv => hosts_traceable (horderly.rearranges env henv) e.call.1)
        (names_traceable h horderly)
      exact hlearns.keeps (hmono.nodes _)
    · rw [hothers j hj]
      exact hmono.nodes j
  refine ⟨hnodes, fun e' he' j => ?_⟩
  rcases List.mem_append.mp he' with he' | he'
  · exact hmono.before e' he' j
  · rw [List.mem_singleton.mp he']
    exact hnodes j

/-- **No endpoint is made up.** In a closed network of nodes, in whatever order
messages arrive, if they do: every endpoint that a node knows, or is dialling,
was configured at some node, is one that a node advertises, or is the address of
a connection that was accepted or asked for, as it was or with its port spelled
as it is dialled. -/
theorem endpoints_provenance (S : ι → NodeSetup) (bootstrapNodes : ι → List String)
    (start : ι → Blockchain) (storage : ι → Option DataDir) (tr : List (NetworkEntry ι))
    (nodes : ι → Node)
    (h : Run (each fun i => nodeStep (S i))
      (fun i => Node.create (S i) (bootstrapNodes i) (start i) (storage i)) tr nodes)
    (horderly : Along Orderly tr) (i : ι) (endpoint : String)
    (hknown : endpoint ∈ (nodes i).peerManager.knownPeers ∨
      endpoint ∈ (nodes i).bootstrapManager.topologyPeers ∨
      ∃ dial ∈ (nodes i).dials, endpoint = dial.endpoint) :
    ∃ origin ∈ endpointOrigins S bootstrapNodes tr,
      endpoint = origin ∨ endpoint = respelled origin := by
  obtain ⟨hinformed, -⟩ := h.history_of
    (J := fun tr nodes => Informed (traceable S bootstrapNodes tr) tr nodes) (C := Orderly)
    informed_create (fun _ _ hJ horderly hs => hJ.step horderly hs) horderly
  rcases hknown with hknown | hknown | ⟨dial, hdial, rfl⟩
  · exact (hinformed.nodes i).known endpoint hknown
  · exact (hinformed.nodes i).topology endpoint hknown
  · exact (hinformed.nodes i).dials dial hdial

/-- A step of a network takes nothing away from what any node knows. -/
theorem each_knownPeers {call : ι × NodeEvent} {u : Unit} {nodes nodes' : ι → Node}
    (h : each (fun i => nodeStep (S i)) call nodes = some (u, nodes')) (i : ι) :
    (nodes i).peerManager.knownPeers <+: (nodes' i).peerManager.knownPeers := by
  obtain ⟨hlocal, hothers⟩ := each_eq_some h
  by_cases hi : i = call.1
  · subst hi
    exact nodeStep_knownPeers hlocal
  · rw [hothers i hi]

/-- **Peers spread.** In a network of any nodes, in whatever order they take their
steps: a node that admits a REQUEST_PEERS puts its answer into the queue for the
peer, if there is room. And whichever node handles this answer at any time, and
admits it, knows from then on whatever the first one knew by its answer, and the
first one itself, unless it refuses to. -/
theorem peers_spread (S : ι → NodeSetup) (start : ι → Node) (tr : List (NetworkEntry ι))
    (nodes : ι → Node) (h : Run (each fun i => nodeStep (S i)) start tr nodes) :
    ∀ e ∈ tr, ∀ env p payload, e.call.2 = .input env (.message p ⟨.requestPeers, payload⟩) →
      (e.pre e.call.1).Admits (S e.call.1) env p ⟨.requestPeers, payload⟩ →
      ((e.pre e.call.1).connection p).writeQueue.length < Peer.maxWriteQueue →
      ((e.post e.call.1).connection p).writeQueue =
          ((e.pre e.call.1).connection p).writeQueue ++
            [(e.pre e.call.1).peersAnswer (S e.call.1) env] ∧
        ∀ e' ∈ tr, ∀ env' q,
          e'.call.2 = .input env' (.message q ((e.pre e.call.1).peersAnswer (S e.call.1) env)) →
          (e'.pre e'.call.1).Admits (S e'.call.1) env' q
            ((e.pre e.call.1).peersAnswer (S e.call.1) env) →
          ∀ endpoint, endpoint ∈ (e.pre e.call.1).peerManager.knownPeers ∨
            endpoint = makeEndpoint (S e.call.1).identity.advertisedIp
              (S e.call.1).identity.port →
            (e'.pre e'.call.1).discovers (S e'.call.1) env' endpoint = true →
            endpoint ∈ (nodes e'.call.1).peerManager.knownPeers := by
  intro e he env p payload hcall hadmits hroom
  obtain ⟨hlocal, -⟩ := each_eq_some (h.entry e he).1
  rw [hcall] at hlocal
  refine ⟨requestPeers_answered hlocal hadmits hroom, ?_⟩
  intro e' he' env' q hcall' hadmits' endpoint hnamed hdiscovers
  obtain ⟨hlocal', -⟩ := each_eq_some (h.entry e' he').1
  rw [hcall'] at hlocal'
  have hknown := responsePeers_known hlocal' hadmits' rfl (mem_names_peersAnswer hnamed) hdiscovers
  -- known after that step, so known at the end
  have hlater := ((h.ratchet
    (R := fun nodes nodes' : ι → Node => (nodes e'.call.1).peerManager.knownPeers <+:
      (nodes' e'.call.1).peerManager.knownPeers)
    (fun _ => List.prefix_rfl) (fun _ _ _ => List.IsPrefix.trans)
    fun _ _ _ _ hs => each_knownPeers hs e'.call.1).2 e' he').2
  exact hlater.subset hknown

end Network

/-! ## Two nodes that meet -/

section Sample

/-- What a node says of itself when a peer connects. -/
def announcedHere : Message :=
  ⟨.nodeAnnounce, .object [("endpoint", .string "10.0.0.1:8333"), ("nodeId", .string "node"),
    ("port", .numberUnsigned 8333), ("publicIp", .string "10.0.0.1"),
    ("publicKey", .string "key")]⟩

/-- One node asks the other. -/
def peersAsked : Message :=
  ⟨.requestPeers, .object [("nodeId", .string "node"), ("requester", .string "10.0.0.1:8333")]⟩

/-- What the other one answers. -/
def peersTold : Message :=
  ⟨.responsePeers, .array [.string "10.0.0.1:8333", .string "10.0.0.2:50000"]⟩

/-- Two nodes are connected, and one hears of the other. -/
def connectedBoth : List (Bool × NodeEvent) :=
  [(false, .input (sampleEnv 0) (.accepted (some ("10.0.0.2", 50000)))),
    (true, .input (sampleEnv 0) (.accepted (some ("10.0.0.1", 9000)))),
    (true, .input (sampleEnv 1) (.message 0 announcedHere))]

/-- Then it asks for peers. -/
def askedForPeers : List (Bool × NodeEvent) :=
  connectedBoth ++
    [(false, .input (sampleEnv 2) (.message 0 peersAsked)),
      (true, .input (sampleEnv 3) (.message 0 peersTold))]

instance {event : NodeEvent} {node : Node} : Decidable (event.UnderWay node) := by
  unfold NodeEvent.UnderWay
  split
  all_goals infer_instance

/-- The surroundings of the sample leave containers as they are. -/
theorem rearranges_sampleEnv (seconds : Fin 1000) : (sampleEnv seconds).Rearranges :=
  fun _ => ⟨.refl _, .refl _⟩

/-- The question is admitted, and its answer brings something new. -/
structure PeersTold (e e' : NetworkEntry Bool) : Prop where
  asked : AdmitsWithRoom suppressionSetup e
  known : (e.pre false).peerManager.knownPeers = ["10.0.0.2:50000"]
  topology : (e.pre false).bootstrapManager.knownTopology (sampleEnv 2).order 256 =
    ["10.0.0.2:50000"]
  told : AdmitsWithRoom suppressionSetup e'
  discovers : (e'.pre true).discovers suppressionSetup (sampleEnv 3) "10.0.0.2:50000" = true

instance {e e' : NetworkEntry Bool} : Decidable (PeersTold e e') :=
  decidable_of_iff (_ ∧ _ ∧ _ ∧ _ ∧ _)
    ⟨fun h => ⟨h.1, h.2.1, h.2.2.1, h.2.2.2.1, h.2.2.2.2⟩,
      fun h => ⟨h.asked, h.known, h.topology, h.told, h.discovers⟩⟩

/-- The answer is sorted, and has each endpoint once. -/
theorem PeersTold.peersAnswer {e e' : NetworkEntry Bool} (h : PeersTold e e') :
    (e.pre false).peersAnswer suppressionSetup (sampleEnv 2) = peersTold := by
  have hown : makeEndpoint suppressionSetup.identity.advertisedIp suppressionSetup.identity.port =
      "10.0.0.1:8333" := by decide
  have hsorted : (["10.0.0.2:50000", "10.0.0.1:8333", "10.0.0.2:50000"].mergeSort
      fun s t => decide (s ≤ t)) = ["10.0.0.1:8333", "10.0.0.2:50000", "10.0.0.2:50000"] := by
    simp [List.mergeSort, List.MergeSort.Internal.splitInTwo]
  rw [Node.peersAnswer, h.known, h.topology, hown]
  show Message.mk .responsePeers (.array ((List.eraseReps (List.mergeSort
    ["10.0.0.2:50000", "10.0.0.1:8333", "10.0.0.2:50000"] _)).map .string)) = _
  rw [hsorted]
  rfl

end Sample

/-- The theorem at a run in which a peer connects. -/
theorem managers_agree_accepted : ∃ tr node, NodeRun suppressionSetup suppressionNode tr node ∧
    node.peerManager.knownPeers = ["10.0.0.2:50000"] ∧
    "10.0.0.2:50000" ∈ node.bootstrapManager.topologyPeers := by
  obtain ⟨tr, node, hrun, hcheck⟩ := Run.exists_of_exec (nodeStep suppressionSetup)
    [.input (sampleEnv 0) (.accepted (some ("10.0.0.2", 50000)))] suppressionNode
    (fun r => decide (r.2.peerManager.knownPeers = ["10.0.0.2:50000"])) (by decide +kernel)
  have hknown := of_decide_eq_true hcheck
  have hagree := managers_agree suppressionSetup [] sampleStart none tr node hrun
  exact ⟨tr, node, hrun, hknown, (hagree.1 _).mp (hknown ▸ List.mem_singleton_self _)⟩

/-- The theorem at two nodes that have announced themselves. -/
theorem endpoints_provenance_connected : ∃ tr nodes,
    Run (each fun _ : Bool => nodeStep suppressionSetup) (fun _ => suppressionNode) tr nodes ∧
      "10.0.0.1:8333" ∈ (nodes true).peerManager.knownPeers ∧
      ∃ origin ∈ endpointOrigins (fun _ : Bool => suppressionSetup) (fun _ => []) tr,
        "10.0.0.1:8333" = origin ∨ "10.0.0.1:8333" = respelled origin := by
  obtain ⟨tr, nodes, hrun, hcalls, hcheck⟩ := Run.exists_of_exec_map
    (each fun _ : Bool => nodeStep suppressionSetup) connectedBoth (fun _ => suppressionNode)
    (fun r => decide (Along (DeliveredOver [(false, 0)]) r.1 ∧
      (∀ e ∈ r.1, e.call.2.UnderWay (e.pre e.call.1)) ∧
      "10.0.0.1:8333" ∈ (r.2 true).peerManager.knownPeers)) (by decide +kernel)
  obtain ⟨hdelivered, hunderWay, hknown⟩ := of_decide_eq_true hcheck
  -- the run is checked call by call against the list of its calls
  have horderly : Along Orderly tr := by
    intro before e after heq
    have he : e ∈ tr := heq ▸ List.mem_append_right _ List.mem_cons_self
    refine ⟨delivered_of_over hdelivered before e after heq, hunderWay e he, fun env henv => ?_⟩
    have hcall : e.call ∈ connectedBoth := hcalls ▸ List.mem_map_of_mem he
    simp only [connectedBoth, List.mem_cons, List.not_mem_nil, or_false] at hcall
    rcases hcall with h | h | h
    all_goals
      rw [h] at henv
      obtain rfl := Option.some.inj henv
      exact rearranges_sampleEnv _
  exact ⟨tr, nodes, hrun, hknown, endpoints_provenance (fun _ => suppressionSetup) (fun _ => [])
    (fun _ => sampleStart) (fun _ => none) tr nodes hrun horderly true _ (.inl hknown)⟩

/-- The theorem at a node that asks and is told of a peer it did not know. -/
theorem peers_spread_asked : ∃ start tr nodes,
    Run (each fun _ : Bool => nodeStep suppressionSetup) start tr nodes ∧
      (start true).peerManager.knownPeers = [] ∧
      "10.0.0.2:50000" ∈ (nodes true).peerManager.knownPeers := by
  obtain ⟨tr, nodes, hrun, hcalls, hcheck⟩ := Run.exists_of_exec_map
    (each fun _ : Bool => nodeStep suppressionSetup) askedForPeers (fun _ => suppressionNode)
    (fun r => r.1[3]?.any fun e => r.1[4]?.any fun e' => decide (PeersTold e e'))
    (by decide +kernel)
  obtain ⟨e, he, hcheck⟩ := (Option.any_eq_true _ _).mp hcheck
  obtain ⟨e', he', hcheck⟩ := (Option.any_eq_true _ _).mp hcheck
  have htold := of_decide_eq_true hcheck
  -- the fourth call asks, and the fifth is told
  have hcall : e.call = (false, .input (sampleEnv 2) (.message 0 peersAsked)) := by
    have hcalled := congrArg (fun calls => calls[3]?) hcalls
    simpa [he, askedForPeers, connectedBoth] using hcalled
  have hcall' : e'.call = (true, .input (sampleEnv 3) (.message 0 peersTold)) := by
    have hcalled := congrArg (fun calls => calls[4]?) hcalls
    simpa [he', askedForPeers, connectedBoth] using hcalled
  have hasked := htold.asked
  have hanswered := htold.told
  rw [AdmitsWithRoom, hcall] at hasked
  rw [AdmitsWithRoom, hcall'] at hanswered
  have hspread := (peers_spread (fun _ => suppressionSetup) _ tr nodes hrun e
    (List.mem_of_getElem? he) (sampleEnv 2) 0 peersAsked.payload (by rw [hcall]; rfl)
    (by rw [hcall]; exact hasked.1) (by rw [hcall]; exact hasked.2)).2 e'
    (List.mem_of_getElem? he') (sampleEnv 3) 0
  rw [hcall, hcall', htold.peersAnswer] at hspread
  have hknown := hspread rfl hanswered.1 "10.0.0.2:50000"
    (.inl (htold.known ▸ List.mem_singleton_self _)) htold.discovers
  exact ⟨_, tr, nodes, hrun, rfl, hknown⟩

end PersonalBlockchain
