import PersonalBlockchain.P2P.Connections
import PersonalBlockchain.P2P.Gossip
import PersonalBlockchain.P2P.Scores

/-!
# Personal blockchain — the heartbeat and silent connections

The scorer knows since when the pong of an endpoint is awaited, and the
heartbeat closes every connection with that endpoint when it is overdue. That
the ping was sent on the connection that is closed has to be known from the
history: a connection may come to have an endpoint whose pong is awaited
already.

`Tracked` is the invariant: whose pong is awaited was sent the ping on this very
connection and has not answered.

## Results

* `heartbeat_closed` — what a heartbeat closes has an endpoint that is overdue;
* `Tracked.step` — an event that tracks pings keeps the invariant;
* `heartbeat_closes_silent` — in every run whose events all do, a heartbeat closes
  only connections that have not answered a ping for longer than the timeout;
* `heartbeat_closes_silent_counterexample` — a peer that comes back and is closed
  nine seconds later.
-/

namespace PersonalBlockchain

open Std Locking Routine NodeM Machine

variable {S : NodeSetup} {env : Env} {node node' : Node} {p q : PeerId} {key : String}
  {t : Instant} {tr : List (Entry Node NodeEvent Unit)} {e : Entry Node NodeEvent Unit}

/-! ## The heartbeat in two parts -/

/-- The node when every connection has got its ping. -/
def Node.beaten (env : Env) (node : Node) : Node :=
  node.cleaned.peers.foldl (fun node p => node.pinged env.steady p) node.cleaned

/-- The endpoints whose pong is overdue. -/
def Node.overdue (S : NodeSetup) (env : Env) (node : Node) : List String :=
  node.peerScorer.getHeartbeatTimeoutPeers env.steady S.options.timeouts.heartbeatTimeoutSec

/-- The heartbeat is the pings, and then the closing of what is overdue. -/
theorem heartbeat_run : heartbeat S env [] node =
    (do
      if (node.beaten env).overdue S env ≠ [] then
        withLock .peers (forEach (closeTimedOut S env) ((node.beaten env).overdue S env))
      refreshMetrics : NodeM Unit) [] (node.beaten env) := by
  have hpings : ∀ ps : List PeerId, ∀ node : Node, forEach (fun p => do
      let endpoint ← getEndpoint p
      tellScorer (PeerScorer.markPingSent env.steady endpoint)
      send p { type := .ping }) ps [] node =
      (.returned (), ps.foldl (fun node p => node.pinged env.steady p) node) :=
    forEach_run fun _ _ => rfl
  rw [heartbeat, bind_run dropClosed_run, bind_run (hpings _ _)]
  rfl

/-- What is closed after the pings has an endpoint that is overdue. -/
theorem heartbeat_steps (h : heartbeat S env [] node = (.returned (), node')) :
    Relation.ReflTransGen
      (OneOf S env.steady ({.quiet} ∪ {c | ∃ key ∈ (node.beaten env).overdue S env, c = .shut key}))
      (node.beaten env) node' := by
  rw [heartbeat_run] at h
  have htouches : Touches S env
      ({.quiet} ∪ {c | ∃ key ∈ (node.beaten env).overdue S env, c = .shut key}) [] (do
      if (node.beaten env).overdue S env ≠ [] then
        withLock .peers (forEach (closeTimedOut S env) ((node.beaten env).overdue S env))
      refreshMetrics : NodeM Unit) :=
    .guarded (.withLock (.forEach fun key hkey => closeTimedOut_touches (.inr ⟨key, hkey, rfl⟩)))
      fun _ => refreshMetrics_touches (.inl rfl)
  have hsteps := htouches (node.beaten env)
  rwa [h] at hsteps

/-- The first part drops closed connections and pings the others. -/
theorem beaten_steps (S : NodeSetup) : Relation.ReflTransGen
    (OneOf S env.steady ({.clean} ∪ Set.range .ping)) node (node.beaten env) := by
  have hpings : ∀ (ps : List PeerId) (node : Node), Relation.ReflTransGen
      (OneOf S env.steady ({.clean} ∪ Set.range .ping)) node
      (ps.foldl (fun node p => node.pinged env.steady p) node) := by
    intro ps
    induction ps with
    | nil => exact fun _ => .refl
    | cons p ps ih => exact fun node => .head (fun _ => ⟨.ping p, .inr ⟨p, rfl⟩, rfl⟩) (ih _)
  exact .head (fun _ => ⟨.clean, .inl rfl, rfl⟩) (hpings _ _)

/-- Every open connection has got its ping. -/
theorem beaten_connection (hlisted : node.Listed) : (node.beaten env).connection p =
    if (node.connection p).isOpen = true then (node.connection p).send { type := .ping }
    else node.connection p := by
  have hnodup : node.cleaned.peers.Nodup := hlisted.nodup.filter _
  rw [Node.beaten, foldl_connection (f := fun _ peer => peer.send { type := .ping })
    (fun _ _ _ => pinged_connection) hnodup]
  refine if_congr ?_ rfl rfl
  exact List.mem_filter.trans (and_iff_right_of_imp fun hopen => hlisted.listed p hopen)

/-- Each ping is on record, if none was before. -/
theorem beaten_awaitsSince : (node.beaten env).peerScorer.awaitsSince key =
      node.peerScorer.awaitsSince key ∨
    node.peerScorer.awaitsSince key = none ∧
      (node.beaten env).peerScorer.awaitsSince key = some env.steady := by
  rw [Node.beaten]
  suffices hmain : ∀ (ps : List PeerId) (node' : Node),
      (ps.foldl (fun node p => node.pinged env.steady p) node').peerScorer.awaitsSince key =
        node'.peerScorer.awaitsSince key ∨
      node'.peerScorer.awaitsSince key = none ∧
        (ps.foldl (fun node p => node.pinged env.steady p) node').peerScorer.awaitsSince key =
          some env.steady from hmain _ _
  intro ps
  induction ps with
  | nil => exact fun node' => .inl rfl
  | cons p ps ih =>
    intro node'
    have hfirst : (node'.pinged env.steady p).peerScorer.awaitsSince key =
          node'.peerScorer.awaitsSince key ∨
        node'.peerScorer.awaitsSince key = none ∧
          (node'.pinged env.steady p).peerScorer.awaitsSince key = some env.steady :=
      PeerScorer.awaitsSince_markPingSent
    rw [List.foldl_cons]
    -- a ping starts a wait, and a second one does not restart it
    rcases ih (node'.pinged env.steady p) with hsame | ⟨hnone, hsome⟩
    · rw [hsame]
      exact hfirst
    · refine .inr ⟨?_, hsome⟩
      rcases hfirst with hsame | ⟨hbefore, -⟩
      · exact hsame.symm.trans hnone
      · exact hbefore

/-! ## Pings and pongs in a run -/

/-- The event is a tick of the heartbeat. -/
def NodeEvent.isHeartbeat : NodeEvent → Bool
  | .input _ .heartbeat => true
  | _ => false

/-- The event is a `PONG` from the connection. -/
def NodeEvent.isPongOf (p : PeerId) : NodeEvent → Bool
  | .input _ (.message q msg) => q = p && msg.type = .pong
  | _ => false

/-- The heartbeat at this time has sent a `PING` on the connection, and no
`PONG` has come from it since. -/
def Unanswered (tr : List (Entry Node NodeEvent Unit)) (p : PeerId) (t : Instant) : Prop :=
  ∃ before e after, tr = before ++ e :: after ∧
    e.call.isHeartbeat = true ∧ e.call.steady = t ∧
    (e.post.connection p).writeQueue =
      (e.pre.connection p).writeQueue ++ [{ type := .ping }] ∧
    ∀ e' ∈ after, e'.call.isPongOf p = false

/-- The connection is new, or has come to have another endpoint. -/
def TakesOn (e : Entry Node NodeEvent Unit) (p : PeerId) : Prop :=
  (e.post.connection p).isOpen = true ∧
    ¬ ((e.pre.connection p).isOpen = true ∧
      (e.pre.connection p).getEndpoint = (e.post.connection p).getEndpoint)

instance : Decidable (TakesOn e p) := inferInstanceAs (Decidable (_ ∧ _))

/-- A `PONG` that is awaited goes beyond the rate limit. -/
def NodeEvent.dropsPong (node : Node) : NodeEvent → Bool
  | .input env (.message p msg) =>
    msg.type = .pong && node.senderLimited env p &&
      (node.peerScorer.awaitsSince (node.connection p).getEndpoint).isSome
  | _ => false

/-- A `PING` that starts the wait finds the queue full. -/
def NodeEvent.dropsPing (node : Node) : NodeEvent → Bool
  | .input _ .heartbeat => node.peers.any fun p =>
    (node.connection p).isOpen &&
      (node.peerScorer.awaitsSince (node.connection p).getEndpoint).isNone &&
      decide (Peer.maxWriteQueue ≤ (node.connection p).writeQueue.length)
  | _ => false

/-- No connection takes on an endpoint whose `PONG` is awaited from another, and
no message of the heartbeat is dropped. -/
structure TracksPings (tr : List (Entry Node NodeEvent Unit)) (e : Entry Node NodeEvent Unit) :
    Prop where
  fresh : ∀ p ∈ e.post.peers, TakesOn e p → ∀ t,
    e.pre.peerScorer.awaitsSince (e.post.connection p).getEndpoint = some t → Unanswered tr p t
  pong : e.call.dropsPong e.pre = false
  ping : e.call.dropsPing e.pre = false

theorem Unanswered.after (h : Unanswered tr p t) (he : e.call.isPongOf p = false) :
    Unanswered (tr ++ [e]) p t := by
  obtain ⟨before, e', after, rfl, hheartbeat, hsteady, hping, hafter⟩ := h
  refine ⟨before, e', after ++ [e], by simp, hheartbeat, hsteady, hping, fun e'' he'' => ?_⟩
  rcases List.mem_append.mp he'' with he'' | he''
  · exact hafter e'' he''
  · exact List.mem_singleton.mp he'' ▸ he

/-- Whose `PONG` is awaited was sent the `PING` and has not answered. -/
structure Tracked (S : NodeSetup) (tr : List (Entry Node NodeEvent Unit)) (node : Node) : Prop where
  limited : node.Limited S
  listed : node.Listed
  unanswered : ∀ p, (node.connection p).isOpen = true → ∀ t,
    node.peerScorer.awaitsSince (node.connection p).getEndpoint = some t → Unanswered tr p t

/-! ## The heartbeat -/

theorem heartbeat_opensNothing {keys : List String} :
    OpensNothing ({.quiet} ∪ {c | ∃ key ∈ keys, c = .shut key}) := by
  rintro c (rfl | ⟨key, -, rfl⟩) <;> exact nofun

theorem heartbeat_unlistened {keys : List String} :
    ∀ c ∈ ({.quiet} ∪ {c | ∃ key ∈ keys, c = .shut key} : Set NodeChange),
      ∀ port, c ≠ .listenPort p port := by
  rintro c (rfl | ⟨key, -, rfl⟩) <;> exact nofun

/-- What is closed then keeps its queue. -/
theorem heartbeat_writeQueue (h : heartbeat S env [] node = (.returned (), node'))
    (hlimited : (node.beaten env).Limited S) :
    (node'.connection p).writeQueue = ((node.beaten env).connection p).writeQueue := by
  refine writeQueue_of_changes (heartbeat_steps h) hlimited fun c hc => ?_
  obtain rfl | ⟨key, -, rfl⟩ := hc
  · exact .inl rfl
  · exact .inr (.inr ⟨key, rfl⟩)

/-- Whose `PONG` is awaited after the pings. -/
theorem Tracked.beaten (h : Tracked S tr e.pre) (hcall : e.call = .input env .heartbeat)
    (hstep : nodeStep S e.call e.pre = some (e.ret, e.post)) (htracks : TracksPings tr e)
    (hopen : (e.pre.connection p).isOpen = true)
    (ht : (e.pre.beaten env).peerScorer.awaitsSince (e.pre.connection p).getEndpoint = some t) :
    Unanswered (tr ++ [e]) p t := by
  -- a heartbeat leaves a wait alone or begins one
  have hping : (e.pre.beaten env).peerScorer.awaitsSince (e.pre.connection p).getEndpoint =
        e.pre.peerScorer.awaitsSince (e.pre.connection p).getEndpoint ∨
      e.pre.peerScorer.awaitsSince (e.pre.connection p).getEndpoint = none ∧
        (e.pre.beaten env).peerScorer.awaitsSince (e.pre.connection p).getEndpoint =
          some env.steady := beaten_awaitsSince
  rcases hping with hsame | ⟨hnone, hsome⟩
  · -- the wait goes on
    have hpong : e.call.isPongOf p = false := by simp only [hcall, NodeEvent.isPongOf]
    exact (h.unanswered p hopen t (hsame.symm.trans ht)).after hpong
  · -- the wait has just begun
    obtain rfl : env.steady = t := Option.some.inj (hsome.symm.trans ht)
    have hroom : (e.pre.connection p).writeQueue.length < Peer.maxWriteQueue := by
      have hping := htracks.ping
      rw [hcall, NodeEvent.dropsPing, List.any_eq_false] at hping
      have hp := hping p (h.listed.listed p hopen)
      rw [hopen, hnone] at hp
      simpa using hp
    refine ⟨tr, e, [], rfl, by rw [hcall]; rfl, by rw [hcall]; rfl, ?_, fun _ hmem =>
      absurd hmem List.not_mem_nil⟩
    rw [hcall] at hstep
    rw [heartbeat_writeQueue (handlerReturned_eq_some.mp hstep)
      (limited_of_changes (beaten_steps S) h.limited), beaten_connection h.listed, if_pos hopen,
      Peer.send, if_neg (Nat.not_le.mpr hroom)]

/-- What the heartbeat closes is overdue. -/
theorem heartbeat_closed (hstep : nodeStep S (.input env .heartbeat) node = some ((), node'))
    (hlimited : node.Limited S) (hlisted : node.Listed)
    (hopen : (node.connection p).isOpen = true) (hclosed : (node'.connection p).isOpen = false) :
    ∃ t, (node.beaten env).peerScorer.awaitsSince (node.connection p).getEndpoint = some t ∧
      env.steady - t > S.options.timeouts.heartbeatTimeoutSec * 1000000000 := by
  -- the pings close nothing
  have hconnection : (node.beaten env).connection p =
      (node.connection p).send { type := .ping } :=
    (beaten_connection hlisted).trans (if_pos hopen)
  have hopen' : ((node.beaten env).connection p).isOpen = true := by
    rw [hconnection, ← hopen, Peer.send]
    split <;> rfl
  have hendpoint : ((node.beaten env).connection p).getEndpoint =
      (node.connection p).getEndpoint := by
    rw [hconnection, Peer.send]
    split <;> rfl
  obtain ⟨c, hc, hcloses⟩ := closes_of_changes (heartbeat_steps (handlerReturned_eq_some.mp hstep))
    (limited_of_changes (beaten_steps S) hlimited)
    (listed_of_changes (beaten_steps S) hlimited hlisted) heartbeat_opensNothing
    heartbeat_unlistened hopen' hclosed
  rw [hendpoint] at hcloses
  -- of the changes after them only a ban or a timeout closes
  rcases hc with rfl | ⟨key, hkey, rfl⟩
  · rcases hcloses with ⟨_, hclose⟩ | hdisconnect | hshut
    · cases hclose
    · cases hdisconnect
    · cases hshut
  · rcases hcloses with ⟨_, hclose⟩ | hdisconnect | hshut
    · cases hclose
    · cases hdisconnect
    · exact NodeChange.shut.inj hshut ▸ PeerScorer.mem_getHeartbeatTimeoutPeers.mp hkey

/-! ## Runs -/

/-- Only the heartbeat sends pings. -/
theorem unpinged_of_not_heartbeat {event : NodeEvent}
    (h : ∀ env, event ≠ .input env .heartbeat) : ∀ c ∈ event.changes node, ∀ p, c ≠ .ping p := by
  rintro c hc p rfl
  cases event with
  | input env input =>
    cases input with
    | heartbeat => exact h env rfl
    | message q msg =>
      simp only [NodeEvent.changes, NodeInput.changes, Message.changes] at hc
      cases hmsg : msg.type <;> simp [hmsg] at hc
    | _ => simp [NodeEvent.changes, NodeInput.changes] at hc
  | _ => simp [NodeEvent.changes] at hc

theorem pong_changes {msg : Message} (hpong : msg.type = .pong) :
    OpensNothing (NodeEvent.changes node (.input env (.message q msg))) ∧
      ∀ c ∈ NodeEvent.changes node (.input env (.message q msg)), ∀ port,
        c ≠ .listenPort p port := by
  refine ⟨?_, ?_⟩
  · rintro c hc _ _ _ _ rfl
    simp [NodeEvent.changes, NodeInput.changes, Message.changes, hpong] at hc
  · rintro c hc port rfl
    simp [NodeEvent.changes, NodeInput.changes, Message.changes, hpong] at hc

/-- A `PONG` within the rate limit ends the wait. -/
theorem pong_answers {msg : Message} (hpong : msg.type = .pong)
    (hstep : nodeStep S (.input env (.message p msg)) node = some ((), node'))
    (hunlimited : node.senderLimited env p = false) :
    node'.peerScorer.awaitsSince (node.connection p).getEndpoint = none := by
  have hreturned := handlerReturned_eq_some.mp hstep
  have hadmits : node.Admits S env p msg :=
    ⟨unbanned_of_returned hreturned, hunlimited, fun hrepeated => hrepeated.2.1 hpong⟩
  obtain ⟨mid, hdispatch, rfl⟩ := handleMessage_returned hadmits hreturned
  obtain ⟨type, payload⟩ := msg
  obtain rfl : type = .pong := hpong
  have hmid : mid.peerScorer = (node.received S env p ⟨.pong, payload⟩).peerScorer.markPongReceived
      env.steady (node.connection p).getEndpoint :=
    (congrArg (fun r => r.2.peerScorer) hdispatch).symm
  show mid.peerScorer.awaitsSince _ = none
  rw [hmid, PeerScorer.awaitsSince_markPongReceived, if_pos rfl]

/-- **One event** that tracks pings keeps the invariant: a heartbeat puts its
own pings on record, a pong ends the wait of its connection, and no other event
makes anybody wait. -/
theorem Tracked.step (h : Tracked S tr e.pre)
    (hstep : nodeStep S e.call e.pre = some (e.ret, e.post)) (htracks : TracksPings tr e) :
    Tracked S (tr ++ [e]) e.post := by
  have hlisted := nodeStep_listed hstep h.limited h.listed
  refine ⟨nodeStep_limited hstep h.limited, hlisted, fun p hopen t ht => ?_⟩
  by_cases hheartbeat : ∃ env, e.call = .input env .heartbeat
  · obtain ⟨env, hcall⟩ := hheartbeat
    have hsteps := hstep
    rw [hcall] at hsteps
    obtain ⟨hopen', hsame⟩ := endpoint_of_changes (p := p) (nodeStep_changes hsteps) h.limited
      h.listed (by rintro c (((rfl | rfl) | ⟨_, rfl⟩) | ⟨_, rfl⟩) <;> exact nofun)
      (by rintro c (((rfl | rfl) | ⟨_, rfl⟩) | ⟨_, rfl⟩) <;> exact nofun) hopen
    rw [hsame] at ht
    refine h.beaten hcall hstep htracks hopen' (awaitsSince_of_changes
      (heartbeat_steps (handlerReturned_eq_some.mp hsteps))
      (limited_of_changes (beaten_steps S) h.limited) ?_ ht)
    rintro c (rfl | ⟨_, -, rfl⟩) <;> exact nofun
  have ht' := awaitsSince_of_changes (nodeStep_changes hstep) h.limited
    (unpinged_of_not_heartbeat fun env hcall => hheartbeat ⟨env, hcall⟩) ht
  have hbefore : Unanswered tr p t := by
    by_cases htakes : TakesOn e p
    · exact htracks.fresh p (hlisted.listed p hopen) htakes t ht'
    · obtain ⟨hopen', hsame⟩ : (e.pre.connection p).isOpen = true ∧ _ := by
        by_contra hnew
        exact htakes ⟨hopen, hnew⟩
      exact h.unanswered p hopen' t (hsame ▸ ht')
  refine hbefore.after (Bool.eq_false_iff.mpr fun hpong => ?_)
  -- the pong would have ended the wait
  unfold NodeEvent.isPongOf at hpong
  split at hpong
  next env q msg hcall =>
    obtain ⟨hq, htype⟩ : q = p ∧ msg.type = .pong := by simpa using hpong
    subst hq
    have hsteps := hstep
    rw [hcall] at hsteps
    obtain ⟨-, hsame⟩ := endpoint_of_changes (p := q) (nodeStep_changes hsteps) h.limited
      h.listed (pong_changes (p := q) htype).1 (pong_changes htype).2 hopen
    rw [hsame] at ht ht'
    have hunlimited : e.pre.senderLimited env q = false := by
      have hdrops := htracks.pong
      rw [hcall, NodeEvent.dropsPong, htype, ht'] at hdrops
      simpa using hdrops
    rw [pong_answers htype hsteps hunlimited] at ht
    cases ht
  next => cases hpong

/-- **What the heartbeat closes**: in every run of a new node in which each
`PONG` that is awaited is one of the very connection that was sent the `PING`,
the heartbeat closes a connection only if a `PING` was sent on it more than the
timeout before and no `PONG` has come from it since. -/
theorem heartbeat_closes_silent (S : NodeSetup) (bootstrapNodes : List String)
    (blockchain : Blockchain) (storage : Option DataDir)
    (tr : List (Entry Node NodeEvent Unit)) (node : Node)
    (h : NodeRun S (Node.create S bootstrapNodes blockchain storage) tr node)
    (htracks : Along TracksPings tr) :
    Along (fun before e => ∀ env p, e.call = .input env .heartbeat →
      (e.pre.connection p).isOpen = true → (e.post.connection p).isOpen = false →
      ∃ t, Unanswered (before ++ [e]) p t ∧
        env.steady - t > S.options.timeouts.heartbeatTimeoutSec * 1000000000) tr := by
  have hentries := (h.history_of (J := Tracked S) (C := TracksPings)
    ⟨⟨rfl, rfl⟩, create_listed, nofun⟩ (fun _ _ hJ hC hstep => hJ.step hstep hC) htracks).2
  intro before e after htr env p hcall hopen hclosed
  obtain ⟨hstep, htracked⟩ := hentries before e after htr
  have hsteps := hstep
  rw [hcall] at hsteps
  obtain ⟨t, ht, hlate⟩ := heartbeat_closed hsteps htracked.limited htracked.listed hopen hclosed
  exact ⟨t, htracked.beaten hcall hstep (htracks before e after htr) hopen ht, hlate⟩

/-! ## A peer that comes back -/

section Sample

/-- The sample node. -/
def silenceNode : Node := Node.create (setupOf []) [] sampleStart none

/-- A peer is pinged, crashes and is dialled again; its new connection stands
when the heartbeat ticks the next time. -/
def dialledAgain : List NodeEvent :=
  [.connect (sampleEnv 0) "10.0.0.2" 9001,
    .input (sampleEnv 1) (.dialConnected ⟨"10.0.0.2", 9001, 0⟩ (some ("10.0.0.2", 9001))),
    .input (sampleEnv 20) .heartbeat,
    .disconnected 0,
    .input (sampleEnv 40) .heartbeat,
    .connect (sampleEnv 60) "10.0.0.2" 9001,
    .input (sampleEnv 61) (.dialConnected ⟨"10.0.0.2", 9001, 0⟩ (some ("10.0.0.2", 9001)))]

/-- A peer that never answers. -/
def neverAnswers : List NodeEvent :=
  [.connect (sampleEnv 0) "10.0.0.2" 9001,
    .input (sampleEnv 1) (.dialConnected ⟨"10.0.0.2", 9001, 0⟩ (some ("10.0.0.2", 9001))),
    .input (sampleEnv 20) .heartbeat,
    .input (sampleEnv 70) .heartbeat]

end Sample

/-- The heartbeat closes the new connection nine seconds after it was made, and
with the ping of the same tick. -/
theorem heartbeat_closes_silent_counterexample :
    ∃ tr node node', NodeRun (setupOf []) silenceNode tr node ∧
      nodeStep (setupOf []) (.input (sampleEnv 70) .heartbeat) node = some ((), node') ∧
      (node.connection 1).isOpen = true ∧ (node'.connection 1).isOpen = false ∧
      ∀ t, ¬ Unanswered tr 1 t := by
  obtain ⟨tr, node, hrun, hcheck⟩ := Run.exists_of_exec (nodeStep (setupOf [])) dialledAgain
    silenceNode
    -- no heartbeat queues a ping to the second connection, which is closed all the same
    (fun r => decide ((∀ e ∈ r.1, e.call.isHeartbeat = true →
        (e.post.connection 1).writeQueue.length ≤ (e.pre.connection 1).writeQueue.length) ∧
      (r.2.connection 1).isOpen = true ∧
      (nodeStep (setupOf []) (.input (sampleEnv 70) .heartbeat) r.2).any
        (fun last => !(last.2.connection 1).isOpen) = true))
    (by decide +kernel)
  obtain ⟨hqueues, hopen, hlast⟩ := of_decide_eq_true hcheck
  obtain ⟨⟨u, node'⟩, hstep, hclosed⟩ := (Option.any_eq_true _ _).mp hlast
  refine ⟨tr, node, node', hrun, hstep, hopen, by simpa using hclosed, ?_⟩
  rintro t ⟨before, e, after, rfl, hheartbeat, -, hping, -⟩
  have hle := hqueues e (by simp) hheartbeat
  rw [hping] at hle
  simp at hle

/-- A peer that has not answered for fifty seconds. -/
theorem heartbeat_closes_silent_never_answers :
    ∃ tr node, NodeRun (setupOf []) silenceNode tr node ∧ (node.connection 0).isOpen = false ∧
      Along (fun before e => ∀ env p, e.call = .input env .heartbeat →
        (e.pre.connection p).isOpen = true → (e.post.connection p).isOpen = false →
        ∃ t, Unanswered (before ++ [e]) p t ∧
          env.steady - t > (setupOf []).options.timeouts.heartbeatTimeoutSec * 1000000000) tr := by
  obtain ⟨tr, node, hrun, hcheck⟩ := Run.exists_of_exec (nodeStep (setupOf [])) neverAnswers
    silenceNode
    (fun r => decide ((r.2.connection 0).isOpen = false ∧ ∀ e ∈ r.1,
      (∀ p ∈ e.post.peers, TakesOn e p →
        e.pre.peerScorer.awaitsSince (e.post.connection p).getEndpoint = none) ∧
      e.call.dropsPong e.pre = false ∧ e.call.dropsPing e.pre = false))
    (by decide +kernel)
  obtain ⟨hclosed, hall⟩ := of_decide_eq_true hcheck
  refine ⟨tr, node, hrun, hclosed, heartbeat_closes_silent (setupOf []) [] sampleStart none tr node
    hrun fun before e after htr => ?_⟩
  obtain ⟨hfresh, hpong, hping⟩ := hall e (by simp [htr])
  refine ⟨fun p hp htakes t ht => ?_, hpong, hping⟩
  rw [hfresh p hp htakes] at ht
  cases ht

end PersonalBlockchain
