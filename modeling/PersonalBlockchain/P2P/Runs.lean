import PersonalBlockchain.Lib.Machine
import PersonalBlockchain.P2P.Crash
import PersonalBlockchain.P2P.Footprint

/-!
# Personal blockchain — runs of a node

Everything that happens to a node, one event after the other: what it reacts
to, the requests of the HTTP interface and of `main`, and the ends of its
reads and writes. A step is a whole handler; it is there only when the handler
returns.

## Results

* `nodeStep_changes` — of which kinds the changes of a step are;
* `NodeChange.Leads.frame` — the fields that one kind of change only may write;
* `keeps_of_changes` — what each kind of change keeps, a run of changes keeps. An
  invariant of the node is proved for the kinds, and this carries it to events.
-/

namespace PersonalBlockchain

open Locking Routine NodeM Machine

/-- What happens to a node. -/
inductive NodeEvent
  | input (env : Env) (input : NodeInput)
  /-- a transaction from the HTTP interface -/
  | submit (env : Env) (tx : Transaction)
  /-- a mining request from the HTTP interface -/
  | mine (env : Env) (minerAddress : String)
  /-- a configured peer, from `main` -/
  | connect (env : Env) (host : String) (port : UInt16)
  /-- a read has failed, and the connection is closed -/
  | disconnected (p : PeerId)
  | written (p : PeerId)
  | writeFailed (p : PeerId)

/-- The steady clock of the handler; the ends of reads and writes have none. -/
def NodeEvent.steady : NodeEvent → Instant
  | input env _ | submit env _ | mine env _ | connect env _ _ => env.steady
  | disconnected _ | written _ | writeFailed _ => 0

/-- A handler of the `io_context` that does not return takes the node with it. -/
def handlerReturned : Ending Mutex JsonError Unit × Node → Option (Unit × Node)
  | (.returned _, node) => some ((), node)
  | _ => none

/-- The HTTP interface catches what is thrown. -/
def requestEnded {α : Type} : Ending Mutex JsonError α × Node → Option (Unit × Node)
  | (.selfDeadlock _, _) => none
  | (_, node) => some ((), node)

/-- One event: a whole handler. There is no step for a handler that does not
return, nor for a mining request that finds no nonce. -/
def nodeStep (S : NodeSetup) : NodeEvent → Node → Option (Unit × Node)
  | .input env input, node => handlerReturned (react S env input [] node)
  | .submit env tx, node =>
    requestEnded (callLedger S (fun bc => bc.addTransaction S.cfg env.now tx) [] node)
  | .mine env minerAddress, node =>
    match node.blockchain.minePendingTransactions S.cfg env.now minerAddress with
    -- no nonce is found
    | none => none
    | some outcome => requestEnded (callLedger S (fun _ => outcome) [] node)
  | .connect env host port, node => handlerReturned (connectToPeer S env ⟨host, port, 0⟩ [] node)
  | .disconnected p, node => some ((), node.updatePeer p Peer.close)
  | .written p, node => some ((), node.updatePeer p Peer.written)
  | .writeFailed p, node => some ((), node.updatePeer p Peer.writeFailed)

/-- A run of a node. -/
abbrev NodeRun (S : NodeSetup) (node₀ : Node) (tr : List (Entry Node NodeEvent Unit))
    (node : Node) : Prop :=
  Run (nodeStep S) node₀ tr node

variable {S : NodeSetup} {env : Env} {node node' : Node}

theorem handlerReturned_eq_some {r : Ending Mutex JsonError Unit × Node} {u : Unit} :
    handlerReturned r = some (u, node') ↔ r = (.returned (), node') := by
  obtain ⟨ending, last⟩ := r
  cases ending <;> simp [handlerReturned]

theorem eq_of_requestEnded {α : Type} {r : Ending Mutex JsonError α × Node} {u : Unit}
    (h : requestEnded r = some (u, node')) : r.2 = node' := by
  obtain ⟨ending, last⟩ := r
  cases ending <;> simp_all [requestEnded]

/-! ## What an event changes -/

/-- The kinds of change an input makes. -/
def NodeInput.changes (node : Node) : NodeInput → Set NodeChange
  | .message p msg =>
    -- whoever is over the limit is penalized, whatever the message
    {.count p, .remember, .penalize (node.connection p).getEndpoint,
      .shut (node.connection p).getEndpoint} ∪ msg.changes p (node.connection p).getEndpoint
  | .heartbeat => {.quiet, .clean} ∪ Set.range .ping ∪ Set.range .shut
  | .gossip => {.quiet, .evict} ∪ Set.range fun payload => .broadcast ⟨.requestPeers, payload⟩
  | .accepted remote =>
    {.quiet, .close .inbound, .open remote 0 (acceptedEndpoint remote) .inbound, .send}
  | .dialConnected dial remote =>
    {.quiet, .enroll, .open remote dial.port (makeEndpoint dial.host dial.port) .outbound, .send}
  | .rotation | .dialFailed _ => {.quiet}
  | .retryTimer _ | .bootstrap => {.quiet, .close .outbound}
  | .requestChain => {.broadcast { type := .requestChain }}

/-- The kinds of change an event makes. -/
def NodeEvent.changes (node : Node) : NodeEvent → Set NodeChange
  | .input _ i => i.changes node
  | .submit _ tx => {.ledger, .see, .broadcast { type := .newTransaction, payload := tx.toJson }}
  | .mine _ _ => {.quiet, .ledger, .see} ∪ Set.range fun payload => .broadcast ⟨.newBlock, payload⟩
  | .connect _ _ _ => {.quiet, .close .outbound}
  | .disconnected p => {.disconnect p}
  | .written p | .writeFailed p => {.flush p}

/-- Connections come with an accept or the end of a dial. -/
theorem opened_by {event : NodeEvent} {remote : Option (String × UInt16)} {port : UInt16}
    {key : String} {direction : ConnectionDirection}
    (h : .open remote port key direction ∈ event.changes node) :
    (∃ env, event = .input env (.accepted remote)) ∧ direction = .inbound ∨
      (∃ env dial, event = .input env (.dialConnected dial remote)) ∧ direction = .outbound := by
  cases event with
  | input env input =>
    cases input with
    -- the only two events that register a connection
    | accepted remote' =>
      obtain ⟨rfl, -, -, rfl⟩ : remote = remote' ∧ port = 0 ∧ _ ∧ direction = .inbound := by
        simpa [NodeEvent.changes, NodeInput.changes] using h
      exact .inl ⟨⟨env, rfl⟩, rfl⟩
    | dialConnected dial remote' =>
      obtain ⟨rfl, -, -, rfl⟩ : remote = remote' ∧ port = dial.port ∧ _ ∧
          direction = .outbound := by
        simpa [NodeEvent.changes, NodeInput.changes] using h
      exact .inr ⟨⟨env, dial, rfl⟩, rfl⟩
    | message p msg =>
      simp only [NodeEvent.changes, NodeInput.changes, Message.changes] at h
      cases hmsg : msg.type <;> simp [hmsg] at h
    | _ => simp [NodeEvent.changes, NodeInput.changes] at h
  | _ => simp [NodeEvent.changes] at h

/-- What follows when the rate limiter has counted the message of a sender that
is not banned. -/
theorem handleMessage_counted {p : PeerId} {msg : Message}
    (h : handleMessage S env p msg [] node = (.returned (), node')) :
    Relation.ReflTransGen (OneOf S env.steady ({.remember,
      .penalize (node.connection p).getEndpoint, .shut (node.connection p).getEndpoint} ∪
        msg.changes p (node.connection p).getEndpoint)) (node.counted env p) node' := by
  rw [handleMessage_checks] at h
  -- a banned sender, whose removal deadlocks, one over the limit, and one that is let in
  split_ifs at h
  · obtain ⟨last, hdeadlock⟩ := removePeer_deadlocks
    rw [hdeadlock] at h
    cases h
  · have hpenalized : Touches S env ({.remember, .penalize (node.connection p).getEndpoint,
        .shut (node.connection p).getEndpoint} ∪ msg.changes p (node.connection p).getEndpoint) []
        (penalizePeerByEndpoint S env (node.connection p).getEndpoint
          PeerScorer.penaltyInvalidTx) :=
      penalizePeerByEndpoint_touches (.inr (.inl rfl)) (.inl (by simp)) (.inl (by simp))
    have hsteps := hpenalized (node.counted env p)
    rwa [h] at hsteps
  · have hadmitted : Touches S env ({.remember, .penalize (node.connection p).getEndpoint,
        .shut (node.connection p).getEndpoint} ∪ msg.changes p (node.connection p).getEndpoint) []
        (handleAdmitted S env p (node.connection p).getEndpoint msg) :=
      .mono (fun s s' => OneOf.mono (Set.union_subset_union_left _ (by simp)))
        handleAdmitted_touches
    have hsteps := hadmitted (node.counted env p)
    rwa [h] at hsteps

theorem counted_leads {p : PeerId} {now : Instant} :
    (NodeChange.count p).Leads now node (node.counted env p) := by
  refine ⟨(node.connection p).recentTimes env.steady, ?_⟩
  refine congrArg (fun connection => { node with connection := connection }) (funext fun q => ?_)
  dsimp only
  split
  next heq => rw [heq]; rfl
  next => rfl

/-- A message that is handled, from a sender that is not banned. -/
theorem handleMessage_changes {p : PeerId} {msg : Message}
    (h : handleMessage S env p msg [] node = (.returned (), node')) :
    Relation.ReflTransGen (OneOf S env.steady (NodeInput.changes node (.message p msg)))
      node node' := by
  have hcount : OneOf S env.steady (NodeInput.changes node (.message p msg)) node
      (node.counted env p) := fun _ => ⟨.count p, .inl (by simp), counted_leads⟩
  refine .head hcount ((handleMessage_counted h).lift id fun _ _ => OneOf.mono ?_)
  exact Set.union_subset_union_left _ (Set.subset_insert _ _)

theorem react_changes {input : NodeInput} (h : react S env input [] node = (.returned (), node')) :
    Relation.ReflTransGen (OneOf S env.steady (input.changes node)) node node' := by
  -- the footprint of the handler, along the run that it had
  have hof : ∀ {x : NodeM Unit}, x [] node = (.returned (), node') →
      Touches S env (input.changes node) [] x →
      Relation.ReflTransGen (OneOf S env.steady (input.changes node)) node node' := by
    intro x hx htouches
    have hsteps := htouches node
    rwa [hx] at hsteps
  cases input with
  | message p msg => exact handleMessage_changes h
  | heartbeat =>
    exact hof h (heartbeat_touches (.inl (.inl (.inl rfl))) (.inl (.inl (.inr rfl)))
      (fun p => .inl (.inr ⟨p, rfl⟩)) fun key => .inr ⟨key, rfl⟩)
  | gossip =>
    exact hof h (gossip_touches (.inl (.inl rfl)) (.inl (.inr rfl)) fun payload =>
      .inr ⟨payload, rfl⟩)
  | rotation => exact hof h (attemptRandomPeerExpansion_touches rfl)
  | accepted remote =>
    exact hof h (accepted_touches (.inl rfl) (.inr (.inl rfl)) (.inr (.inr (.inl rfl)))
      (.inr (.inr (.inr rfl))))
  | dialConnected dial remote =>
    exact hof h (dialConnected_touches (.inl rfl) (.inr (.inl rfl)) (.inr (.inr (.inl rfl)))
      (.inr (.inr (.inr rfl))))
  | dialFailed dial =>
    exact hof h (.bind (act_touches rfl fun _ => .rest) fun _ => retryConnect_touches rfl)
  | retryTimer dial =>
    exact hof h (.bind (act_touches (.inl rfl) fun _ => .rest) fun _ =>
      connectToPeer_touches (.inl rfl) (.inr rfl))
  | bootstrap => exact hof h (connectToBootstrapPeers_touches (.inl rfl) (.inr rfl))
  | requestChain => exact hof h (broadcast_touches rfl (by simp))

/-- **What an event changes**: a sequence of changes of the kinds of the event,
in any number and order. -/
theorem nodeStep_changes {event : NodeEvent} {u : Unit}
    (h : nodeStep S event node = some (u, node')) :
    Relation.ReflTransGen (OneOf S event.steady (event.changes node)) node node' := by
  cases event with
  | input env input => exact react_changes (handlerReturned_eq_some.mp h)
  | submit env tx =>
    rw [← eq_of_requestEnded h]
    exact callLedger_addTransaction_touches (.inl rfl) (.inr (.inl rfl)) (.inr (.inr rfl)) node
  | mine env minerAddress =>
    rw [nodeStep] at h
    split at h
    · cases h
    next outcome houtcome =>
      rw [← eq_of_requestEnded h]
      suffices htouches : Touches S env (NodeEvent.changes node (.mine env minerAddress)) []
          (callLedger S fun _ => outcome) from htouches node
      refine callLedger_touches (.inl (.inr (.inl rfl))) fun bc effect heffect => ?_
      rw [(Blockchain.mine_spec houtcome).2] at heffect
      simp only [List.mem_cons, List.not_mem_nil, or_false] at heffect
      -- a mined block is stored, broadcast and reported
      obtain rfl | rfl | rfl := heffect
      · exact runEffect_touches (.inl (.inl rfl)) (by simp) (by simp)
      · exact broadcastBlock_touches (.inl (.inr (.inr rfl))) (.inr ⟨_, rfl⟩)
          (by simp [Mutex.rank])
      · exact runEffect_touches (.inl (.inl rfl)) (by simp) (by simp)
  | connect env host port =>
    have htouches : Touches S env (NodeEvent.changes node (.connect env host port)) []
        (connectToPeer S env ⟨host, port, 0⟩) := connectToPeer_touches (.inl rfl) (.inr rfl)
    have hsteps := htouches node
    rwa [handlerReturned_eq_some.mp h] at hsteps
  | disconnected p =>
    cases h
    exact .single fun _ => ⟨.disconnect p, rfl, rfl⟩
  | written p =>
    cases h
    exact .single fun _ => ⟨.flush p, rfl, .inl rfl⟩
  | writeFailed p =>
    cases h
    exact .single fun _ => ⟨.flush p, rfl, .inr rfl⟩

/-! ## What a change leaves alone -/

/-- A broadcast fills queues, and is on record. -/
theorem broadcasted_eq (msg : Message) (exclude : Option PeerId) (node : Node) :
    ∃ connection : PeerId → Peer,
      node.broadcasted msg exclude =
        { node with connection := connection, broadcasts := node.broadcasts ++ [msg] } ∧
      ∀ p, ∃ queue writing,
        connection p = { node.connection p with writeQueue := queue, writing := writing } := by
  -- one connection after the other
  suffices hmain : ∀ (ps : List PeerId) (node' : Node), (∃ connection : PeerId → Peer,
      node' = { node with connection := connection, broadcasts := node.broadcasts ++ [msg] } ∧
      ∀ p, ∃ queue writing,
        connection p = { node.connection p with writeQueue := queue, writing := writing }) →
      ∃ connection : PeerId → Peer,
        ps.foldl (fun node p =>
          if exclude ≠ some p ∧ (node.connection p).isOpen then
            node.updatePeer p fun peer => peer.send msg
          else node) node' =
          { node with connection := connection, broadcasts := node.broadcasts ++ [msg] } ∧
        ∀ p, ∃ queue writing,
          connection p = { node.connection p with writeQueue := queue, writing := writing } from
    hmain node.peers _ ⟨node.connection, rfl, fun _ => ⟨_, _, rfl⟩⟩
  intro ps
  induction ps with
  | nil => exact fun node' h => h
  | cons p ps ih =>
    intro node' h
    rw [List.foldl_cons]
    refine ih _ ?_
    split
    · obtain ⟨connection, rfl, hqueues⟩ := h
      refine ⟨_, rfl, fun q => ?_⟩
      obtain ⟨queue, writing, hq⟩ := hqueues q
      dsimp only
      split
      · rw [hq, Peer.send]
        split
        · exact ⟨_, _, rfl⟩
        · exact ⟨_, _, rfl⟩
      · exact ⟨_, _, hq⟩
    · exact h

/-- The fields that one kind of change only may write. -/
structure NodeChange.Frame (c : NodeChange) (node node' : Node) : Prop where
  blockchain : c ≠ .ledger → node'.blockchain = node.blockchain
  messageDedup : c ≠ .remember → node'.messageDedup = node.messageDedup
  seenTxIDs : c ≠ .see → node'.seenTxIDs = node.seenTxIDs
  seenBlockHashes : c ≠ .see → node'.seenBlockHashes = node.seenBlockHashes
  broadcasts : (∀ msg, c ≠ .broadcast msg) → node'.broadcasts = node.broadcasts

/-- Each of these fields is written by its own kind of change and by no other. -/
theorem NodeChange.Leads.frame {now : Instant} {c : NodeChange} (h : c.Leads now node node') :
    c.Frame node node' := by
  cases c with
  | quiet =>
    exact ⟨fun _ => Quiet.blockchain h, fun _ => Quiet.messageDedup h, fun _ => Quiet.seenTxIDs h,
      fun _ => Quiet.seenBlockHashes h, fun _ => Quiet.broadcasts h⟩
  -- the next four change what they are named after
  | ledger =>
    obtain ⟨_, rfl⟩ := h
    exact ⟨fun hc => absurd rfl hc, fun _ => rfl, fun _ => rfl, fun _ => rfl, fun _ => rfl⟩
  | remember =>
    obtain ⟨_, rfl⟩ := h
    exact ⟨fun _ => rfl, fun hc => absurd rfl hc, fun _ => rfl, fun _ => rfl, fun _ => rfl⟩
  | see =>
    obtain ⟨_, _, rfl⟩ := h
    exact ⟨fun _ => rfl, fun _ => rfl, fun hc => absurd rfl hc, fun hc => absurd rfl hc,
      fun _ => rfl⟩
  | broadcast msg =>
    obtain ⟨exclude, rfl⟩ := h
    obtain ⟨connection, heq, -⟩ := broadcasted_eq msg exclude node
    rw [heq]
    exact ⟨fun _ => rfl, fun _ => rfl, fun _ => rfl, fun _ => rfl, fun hc => absurd rfl (hc msg)⟩
  | shut key =>
    obtain ⟨closed, _, hquiet⟩ := h
    exact ⟨fun _ => hquiet.blockchain, fun _ => hquiet.messageDedup, fun _ => hquiet.seenTxIDs,
      fun _ => hquiet.seenBlockHashes, fun _ => hquiet.broadcasts⟩
  | «open» remote port key direction =>
    have hquiet := h.2
    exact ⟨fun _ => hquiet.blockchain, fun _ => hquiet.messageDedup, fun _ => hquiet.seenTxIDs,
      fun _ => hquiet.seenBlockHashes, fun _ => hquiet.broadcasts⟩
  -- and the rest none
  | count p | evict =>
    obtain ⟨_, rfl⟩ := h
    exact ⟨fun _ => rfl, fun _ => rfl, fun _ => rfl, fun _ => rfl, fun _ => rfl⟩
  | enroll | reward key | penalize key =>
    obtain ⟨_, _, rfl⟩ := h
    exact ⟨fun _ => rfl, fun _ => rfl, fun _ => rfl, fun _ => rfl, fun _ => rfl⟩
  | send =>
    obtain ⟨_, _, _, rfl⟩ := h
    exact ⟨fun _ => rfl, fun _ => rfl, fun _ => rfl, fun _ => rfl, fun _ => rfl⟩
  | close direction =>
    obtain ⟨_, _, rfl⟩ := h
    exact ⟨fun _ => rfl, fun _ => rfl, fun _ => rfl, fun _ => rfl, fun _ => rfl⟩
  | flush p =>
    obtain rfl | rfl := h
    · exact ⟨fun _ => rfl, fun _ => rfl, fun _ => rfl, fun _ => rfl, fun _ => rfl⟩
    · exact ⟨fun _ => rfl, fun _ => rfl, fun _ => rfl, fun _ => rfl, fun _ => rfl⟩
  | ping p | pong key | listenPort p port | clean | disconnect p =>
    obtain rfl := h
    exact ⟨fun _ => rfl, fun _ => rfl, fun _ => rfl, fun _ => rfl, fun _ => rfl⟩

/-- Only a new connection is registered. -/
theorem NodeChange.Leads.connectionManager {now : Instant} {c : NodeChange}
    (h : c.Leads now node node') :
    (∃ remote port key direction, c = .open remote port key direction ∧
      node'.connectionManager = node.connectionManager.registerConnection key direction) ∨
    node'.connectionManager = node.connectionManager ∨
      ∃ key, node'.connectionManager = node.connectionManager.unregisterConnection key := by
  cases c with
  | quiet => exact .inr (.inl (Quiet.connectionManager h))
  -- most changes do not touch the slots
  | ledger | remember | evict =>
    obtain ⟨_, rfl⟩ := h
    exact .inr (.inl rfl)
  | count p =>
    obtain ⟨_, rfl⟩ := h
    exact .inr (.inl rfl)
  | enroll | reward key | penalize key =>
    obtain ⟨_, _, rfl⟩ := h
    exact .inr (.inl rfl)
  | see =>
    obtain ⟨_, _, rfl⟩ := h
    exact .inr (.inl rfl)
  | send =>
    obtain ⟨_, _, _, rfl⟩ := h
    exact .inr (.inl rfl)
  | broadcast msg =>
    obtain ⟨exclude, rfl⟩ := h
    obtain ⟨connection, heq, -⟩ := broadcasted_eq msg exclude node
    exact .inr (.inl (heq ▸ rfl))
  | ping p =>
    obtain rfl := h
    exact .inr (.inl rfl)
  | pong key =>
    obtain rfl := h
    exact .inr (.inl rfl)
  | listenPort p port =>
    obtain rfl := h
    exact .inr (.inl rfl)
  -- a close by itself gives no slot back
  | close direction =>
    obtain ⟨_, p, rfl⟩ := h
    exact .inr (.inl rfl)
  | shut key =>
    obtain ⟨closed, _, hquiet⟩ := h
    exact .inr (.inr ⟨key, hquiet.connectionManager⟩)
  | clean =>
    obtain rfl := h
    -- a closed connection has no endpoint: its slot is sought under "unknown"
    unfold Node.cleaned
    split
    · exact .inr (.inr ⟨"unknown", rfl⟩)
    · exact .inr (.inl rfl)
  | disconnect p =>
    obtain rfl := h
    exact .inr (.inl rfl)
  | flush p =>
    obtain rfl | rfl := h
    · exact .inr (.inl rfl)
    · exact .inr (.inl rfl)
  | «open» remote port key direction =>
    exact .inl ⟨remote, port, key, direction, rfl, h.2.connectionManager⟩

/-- No change touches the limits. -/
theorem NodeChange.Leads.limited {now : Instant} {c : NodeChange} (h : c.Leads now node node')
    (hlimited : node.Limited S) : node'.Limited S := by
  unfold Node.Limited at hlimited ⊢
  obtain ⟨remote, port, key, direction, -, heq⟩ | heq | ⟨key, heq⟩ := h.connectionManager
  · rwa [heq]
  · rwa [heq]
  · rwa [heq]

/-- **What each kind of change keeps, a run of changes keeps**, while the limits
stand. -/
theorem keeps_of_changes {now : Instant} {K : Set NodeChange} {I : Node → Prop}
    (h : Relation.ReflTransGen (OneOf S now K) node node') (hlimited : node.Limited S)
    (hI : ∀ c ∈ K, ∀ s s', c.Leads now s s' → I s → I s') (hnode : I node) :
    I node' ∧ node'.Limited S := by
  induction h with
  | refl => exact ⟨hnode, hlimited⟩
  | tail _ hstep ih =>
    obtain ⟨c, hc, hleads⟩ := hstep ih.2
    exact ⟨hI c hc _ _ hleads ih.1, hleads.limited ih.2⟩

theorem limited_of_changes {now : Instant} {K : Set NodeChange}
    (h : Relation.ReflTransGen (OneOf S now K) node node') (hlimited : node.Limited S) :
    node'.Limited S :=
  (keeps_of_changes h hlimited (I := fun _ => True) (fun _ _ _ _ _ _ => trivial) trivial).2

theorem nodeStep_limited {event : NodeEvent} {u : Unit}
    (h : nodeStep S event node = some (u, node')) (hlimited : node.Limited S) :
    node'.Limited S := limited_of_changes (nodeStep_changes h) hlimited

end PersonalBlockchain
