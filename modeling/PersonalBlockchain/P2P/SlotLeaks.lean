import PersonalBlockchain.P2P.ConnectionLimits
import PersonalBlockchain.P2P.Connections

/-!
# Personal blockchain — slots of connections that are gone

A connection takes a slot under the endpoint it is registered with. Whatever
gives the slot back asks the connection for its endpoint again: the heartbeat
when it drops a connection that is closed, a ban or a timeout when it closes
one. The answer is `"unknown"` for what is closed, and the announced listen port
stands for the port that was registered; then the slot is lost.

`Owned` is the invariant: every slot belongs to a connection in the list that was
registered with it.

## Results

* `Owned.step` — an event that frees the slots of what it closes keeps the invariant;
* `slots_not_leaked` — in every run whose events all do, every slot belongs to a
  listed connection, and a direction without connections accepts one;
* `slots_not_leaked_counterexample` — a peer that goes away and keeps its slot.
-/

namespace PersonalBlockchain

open Std Locking Routine NodeM Machine FiniteMap

/-! ## Who holds a slot -/

/-- The endpoint and the direction an event registers a connection with. -/
def NodeEvent.registers : NodeEvent → Option (String × ConnectionDirection)
  | .input _ (.accepted remote) => some (acceptedEndpoint remote, .inbound)
  | .input _ (.dialConnected dial _) => some (makeEndpoint dial.host dial.port, .outbound)
  | _ => none

/-- What a connection was registered with. -/
def registration (tr : List (Entry Node NodeEvent Unit)) (p : PeerId) :
    Option (String × ConnectionDirection) :=
  tr.findSome? fun e =>
    if e.pre.nextPeer = p ∧ p < e.post.nextPeer then e.call.registers else none

/-- The event may end in a ban or a timeout, which close connections and
unregister their endpoint at once. -/
def NodeEvent.shuts : NodeEvent → Bool
  | .input _ (.message _ _) | .input _ .heartbeat => true
  | _ => false

/-- Whatever this entry closes gives its slot back: it is closed by a ban or a
timeout and has the endpoint it was registered with, or that is `"unknown"`, or
the slot belongs to another connection as well. -/
def FreesSlots (tr : List (Entry Node NodeEvent Unit)) (e : Entry Node NodeEvent Unit) : Prop :=
  ∀ p ∈ e.pre.peers, (e.pre.connection p).isOpen = true → (e.post.connection p).isOpen = false →
    ∀ r ∈ registration tr p, e.pre.connectionManager.peers[r.1]? = some r.2 →
      r.1 = "unknown" ∨
      (e.call.shuts = true ∧ (e.pre.connection p).getEndpoint = r.1) ∨
      ∃ q ∈ e.post.peers, (e.post.connection q).isOpen = true ∧ registration tr q = some r

instance {tr : List (Entry Node NodeEvent Unit)} {e : Entry Node NodeEvent Unit} :
    Decidable (FreesSlots tr e) := by
  unfold FreesSlots
  infer_instance

variable {S : NodeSetup} {env : Env} {node node' : Node} {now : Instant} {c : NodeChange}
  {K : Set NodeChange} {p : PeerId} {key : String} {direction : ConnectionDirection}
  {tr : List (Entry Node NodeEvent Unit)} {e : Entry Node NodeEvent Unit}

theorem registration_append : registration (tr ++ [e]) p = (registration tr p).or
    (if e.pre.nextPeer = p ∧ p < e.post.nextPeer then e.call.registers else none) := by
  rw [registration, List.findSome?_append, List.findSome?_singleton]
  rfl

/-! ## Changes that open nothing -/

/-- What such changes leave of the slots. -/
structure SlotsAfter (node node' : Node) : Prop where
  registered : ∀ {key : String} {direction}, node'.connectionManager.peers[key]? = some direction →
    node.connectionManager.peers[key]? = some direction
  nextPeer : node'.nextPeer = node.nextPeer
  /-- a closed connection leaves the list when `"unknown"` is unregistered -/
  unknown : ∀ {direction}, node'.connectionManager.peers["unknown"]? = some direction →
    node'.peers = node.peers

theorem NodeChange.Leads.registered (h : c.Leads now node node')
    (hopen : ∀ remote port key direction, c ≠ .open remote port key direction)
    (hkey : node'.connectionManager.peers[key]? = some direction) :
    node.connectionManager.peers[key]? = some direction := by
  obtain ⟨_, _, _, _, hc, -⟩ | heq | ⟨other, heq⟩ := h.connectionManager
  · exact absurd hc (hopen _ _ _ _)
  · rwa [heq] at hkey
  · rw [heq, ConnectionManager.unregisterConnection, getElem?_erase_eq] at hkey
    split at hkey
    · cases hkey
    · exact hkey

theorem slotsAfter_of_changes (h : Relation.ReflTransGen (OneOf S now K) node node')
    (hlimited : node.Limited S) (hK : OpensNothing K) : SlotsAfter node node' := by
  refine (keeps_of_changes h hlimited (I := SlotsAfter node) (fun c hc s s' hleads hI => ?_)
    ⟨id, rfl, fun _ => rfl⟩).1
  -- no slot is taken, for nothing is opened
  have hregistered : ∀ {key : String} {direction : ConnectionDirection},
      s'.connectionManager.peers[key]? = some direction →
      s.connectionManager.peers[key]? = some direction := hleads.registered (hK c hc)
  refine ⟨fun hkey => hI.registered (hregistered hkey), ?_, fun hkey => ?_⟩
  · rcases hleads.peers with ⟨-, hnext⟩ | ⟨-, rfl⟩ | ⟨_, _, _, _, hopen, -⟩
    · exact hnext.trans hI.nextPeer
    · exact hI.nextPeer
    · exact absurd hopen (hK c hc _ _ _ _)
  · rcases hleads.peers with ⟨hpeers, -⟩ | ⟨-, rfl⟩ | ⟨_, _, _, _, hopen, -⟩
    · exact hpeers.trans (hI.unknown (hregistered hkey))
    · -- nothing was closed, for `"unknown"` is still registered
      rw [← hI.unknown (hregistered hkey)]
      unfold Node.cleaned at hkey ⊢
      dsimp only at hkey ⊢
      split at hkey
      · rw [ConnectionManager.unregisterConnection, getElem?_erase_eq, if_pos rfl] at hkey
        cases hkey
      next hclosed =>
        exact List.filter_eq_self.mpr fun p hp => by
          by_contra hp'
          exact hclosed ⟨p, hp, Bool.eq_false_of_not_eq_true hp'⟩
    · exact absurd hopen (hK c hc _ _ _ _)

/-- Where connections are closed with their endpoint only, the endpoint of what
is closed is not registered any more. -/
theorem unregistered_of_changes (h : Relation.ReflTransGen (OneOf S now K) node node')
    (hlimited : node.Limited S) (hlisted : node.Listed) (hK : OpensNothing K)
    (hcloses : ∀ c ∈ K, (∀ direction, c ≠ .close direction) ∧ ∀ p, c ≠ .disconnect p)
    (hlisten : ∀ p port, NodeChange.listenPort p port ∈ K → ∀ key, NodeChange.shut key ∈ K →
      key = (node.connection p).getEndpoint)
    (hopen : (node.connection p).isOpen = true) (hclosed : (node'.connection p).isOpen = false) :
    node'.connectionManager.peers[(node.connection p).getEndpoint]? = none := by
  -- until it is closed the connection keeps its endpoint, and from then on the slot is free
  have hkept := (keeps_of_changes h hlimited (I := fun last => last.Listed ∧
    (((last.connection p).isOpen = true ∧
      ((last.connection p).getEndpoint = (node.connection p).getEndpoint ∨
        ∃ port, NodeChange.listenPort p port ∈ K)) ∨
      last.connectionManager.peers[(node.connection p).getEndpoint]? = none))
    (fun c hc s s' hleads hI => ⟨hleads.listed hI.1, ?_⟩) ⟨hlisted, .inl ⟨hopen, .inl rfl⟩⟩).1.2
  · rcases hkept with ⟨hopen', -⟩ | hnone
    · exact absurd (hopen'.symm.trans hclosed) (by decide)
    · exact hnone
  -- one change
  rcases hI.2 with ⟨hopen', hendpoint⟩ | hnone
  · cases hlast : (s'.connection p).isOpen with
    | true =>
      refine .inl ⟨rfl, ?_⟩
      rcases hleads.endpoint hI.1.nodup hlast with ⟨-, hsame | ⟨port, hport⟩⟩ |
        ⟨_, _, _, _, hnew, -⟩
      · rwa [hsame]
      · exact .inr ⟨port, hport ▸ hc⟩
      · exact absurd hnew (hK c hc _ _ _ _)
    | false =>
      refine .inr ?_
      rcases hleads.closed hI.1.nodup hopen' hlast with ⟨_, hclose⟩ | hdisconnect | hshut
      · exact absurd hclose ((hcloses c hc).1 _)
      · exact absurd hdisconnect ((hcloses c hc).2 _)
      · have hkey : (s.connection p).getEndpoint = (node.connection p).getEndpoint :=
          hendpoint.elim id fun ⟨port, hport⟩ => hlisten p port hport _ (hshut ▸ hc)
        rw [hshut, hkey] at hleads
        obtain ⟨_, _, hquiet⟩ := hleads
        rw [hquiet.connectionManager]
        show (s.connectionManager.peers.erase _)[_]? = none
        rw [getElem?_erase_eq, if_pos rfl]
  · refine .inr (Option.eq_none_iff_forall_ne_some.mpr fun d hd => ?_)
    exact Option.some_ne_none d ((hleads.registered (hK c hc) hd).symm.trans hnone)

/-! ## One event -/

/-- Where nothing is registered no connection is opened. -/
theorem opensNothing_of_registers {event : NodeEvent} (h : event.registers = none) :
    OpensNothing (event.changes node) := by
  rintro c hc remote port key direction rfl
  obtain ⟨⟨env, rfl⟩, -⟩ | ⟨⟨env, dial, rfl⟩, -⟩ := opened_by hc
  · cases h
  · cases h

theorem registers_of_shuts {event : NodeEvent} (h : event.shuts = true) :
    event.registers = none := by
  unfold NodeEvent.shuts at h
  split at h
  · rfl
  · rfl
  · cases h

theorem changes_of_shuts {event : NodeEvent} (h : event.shuts = true) :
    ∀ c ∈ event.changes node, (∀ direction, c ≠ .close direction) ∧ ∀ p, c ≠ .disconnect p := by
  intro c hc
  refine ⟨?_, ?_⟩
  all_goals
    rintro _ rfl
    cases event with
    | input env input =>
      cases input with
      | message p msg =>
        simp only [NodeEvent.changes, NodeInput.changes, Message.changes] at hc
        cases hmsg : msg.type <;> simp [hmsg] at hc
      | heartbeat => simp [NodeEvent.changes, NodeInput.changes] at hc
      | _ => cases h
    | _ => cases h

/-- Who announces a listen port is the one that may be banned. -/
theorem shut_of_listenPort {event : NodeEvent} (h : event.shuts = true) {port : UInt16}
    (hport : NodeChange.listenPort p port ∈ event.changes node)
    (hkey : NodeChange.shut key ∈ event.changes node) : key = (node.connection p).getEndpoint := by
  cases event with
  | input env input =>
    cases input with
    | message q msg =>
      simp only [NodeEvent.changes, NodeInput.changes, Message.changes] at hport hkey
      cases hmsg : msg.type <;> simp [hmsg] at hport hkey
      obtain ⟨rfl⟩ := hport
      exact hkey
    | heartbeat => simp [NodeEvent.changes, NodeInput.changes] at hport
    | _ => cases h
  | _ => cases h

/-- An event that registers opens one connection, once. -/
theorem nodeStep_registers {event : NodeEvent} {u : Unit}
    (h : nodeStep S event node = some (u, node'))
    (hregisters : event.registers = some (key, direction)) :
    ∃ remote port, Once S event.steady {.quiet, .close direction}
      (.open remote port key direction) {.quiet, .enroll, .send} node node' := by
  -- accepting a socket and a dial that comes through register, and once each
  cases event with
  | input env input =>
    cases input with
    | accepted remote =>
      cases hregisters
      have hrun : accepted S remote [] node = (.returned (), node') :=
        handlerReturned_eq_some.mp h
      have honce : Once S env.steady _ _ _ node (accepted S remote [] node).2 := accepted_once
      rw [hrun] at honce
      exact ⟨_, _, honce.mono subset_rfl (by simp [Set.insert_subset_iff])⟩
    | dialConnected dial remote =>
      cases hregisters
      have hrun : dialConnected S env dial remote [] node = (.returned (), node') :=
        handlerReturned_eq_some.mp h
      have honce : Once S env.steady _ _ _ node (dialConnected S env dial remote [] node).2 :=
        dialConnected_once
      rw [hrun] at honce
      exact ⟨_, _, honce.mono (by simp) subset_rfl⟩
    | _ => cases hregisters
  | _ => cases hregisters

/-! ## Runs -/

/-- Every slot belongs to a connection in the list, which is open or `"unknown"`. -/
structure Owned (S : NodeSetup) (tr : List (Entry Node NodeEvent Unit)) (node : Node) : Prop where
  limited : node.Limited S
  listed : node.Listed
  below : ∀ {p r}, registration tr p = some r → p < node.nextPeer
  owner : ∀ {key : String} {direction}, node.connectionManager.peers[key]? = some direction →
    ∃ p ∈ node.peers, registration tr p = some (key, direction) ∧
      ((node.connection p).isOpen = true ∨ key = "unknown")

/-- Who holds a slot before the entry and after it. -/
theorem Owned.owner_after (h : Owned S tr e.pre)
    (hstep : nodeStep S e.call e.pre = some (e.ret, e.post)) (hfrees : FreesSlots tr e)
    (hbefore : e.pre.connectionManager.peers[key]? = some direction)
    (hafter : e.post.connectionManager.peers[key]? = some direction)
    (hunknown : key = "unknown" → ∀ p ∈ e.pre.peers, p ∈ e.post.peers) :
    ∃ p ∈ e.post.peers, registration (tr ++ [e]) p = some (key, direction) ∧
      ((e.post.connection p).isOpen = true ∨ key = "unknown") := by
  have hlisted := nodeStep_listed hstep h.limited h.listed
  have hstill : ∀ {p}, registration tr p = some (key, direction) →
      registration (tr ++ [e]) p = some (key, direction) :=
    fun hp => by rw [registration_append, hp, Option.some_or]
  obtain ⟨p, hp, hregistration, hopen⟩ := h.owner hbefore
  -- "unknown" is given back with the sweep only
  by_cases hkey : key = "unknown"
  · exact ⟨p, hunknown hkey p hp, hstill hregistration, .inr hkey⟩
  have hopen := hopen.resolve_right hkey
  -- the owner is still open, or was closed and the slot has another
  cases hlast : (e.post.connection p).isOpen with
  | true => exact ⟨p, hlisted.listed p hlast, hstill hregistration, .inl hlast⟩
  | false =>
    rcases hfrees p hp hopen hlast _ hregistration hbefore with hunknown | ⟨hshuts, hendpoint⟩ |
      ⟨q, hq, hopen', hother⟩
    · exact absurd hunknown hkey
    · -- its slot was given back
      have hgone := unregistered_of_changes (nodeStep_changes hstep) h.limited h.listed
        (opensNothing_of_registers ?_) (changes_of_shuts hshuts)
        (fun p port hport key hkey => shut_of_listenPort hshuts hport hkey) hopen hlast
      · rw [hendpoint, hafter] at hgone
        cases hgone
      · exact registers_of_shuts hshuts
    · exact ⟨q, hq, hstill hother, .inl hopen'⟩

/-- **One event** that frees the slots of what it closes keeps the invariant. -/
theorem Owned.step (h : Owned S tr e.pre)
    (hstep : nodeStep S e.call e.pre = some (e.ret, e.post)) (hfrees : FreesSlots tr e) :
    Owned S (tr ++ [e]) e.post := by
  refine ⟨nodeStep_limited hstep h.limited, nodeStep_listed hstep h.limited h.listed, ?_, ?_⟩
  · intro p r hr
    rw [registration_append, Option.or_eq_some_iff] at hr
    rcases hr with hr | ⟨-, hr⟩
    · exact (h.below hr).trans_le (nodeStep_nextPeer_le hstep h.limited)
    · split at hr
      next hnew => exact hnew.2
      next => cases hr
  intro key direction hafter
  cases hregisters : e.call.registers with
  | none =>
    have hslots := slotsAfter_of_changes (nodeStep_changes hstep) h.limited
      (opensNothing_of_registers hregisters)
    refine h.owner_after hstep hfrees (hslots.registered hafter) hafter fun hkey p hp => ?_
    subst hkey
    exact hslots.unknown hafter ▸ hp
  | some r =>
    obtain ⟨key', direction'⟩ := r
    obtain ⟨remote, port, honce⟩ := nodeStep_registers hstep hregisters
    rcases honce with hsteps | ⟨first, last, hfirst, hopen, hlast⟩
    · have hslots := slotsAfter_of_changes hsteps h.limited (by simp [OpensNothing])
      refine h.owner_after hstep hfrees (hslots.registered hafter) hafter fun hkey p hp => ?_
      subst hkey
      exact hslots.unknown hafter ▸ hp
    have hslots := slotsAfter_of_changes hfirst h.limited (by simp [OpensNothing])
    have hlimited := limited_of_changes hfirst h.limited
    have hlisted := hopen.listed (listed_of_changes hfirst h.limited h.listed)
    have hslots' := slotsAfter_of_changes hlast (hopen.limited hlimited) (by simp [OpensNothing])
    have hregistered := hslots'.registered hafter
    rw [hopen.2.connectionManager] at hregistered
    change (first.connectionManager.peers.insert key' direction')[key]? = _ at hregistered
    rw [getElem?_insert_eq] at hregistered
    split at hregistered
    next heq =>
      -- the slot of the new connection
      subst heq
      cases hregistered
      have hnew : first.nextPeer = e.pre.nextPeer := hslots.nextPeer
      have hnext : e.post.nextPeer = e.pre.nextPeer + 1 := by
        rw [hslots'.nextPeer, hopen.2.nextPeer, ← hnew]
        rfl
      have hopened : (last.connection e.pre.nextPeer).isOpen = true := by
        rw [hopen.2.connection, ← hnew]
        exact congrArg Peer.isOpen (opened_connection.trans (if_pos rfl))
      have hopened' := isOpen_of_changes hlast (hopen.limited hlimited) hlisted
        (by simp [NodeChange.Closes]) hopened
      refine ⟨e.pre.nextPeer, (nodeStep_listed hstep h.limited h.listed).listed _ hopened', ?_,
        .inl hopened'⟩
      rw [registration_append, if_pos ⟨rfl, hnext ▸ Nat.lt_succ_self _⟩, hregisters]
      cases hold : registration tr e.pre.nextPeer with
      | none => rfl
      | some r => exact absurd (h.below hold) (Nat.lt_irrefl _)
    next hother =>
      refine h.owner_after hstep hfrees (hslots.registered hregistered) hafter fun hkey p hp => ?_
      subst hkey
      rw [hslots'.unknown hafter, hopen.2.peers]
      exact List.mem_append_left _ (hslots.unknown hregistered ▸ hp)

/-- How many connections of a direction a node takes. -/
def NodeOptions.maxPeers (direction : ConnectionDirection) (options : NodeOptions) : Nat :=
  match direction with
  | .inbound => options.maxInboundPeers
  | .outbound => options.maxOutboundPeers

/-- Every endpoint that is registered belongs to a connection in `peers_`, and a
direction that none of them has takes a new one. -/
def SlotsHeld (S : NodeSetup) (tr : List (Entry Node NodeEvent Unit)) (node : Node) : Prop :=
  (∀ (key : String) direction, node.connectionManager.peers[key]? = some direction →
    ∃ p ∈ node.peers, registration tr p = some (key, direction)) ∧
  ∀ direction, (∀ p ∈ node.peers, ∀ r ∈ registration tr p, r.2 ≠ direction) →
    0 < S.options.maxPeers direction → node.connectionManager.canAccept direction = true

/-- With every slot owned, a direction that no listed connection has is free. -/
theorem Owned.slotsHeld (h : Owned S tr node) : SlotsHeld S tr node := by
  have howner : ∀ (key : String) direction,
      node.connectionManager.peers[key]? = some direction →
      ∃ p ∈ node.peers, registration tr p = some (key, direction) := fun key direction hkey => by
    obtain ⟨p, hp, hregistration, -⟩ := h.owner hkey
    exact ⟨p, hp, hregistration⟩
  refine ⟨howner, fun direction hnone hlimit => ?_⟩
  -- every key has an owner, so without one of this direction the count is zero
  have hcount : node.connectionManager.count direction = 0 := by
    rw [ConnectionManager.count_eq]
    refine countValues_eq_zero fun key direction' hkey => decide_eq_false fun heq => ?_
    obtain ⟨p, hp, hregistration⟩ := howner key direction' hkey
    exact hnone p hp _ hregistration heq
  cases direction with
  | inbound => exact decide_eq_true (by rw [hcount, h.limited.2]; exact hlimit)
  | outbound => exact decide_eq_true (by rw [hcount, h.limited.1]; exact hlimit)

/-- **When no slot is lost**: in every run of a new node in which whatever is
closed gives its slot back, every endpoint that is registered belongs to a
connection in `peers_` after every event, the heartbeat among them. -/
theorem slots_not_leaked (S : NodeSetup) (bootstrapNodes : List String) (blockchain : Blockchain)
    (storage : Option DataDir) (tr : List (Entry Node NodeEvent Unit)) (node : Node)
    (h : NodeRun S (Node.create S bootstrapNodes blockchain storage) tr node)
    (hfrees : Along FreesSlots tr) :
    Along (fun before e => SlotsHeld S (before ++ [e]) e.post) tr := by
  have hentries := (h.history_of (J := Owned S) (C := FreesSlots)
    ⟨⟨rfl, rfl⟩, create_listed, nofun, fun hkey => by simp [Node.create] at hkey⟩
    (fun _ _ hJ hC hstep => hJ.step hstep hC) hfrees).2
  intro before e after htr
  obtain ⟨hstep, howned⟩ := hentries before e after htr
  exact (howned.step hstep (hfrees before e after htr)).slotsHeld

/-! ## A peer that goes away -/

section Sample

/-- A node with one inbound slot. -/
def oneInbound : NodeSetup := { setupOf [] with options := { maxInboundPeers := 1 } }

/-- A peer connects and disconnects, and the heartbeat cleans up. -/
def goneAway : List NodeEvent :=
  [.input (sampleEnv 0) (.accepted (some ("10.0.0.2", 50000))),
    .disconnected 0,
    .input (sampleEnv 20) .heartbeat]

/-- A dial completes, and the peer never answers. -/
def fallenSilent : List NodeEvent :=
  [.connect (sampleEnv 0) "10.0.0.2" 9001,
    .input (sampleEnv 1) (.dialConnected ⟨"10.0.0.2", 9001, 0⟩ (some ("10.0.0.2", 9001))),
    .input (sampleEnv 20) .heartbeat,
    .input (sampleEnv 70) .heartbeat,
    .input (sampleEnv 90) .heartbeat]

end Sample

/-- Its slot is never free again, and the list of peers is empty. -/
theorem slots_not_leaked_counterexample :
    ∃ tr node, NodeRun oneInbound (Node.create oneInbound [] sampleStart none) tr node ∧
      node.peers = [] ∧ node.connectionManager.peers["10.0.0.2:50000"]? = some .inbound ∧
      node.connectionManager.canAccept .inbound = false := by
  obtain ⟨tr, node, hrun, hcheck⟩ := Run.exists_of_exec (nodeStep oneInbound) goneAway
    (Node.create oneInbound [] sampleStart none)
    (fun r => decide (r.2.peers = [] ∧
      r.2.connectionManager.peers["10.0.0.2:50000"]? = some .inbound ∧
      r.2.connectionManager.canAccept .inbound = false))
    (by decide +kernel)
  exact ⟨tr, node, hrun, of_decide_eq_true hcheck⟩

/-- A timeout gives the slot back. -/
theorem slots_not_leaked_silent :
    ∃ tr node, NodeRun oneInbound (Node.create oneInbound [] sampleStart none) tr node ∧
      node.peers = [] ∧ Along (fun before e => SlotsHeld oneInbound (before ++ [e]) e.post) tr := by
  obtain ⟨tr, node, hrun, hcheck⟩ := Run.exists_of_exec (nodeStep oneInbound) fallenSilent
    (Node.create oneInbound [] sampleStart none)
    (fun r => decide (r.2.peers = [] ∧ Along FreesSlots r.1))
    (by decide +kernel)
  obtain ⟨hpeers, hfrees⟩ := of_decide_eq_true hcheck
  exact ⟨tr, node, hrun, hpeers,
    slots_not_leaked oneInbound [] sampleStart none tr node hrun hfrees⟩

end PersonalBlockchain
