import PersonalBlockchain.P2P.Runs

/-!
# Personal blockchain — the limits on connections

A slot for an outgoing connection is looked for when a dial starts and taken
when it completes, and nothing looks again in between. The inbound limit is
checked where the slot is taken.

## Results

* `nodeStep_inboundWithin` — every event keeps the inbound limit;
* `nodeStep_outboundWithin_iff` — an event keeps the outbound limit exactly when it
  finds a slot if it takes one;
* `connection_limits_iff` — the same along every run of a new node;
* `connection_limits_counterexample` — two dials start while one slot is free.
-/

namespace PersonalBlockchain

open Std Locking Routine NodeM Machine FiniteMap

/-! ## Counting connections -/

namespace ConnectionManager

variable {cm : ConnectionManager} {key : String} {d d' : ConnectionDirection}

theorem count_eq : cm.count d = countValues (fun value => decide (value = d)) cm.peers :=
  length_filter_toList (p := fun value => decide (value = d))

theorem count_unregisterConnection_le : (cm.unregisterConnection key).count d ≤ cm.count d := by
  rw [count_eq, count_eq]
  exact countValues_erase_le

/-- A new entry takes a slot of its direction. -/
theorem count_registerConnection : (cm.registerConnection key d).count d =
    if cm.peers[key]? = some d then cm.count d else cm.count d + 1 := by
  rw [count_eq, count_eq]
  refine (countValues_insert (p := fun value => decide (value = d)) (decide_eq_true rfl)).trans
    (if_congr ?_ rfl rfl)
  cases cm.peers[key]? <;> simp

theorem count_registerConnection_of_ne (h : d' ≠ d) :
    (cm.registerConnection key d').count d ≤ cm.count d := by
  rw [count_eq, count_eq]
  exact countValues_insert_le (decide_eq_false h)

end ConnectionManager

/-! ## One change -/

variable {S : NodeSetup} {node node' : Node} {now : Instant}

/-- The inbound limit is kept. -/
def Node.InboundWithin (S : NodeSetup) (node : Node) : Prop :=
  node.connectionManager.count .inbound ≤ S.options.maxInboundPeers

/-- The outbound limit is kept. -/
def Node.OutboundWithin (S : NodeSetup) (node : Node) : Prop :=
  node.connectionManager.count .outbound ≤ S.options.maxOutboundPeers

/-- An inbound connection is registered when a slot is free. -/
theorem NodeChange.Leads.inboundWithin {c : NodeChange} (h : c.Leads now node node')
    (hI : node.InboundWithin S ∧ node.Limited S) : node'.InboundWithin S ∧ node'.Limited S := by
  refine ⟨?_, h.limited hI.2⟩
  have hwithin := hI.1
  unfold Node.InboundWithin at hwithin ⊢
  obtain ⟨remote, port, key, direction, rfl, heq⟩ | heq | ⟨key, heq⟩ := h.connectionManager
  · rw [heq]
    cases direction with
    -- another direction's count is left alone
    | outbound =>
      exact (ConnectionManager.count_registerConnection_of_ne (by decide)).trans hwithin
    -- an accepted connection has found a free slot
    | inbound =>
      have hfree := of_decide_eq_true (h.1 rfl)
      rw [hI.2.2] at hfree
      rw [ConnectionManager.count_registerConnection]
      split
      · exact hwithin
      · exact hfree
  · rwa [heq]
  · rw [heq]
    exact ConnectionManager.count_unregisterConnection_le.trans hwithin

/-- Only a dial that completes takes an outbound slot. -/
theorem NodeChange.Leads.outbound_le {c : NodeChange} (h : c.Leads now node node')
    (hc : ∀ remote port key, c ≠ .open remote port key .outbound) :
    node'.connectionManager.count .outbound ≤ node.connectionManager.count .outbound := by
  obtain ⟨remote, port, key, direction, rfl, heq⟩ | heq | ⟨key, heq⟩ := h.connectionManager
  · rw [heq]
    cases direction with
    | outbound => exact absurd rfl (hc remote port key)
    | inbound => exact ConnectionManager.count_registerConnection_of_ne (by decide)
  · rw [heq]
  · rw [heq]
    exact ConnectionManager.count_unregisterConnection_le

/-! ## One event -/

/-- The event takes no outbound slot, or one that is free or its own already. -/
def NodeEvent.findsSlot (node : Node) : NodeEvent → Prop
  | .input _ (.dialConnected dial _) =>
    node.connectionManager.peers[makeEndpoint dial.host dial.port]? = some .outbound ∨
      node.connectionManager.canAccept .outbound = true
  | _ => True

/-- An event that is not the end of a dial. -/
def NodeEvent.isDialConnected : NodeEvent → Bool
  | .input _ (.dialConnected _ _) => true
  | _ => false

theorem nodeStep_inboundWithin {event : NodeEvent} {u : Unit}
    (h : nodeStep S event node = some (u, node'))
    (hI : node.InboundWithin S ∧ node.Limited S) : node'.InboundWithin S ∧ node'.Limited S :=
  (keeps_of_changes (nodeStep_changes h) hI.2
    (I := fun node => node.InboundWithin S ∧ node.Limited S)
    (fun _ _ _ _ hleads => hleads.inboundWithin) hI).1

/-- Nothing but the end of a dial opens an outgoing connection. -/
theorem outbound_not_opened {event : NodeEvent} (hevent : event.isDialConnected = false) :
    ∀ c ∈ event.changes node, ∀ remote port key, c ≠ .open remote port key .outbound := by
  rintro c hc remote port key rfl
  obtain ⟨-, hdirection⟩ | ⟨⟨env, dial, rfl⟩, -⟩ := opened_by hc
  · cases hdirection
  · cases hevent

theorem nodeStep_outbound_le {event : NodeEvent} {u : Unit}
    (h : nodeStep S event node = some (u, node')) (hlimited : node.Limited S)
    (hevent : event.isDialConnected = false) :
    node'.connectionManager.count .outbound ≤ node.connectionManager.count .outbound :=
  (keeps_of_changes (nodeStep_changes h) hlimited
    (I := fun last =>
      last.connectionManager.count .outbound ≤ node.connectionManager.count .outbound)
    (fun c hc _ _ hleads hle => (hleads.outbound_le (outbound_not_opened hevent c hc)).trans hle)
    (Nat.le_refl _)).1

/-- A dial that completes is registered, whatever the count. -/
theorem dialConnected_connectionManager {env : Env} {dial : Dial}
    {remote : Option (String × UInt16)} :
    (dialConnected S env dial remote [] node).2.connectionManager =
      node.connectionManager.registerConnection (makeEndpoint dial.host dial.port) .outbound := rfl

/-- **What an event does to the outbound limit.** While it is kept, an event
keeps it exactly when it takes no slot, has it already or finds one free. -/
theorem nodeStep_outboundWithin_iff {event : NodeEvent} {u : Unit}
    (h : nodeStep S event node = some (u, node')) (hlimited : node.Limited S)
    (hwithin : node.OutboundWithin S) :
    node'.OutboundWithin S ↔ event.findsSlot node := by
  -- only a dial that connects takes an outbound slot
  cases hevent : event.isDialConnected with
  | false =>
    refine iff_of_true ((nodeStep_outbound_le h hlimited hevent).trans hwithin) ?_
    unfold NodeEvent.findsSlot
    split
    · cases hevent
    · trivial
  | true =>
    obtain ⟨env, dial, remote, rfl⟩ :
        ∃ env dial remote, event = .input env (.dialConnected dial remote) := by
      unfold NodeEvent.isDialConnected at hevent
      split at hevent
      · exact ⟨_, _, _, rfl⟩
      · cases hevent
    have hrun : dialConnected S env dial remote [] node = (.returned (), node') :=
      handlerReturned_eq_some.mp h
    have hlast : node'.connectionManager =
        node.connectionManager.registerConnection (makeEndpoint dial.host dial.port) .outbound :=
      (congrArg (fun r => r.2.connectionManager) hrun).symm.trans dialConnected_connectionManager
    unfold Node.OutboundWithin at hwithin ⊢
    rw [hlast, ConnectionManager.count_registerConnection, NodeEvent.findsSlot,
      ConnectionManager.canAccept, decide_eq_true_eq, hlimited.1]
    split
    next hregistered => exact iff_of_true hwithin (.inl hregistered)
    next hnew => exact ⟨.inr, fun h => h.resolve_left hnew⟩

/-! ## Runs -/

theorem create_limited {bootstrapNodes : List String} {blockchain : Blockchain}
    {storage : Option DataDir} :
    (Node.create S bootstrapNodes blockchain storage).Limited S := ⟨rfl, rfl⟩

theorem create_count {bootstrapNodes : List String} {blockchain : Blockchain}
    {storage : Option DataDir} {d : ConnectionDirection} :
    (Node.create S bootstrapNodes blockchain storage).connectionManager.count d = 0 := by
  rw [ConnectionManager.count_eq]
  exact countValues_eq_zero fun key value h => by simp [Node.create] at h

/-- **When the limits hold**: along every run of a new node, both counts stay
within their limits exactly when each dial that completes finds an outbound
slot free, or its endpoint registered as outbound already. -/
theorem connection_limits_iff (S : NodeSetup) (bootstrapNodes : List String)
    (blockchain : Blockchain) (storage : Option DataDir)
    (tr : List (Entry Node NodeEvent Unit)) (node : Node)
    (h : NodeRun S (Node.create S bootstrapNodes blockchain storage) tr node) :
    (∀ e ∈ tr, e.post.connectionManager.count .outbound ≤ S.options.maxOutboundPeers ∧
      e.post.connectionManager.count .inbound ≤ S.options.maxInboundPeers) ↔
    ∀ e ∈ tr, e.call.findsSlot e.pre := by
  have hcreate : (Node.create S bootstrapNodes blockchain storage).InboundWithin S ∧
      (Node.create S bootstrapNodes blockchain storage).Limited S :=
    ⟨create_count.trans_le (Nat.zero_le _), create_limited⟩
  -- the inbound limit holds throughout; the outbound one as long as each registration finds a
  -- slot
  refine Run.forall_post_iff
    (I := fun node => node.InboundWithin S ∧ node.Limited S) (P := fun node =>
      node.connectionManager.count .outbound ≤ S.options.maxOutboundPeers ∧
        node.connectionManager.count .inbound ≤ S.options.maxInboundPeers)
    (C := fun node event => event.findsSlot node) hcreate
    (fun _ _ _ _ hI hs => nodeStep_inboundWithin hs hI)
    ⟨create_count.trans_le (Nat.zero_le _), hcreate.1⟩ ?_ h
  intro s event u s' hI hP hs
  rw [← nodeStep_outboundWithin_iff hs hI.2 hP.1]
  exact and_iff_left (nodeStep_inboundWithin hs hI).1

/-! ## Two dials at once -/

section Sample

/-- A node with one outbound slot. -/
def oneSlot : NodeSetup := { setupOf [] with options := { maxOutboundPeers := 1 } }

/-- Two dials start, and both complete. -/
def twoDials : List NodeEvent :=
  [.connect (sampleEnv 0) "10.0.0.2" 9001,
    .connect (sampleEnv 0) "10.0.0.3" 9002,
    .input (sampleEnv 1) (.dialConnected ⟨"10.0.0.2", 9001, 0⟩ (some ("10.0.0.2", 9001))),
    .input (sampleEnv 1) (.dialConnected ⟨"10.0.0.3", 9002, 0⟩ (some ("10.0.0.3", 9002)))]

end Sample

/-- Both dials were started by the node, and together they exceed its limit. -/
theorem connection_limits_counterexample :
    ∃ tr node, NodeRun oneSlot (Node.create oneSlot [] sampleStart none) tr node ∧
      (tr.map fun e => e.post.dials.length) = [1, 2, 1, 0] ∧
      oneSlot.options.maxOutboundPeers < node.connectionManager.count .outbound := by
  have hrun := Run.exists_of_exec (nodeStep oneSlot) twoDials
    (Node.create oneSlot [] sampleStart none)
    (fun r => decide ((r.1.map fun e => e.post.dials.length) = [1, 2, 1, 0] ∧
      oneSlot.options.maxOutboundPeers < r.2.connectionManager.count .outbound))
    (by decide +kernel)
  obtain ⟨tr, node, hrun, hcheck⟩ := hrun
  exact ⟨tr, node, hrun, of_decide_eq_true hcheck⟩

/-- One dial, with the slot free. -/
theorem connection_limits_one_dial :
    ∃ tr node, NodeRun oneSlot (Node.create oneSlot [] sampleStart none) tr node ∧
      ((∀ e ∈ tr, e.post.connectionManager.count .outbound ≤ oneSlot.options.maxOutboundPeers ∧
        e.post.connectionManager.count .inbound ≤ oneSlot.options.maxInboundPeers) ↔
      ∀ e ∈ tr, e.call.findsSlot e.pre) := by
  obtain ⟨tr, node, hrun, -⟩ := Run.exists_of_exec (nodeStep oneSlot)
    [.connect (sampleEnv 0) "10.0.0.2" 9001,
      .input (sampleEnv 1) (.dialConnected ⟨"10.0.0.2", 9001, 0⟩ (some ("10.0.0.2", 9001)))]
    (Node.create oneSlot [] sampleStart none) (fun _ => true) (by decide +kernel)
  exact ⟨tr, node, hrun, connection_limits_iff oneSlot [] sampleStart none tr node hrun⟩

end PersonalBlockchain
