import PersonalBlockchain.P2P.Dialling

/-!
# Personal blockchain — eviction

When all slots of a direction are taken, a newcomer has the connected peer
with the lowest score closed to make room for it. But a slot is given back by
`unregisterConnection`, which closing does not call: the second look at the
slots finds what the first one did, and the newcomer is turned away after all.

## Results

* `accepted_full`, `connectToPeer_full` — a newcomer at a full node is turned away,
  and a connection may have been closed for it;
* `evictsOpen_iff` — where connections have addresses, one is closed as soon as one
  is open;
* `accepts_close_all` — connecting often enough closes every connection;
* `eviction_not_in_vain_iff` — existing connections stay open only when there was
  none to close.
-/

namespace PersonalBlockchain

open Std Locking Routine NodeM

/-! ## The connection that goes -/

namespace Node

/-- What `connectedPeerScores` returns. -/
def connectedScores (node : Node) : List (String × Int) :=
  (node.peers.filter fun p => (node.connection p).isOpen).map fun p =>
    ((node.connection p).getEndpoint, node.peerScorer.getScore (node.connection p).getEndpoint)

/-- The endpoint with the lowest score. -/
def dropCandidate (node : Node) : String :=
  ConnectionManager.selectLowestScorePeerToDrop node.connectedScores

/-- The connection that is closed to make room. -/
def evictee (node : Node) : Option PeerId :=
  node.peers.find? fun p => (node.connection p).getEndpoint = node.dropCandidate

/-- The node after its lowest-score connection was closed. -/
def evicted (node : Node) : Node :=
  match node.evictee with
  | some p => node.updatePeer p Peer.close
  | none => node

/-- An open connection is closed to make room. The evictee is found by its
endpoint, so that a closed connection may be found instead, or none. -/
def EvictsOpen (node : Node) : Prop :=
  ∃ p ∈ node.evictee, (node.connection p).isOpen = true

end Node

variable {S : NodeSetup} {env : Env} {dial : Dial} {node node' : Node} {p : PeerId}

/-- An endpoint is never empty, so the check for an empty one only tells that
there is nobody. -/
theorem getEndpoint_ne_empty (peer : Peer) : peer.getEndpoint ≠ "" := by
  rw [Peer.getEndpoint]
  split
  · intro h
    have hlist := congrArg String.toList h
    simp [makeEndpoint] at hlist
  · decide

theorem scores_run (endpoints : List String) (node : Node) :
    connectedPeerScores.scores endpoints [] node =
      (.returned (endpoints.map fun endpoint => (endpoint, node.peerScorer.getScore endpoint)),
        node) := by
  induction endpoints with
  | nil => rfl
  | cons endpoint rest ih =>
    rw [connectedPeerScores.scores, bind_run rfl, bind_run ih]
    rfl

/-- The first connection with the lowest score is closed. -/
theorem dropLowestScore_run (node : Node) :
    dropLowestScore [] node = (.returned (), node.evicted) := by
  have hscores : connectedPeerScores [] node = (.returned node.connectedScores, node) := by
    rw [connectedPeerScores, bind_run rfl, scores_run, List.map_map]
    rfl
  rw [dropLowestScore, bind_run hscores, ite_run]
  split
  · rfl
  next hempty =>
    -- no connection has an empty endpoint
    have hnone : node.evictee = none := by
      refine List.find?_eq_none.mpr fun p _ => ?_
      rw [Node.dropCandidate, not_not.mp hempty]
      simpa using getEndpoint_ne_empty (node.connection p)
    rw [Node.evicted, hnone]
    rfl

/-! ## A newcomer at a full node -/

theorem evicted_peers (node : Node) : node.evicted.peers = node.peers := by
  rw [Node.evicted]
  split <;> rfl

theorem evicted_dials (node : Node) : node.evicted.dials = node.dials := by
  rw [Node.evicted]
  split <;> rfl

/-- No slot becomes free. -/
theorem evicted_connectionManager (node : Node) :
    node.evicted.connectionManager = node.connectionManager := by
  rw [Node.evicted]
  split <;> rfl

/-- The node after a newcomer was turned away. -/
def Node.turnedAway (node : Node) : Node :=
  { node.evicted with
    networkMetrics := { node.evicted.networkMetrics with
      rejectedPeers := node.evicted.networkMetrics.rejectedPeers + 1 } }

/-- **A newcomer that connects to a full node** is turned away. -/
theorem accepted_full (hfull : node.connectionManager.canAccept .inbound = false)
    (remote : Option (String × UInt16)) :
    accepted S remote [] node = (.returned (), node.turnedAway) := by
  have hroomy : askConnections (ConnectionManager.canAccept .inbound) [] node =
      (.returned false, node) := by rw [← hfull]; rfl
  have hfree : askConnections (ConnectionManager.canAccept .inbound) [] node.evicted =
      (.returned false, node.evicted) := by rw [← hfull, ← evicted_connectionManager]; rfl
  rw [accepted, bind_run hroomy, if_pos Bool.not_false, bind_run (dropLowestScore_run node)]
  -- the second look at the slots finds none either
  exact (bind_run hfree).trans rfl

/-- A dial that finds no slot is turned away, like a newcomer. -/
theorem startDial_full (hfull : node.connectionManager.canAccept .outbound = false) :
    startDial env dial [] node = (.returned (), node.turnedAway) := by
  have hbefore : askConnections (ConnectionManager.canAccept .outbound) [] node =
      (.returned false, node) := by rw [← hfull]; rfl
  have hafter : askConnections (ConnectionManager.canAccept .outbound) [] node.evicted =
      (.returned false, node.evicted) := by rw [← hfull, ← evicted_connectionManager]; rfl
  have hslot : freeOutboundSlot [] node = (.returned false, node.evicted) := by
    rw [freeOutboundSlot, bind_run hbefore, if_neg Bool.false_ne_true,
      bind_run (dropLowestScore_run node), hafter]
  rw [startDial, bind_run hslot, if_neg Bool.false_ne_true]
  rfl

/-- `connectToPeer` gets as far as looking for a slot. -/
structure Node.LooksForSlot (S : NodeSetup) (env : Env) (dial : Dial) (node : Node) : Prop where
  port : dial.port ≠ S.port
  unconnected : node.connectedTo dial.endpoint = false ∧ node.connectedOnPort dial.port = false
  due : node.dialDue S env dial.endpoint = true
  unquarantined : node.peerManager.isQuarantined env.steady dial.endpoint = false
  unbanned : node.peerScorer.isBanned dial.endpoint = false

/-- **A dial of a full node**: nothing happens at all, or it gets as far as
looking for a slot and is turned away. -/
theorem connectToPeer_full (hfull : node.connectionManager.canAccept .outbound = false) :
    (node.LooksForSlot S env dial →
      connectToPeer S env dial [] node = (.returned (), node.turnedAway)) ∧
    (¬ node.LooksForSlot S env dial → connectToPeer S env dial [] node = (.returned (), node)) := by
  rw [connectToPeer_checks, startDial_full hfull]
  constructor
  -- every check before the slot lets the dial through
  · intro h
    rw [if_neg h.port, if_neg (by simp [h.unconnected]), if_neg (by simp [h.due]),
      if_neg (by simp [h.unquarantined]), if_neg (by simp [h.unbanned])]
  · intro h
    split_ifs with hport hconnected hdue hquarantined hbanned
    · rfl
    · rfl
    · rfl
    · rfl
    · rfl
    · refine absurd ⟨hport, ?_, ?_, ?_, ?_⟩ h
      · simpa using hconnected
      · simpa using hdue
      · exact Bool.eq_false_of_not_eq_true hquarantined
      · exact Bool.eq_false_of_not_eq_true hbanned

/-! ## Which connections stay open -/

/-- Every existing connection is left open. -/
def StaysOpen (node node' : Node) : Prop :=
  ∀ p ∈ node.peers, (node.connection p).isOpen = true → (node'.connection p).isOpen = true

/-- The other connections stay open exactly when none was closed. -/
theorem staysOpen_turnedAway_iff : StaysOpen node node.turnedAway ↔ ¬ node.EvictsOpen := by
  have hsame : node.turnedAway.connection = node.evicted.connection := rfl
  rw [StaysOpen, hsame, Node.evicted]
  cases hevictee : node.evictee with
  | none => exact iff_of_true (fun p _ h => h) (by simp [Node.EvictsOpen, hevictee])
  | some p =>
    have hmem : p ∈ node.peers := List.mem_of_find?_eq_some hevictee
    -- only that connection is closed
    constructor
    · rintro hstays ⟨q, hq, hopen⟩
      obtain rfl : p = q := Option.some.inj (hevictee.symm.trans hq)
      have hclosed := hstays p hmem hopen
      simp [Node.updatePeer, Peer.close] at hclosed
    · intro hclosed q hq hopen
      have hne : q ≠ p := by
        rintro rfl
        exact hclosed ⟨q, hevictee, hopen⟩
      simpa [Node.updatePeer, hne] using hopen

/-! ## Every connection can be closed -/

theorem mem_selectLowestScorePeerToDrop {scores : List (String × Int)} (h : scores ≠ []) :
    ∃ entry ∈ scores, entry.1 = ConnectionManager.selectLowestScorePeerToDrop scores := by
  obtain ⟨first, rest, rfl⟩ := List.exists_cons_of_ne_nil h
  -- the fold goes from entry to entry
  suffices hfold : ∀ (rest : List (String × Int)) (lowest : String × Int),
      rest.foldl (fun lowest entry => if entry.2 < lowest.2 then entry else lowest) lowest ∈
        lowest :: rest from ⟨_, hfold rest first, rfl⟩
  intro rest
  induction rest with
  | nil => exact fun lowest => List.mem_singleton.mpr rfl
  | cons entry rest ih =>
    intro lowest
    rw [List.foldl_cons]
    split
    · exact List.mem_cons_of_mem _ (ih entry)
    · rcases List.mem_cons.mp (ih lowest) with h | h
      · exact List.mem_cons.mpr (.inl h)
      · exact List.mem_cons_of_mem _ (List.mem_cons_of_mem _ h)

theorem makeEndpoint_ne_unknown (host : String) (port : UInt16) :
    makeEndpoint host port ≠ "unknown" := by
  intro h
  have hcolon : ':' ∈ (makeEndpoint host port).toList := by simp [makeEndpoint]
  rw [h] at hcolon
  revert hcolon
  decide

/-- The address of every open connection can be read. -/
def Node.Addressed (node : Node) : Prop :=
  ∀ p ∈ node.peers, (node.connection p).isOpen = true → (node.connection p).remote.isSome = true

/-- A connection with an endpoint of its own is open. -/
theorem isOpen_of_getEndpoint {peer : Peer} (h : peer.getEndpoint ≠ "unknown") :
    peer.isOpen = true := by
  by_contra hclosed
  rw [Peer.getEndpoint, Peer.remoteEndpoint, if_neg hclosed] at h
  exact h rfl

/-- An open connection with an address has an endpoint of its own. -/
theorem getEndpoint_of_isOpen {peer : Peer} (hopen : peer.isOpen = true)
    (hremote : peer.remote.isSome = true) : peer.getEndpoint ≠ "unknown" := by
  obtain ⟨⟨address, port⟩, hsome⟩ := Option.isSome_iff_exists.mp hremote
  rw [Peer.getEndpoint, Peer.remoteEndpoint, if_pos hopen, hsome]
  exact makeEndpoint_ne_unknown _ _

/-- With addresses, there is a connection to close as soon as one is open. -/
theorem evictsOpen_iff (h : node.Addressed) :
    node.EvictsOpen ↔ ∃ p ∈ node.peers, (node.connection p).isOpen = true := by
  constructor
  · rintro ⟨p, hp, hopen⟩
    exact ⟨p, List.mem_of_find?_eq_some hp, hopen⟩
  · rintro ⟨p, hp, hopen⟩
    have hne : node.connectedScores ≠ [] := by
      have hmem : p ∈ node.peers.filter fun p => (node.connection p).isOpen :=
        List.mem_filter.mpr ⟨hp, hopen⟩
      exact List.ne_nil_of_mem (List.mem_map_of_mem hmem)
    obtain ⟨entry, hentry, hcandidate⟩ := mem_selectLowestScorePeerToDrop hne
    obtain ⟨q, hq, rfl⟩ := List.mem_map.mp hentry
    obtain ⟨hmem, hqopen⟩ := List.mem_filter.mp hq
    -- the candidate is the endpoint of an open connection, so no closed one has it
    have hknown := getEndpoint_of_isOpen hqopen (h q hmem hqopen)
    cases hevictee : node.evictee with
    | none =>
      have hno := List.find?_eq_none.mp hevictee q hmem
      rw [decide_eq_true_eq, Node.dropCandidate] at hno
      exact absurd hcandidate hno
    | some r =>
      refine ⟨r, hevictee, isOpen_of_getEndpoint ?_⟩
      have hr := List.find?_some hevictee
      rw [decide_eq_true_eq.mp hr, Node.dropCandidate, ← hcandidate]
      exact hknown

/-- A connection keeps its address, and is closed at most. -/
theorem turnedAway_connection (node : Node) (q : PeerId) :
    node.turnedAway.connection q = node.connection q ∨
      node.turnedAway.connection q = (node.connection q).close := by
  have hsame : node.turnedAway.connection = node.evicted.connection := rfl
  rw [hsame, Node.evicted]
  split
  next p _ =>
    by_cases hq : q = p
    · exact .inr (if_pos hq)
    · exact .inl (if_neg hq)
  next => exact .inl rfl

theorem turnedAway_addressed (h : node.Addressed) : node.turnedAway.Addressed := by
  intro q hq hopen
  rw [show node.turnedAway.peers = node.peers from evicted_peers node] at hq
  rcases turnedAway_connection node q with hsame | hclosed
  · rw [hsame] at hopen ⊢
    exact h q hq hopen
  · rw [hclosed] at hopen
    cases hopen

/-- The open connections among the peers. -/
def Node.openPeers (node : Node) : List PeerId :=
  node.peers.filter fun p => (node.connection p).isOpen

theorem openPeers_turnedAway (h : node.EvictsOpen) :
    node.turnedAway.openPeers.length < node.openPeers.length := by
  obtain ⟨p, hp, hopen⟩ := h
  have hmem : p ∈ node.openPeers :=
    List.mem_filter.mpr ⟨List.mem_of_find?_eq_some hp, hopen⟩
  have hclosed : (node.turnedAway.connection p).isOpen = false := by
    have hsame : node.turnedAway.connection = node.evicted.connection := rfl
    rw [hsame, Node.evicted, hp]
    simp [Node.updatePeer, Peer.close]
  -- those that are open now were open before
  have hfilter : node.turnedAway.openPeers =
      node.openPeers.filter fun p => (node.turnedAway.connection p).isOpen := by
    rw [Node.openPeers, Node.openPeers, List.filter_filter,
      show node.turnedAway.peers = node.peers from evicted_peers node]
    refine List.filter_congr fun q _ => ?_
    rcases turnedAway_connection node q with hq | hq
    · rw [hq, Bool.and_self]
    · rw [hq]
      rfl
  rw [hfilter]
  exact List.length_filter_lt_length_iff_exists.mpr ⟨p, hmem, by simp [hclosed]⟩

/-- **Connecting often enough closes every connection.** A full node whose
connections have addresses is left without an open one by as many newcomers as
there were open connections, and its slots are as full as before. The induction
is on the newcomers: each of them closes a connection while one is open. -/
theorem accepts_close_all (remotes : List (Option (String × UInt16)))
    (hfull : node.connectionManager.canAccept .inbound = false) (haddressed : node.Addressed)
    (henough : node.openPeers.length ≤ remotes.length) :
    ∃ last, forEach (accepted S) remotes [] node = (.returned (), last) ∧
      last.openPeers = [] ∧ last.peers = node.peers ∧
      last.connectionManager = node.connectionManager := by
  induction remotes generalizing node with
  | nil => exact ⟨node, rfl, List.length_eq_zero_iff.mp (Nat.le_zero.mp henough), rfl, rfl⟩
  | cons remote remotes ih =>
    have hmanager : node.turnedAway.connectionManager = node.connectionManager :=
      evicted_connectionManager node
    have hpeers : node.turnedAway.peers = node.peers := evicted_peers node
    -- each accept closes one more
    have hfewer : node.turnedAway.openPeers.length ≤ remotes.length := by
      by_cases hevicts : node.EvictsOpen
      · have hlt := openPeers_turnedAway hevicts
        rw [List.length_cons] at henough
        omega
      · -- nothing was open any more
        have hnone : ∀ p ∈ node.peers, ¬ (node.connection p).isOpen = true := by
          rw [evictsOpen_iff haddressed] at hevicts
          exact fun p hp hopen => hevicts ⟨p, hp, hopen⟩
        have hempty : node.turnedAway.openPeers = [] := by
          refine List.filter_eq_nil_iff.mpr fun p hp => ?_
          rcases turnedAway_connection node p with hsame | hclosed
          · rw [hsame]
            exact hnone p (hpeers ▸ hp)
          · rw [hclosed]
            exact Bool.false_ne_true
        rw [hempty]
        exact Nat.zero_le _
    obtain ⟨last, hrun, hopen, hlast, hsame⟩ :=
      ih (hmanager ▸ hfull) (turnedAway_addressed haddressed) hfewer
    exact ⟨last, (bind_run (accepted_full hfull remote)).trans hrun, hopen, hlast.trans hpeers,
      hsame.trans hmanager⟩

/-! ## The promise -/

/-- A newcomer is let through after the peer with the lowest score has been
dropped, or it is not and every existing connection is left open. -/
def NotInVain (letThrough : Node → Prop) (x : NodeM Unit) (node : Node) : Prop :=
  letThrough (x [] node).2 ∧ (∃ p ∈ node.peers,
      (node.connection p).getEndpoint = node.dropCandidate ∧
      ((x [] node).2.connection p).isOpen = false) ∨
    ¬ letThrough (x [] node).2 ∧ StaysOpen node (x [] node).2

/-- The incoming connection is among the peers. -/
def JoinsPeers (node node' : Node) : Prop := ∃ p, node'.peers = node.peers ++ [p]

/-- Where the newcomer is not let through, the promise is that the others stay. -/
theorem notInVain_iff {letThrough : Node → Prop} {x : NodeM Unit}
    (h : ¬ letThrough (x [] node).2) :
    NotInVain letThrough x node ↔ StaysOpen node (x [] node).2 := by
  rw [NotInVain, or_iff_right fun hthrough => h hthrough.1]
  exact and_iff_right h

theorem accepted_notInVain_iff (hfull : node.connectionManager.canAccept .inbound = false)
    (remote : Option (String × UInt16)) :
    NotInVain (JoinsPeers node) (accepted S remote) node ↔ ¬ node.EvictsOpen := by
  have hlast : (accepted S remote [] node).2 = node.turnedAway :=
    congrArg Prod.snd (accepted_full hfull remote)
  have hpeers : node.turnedAway.peers = node.peers := evicted_peers node
  rw [notInVain_iff, hlast, staysOpen_turnedAway_iff]
  rintro ⟨p, hp⟩
  rw [hlast, hpeers] at hp
  simp at hp

theorem connectToPeer_notInVain_iff
    (hfull : node.connectionManager.canAccept .outbound = false) :
    NotInVain (fun node' => node'.dials = node.dials ++ [dial]) (connectToPeer S env dial) node ↔
      (node.LooksForSlot S env dial → ¬ node.EvictsOpen) := by
  obtain ⟨hlooks, hstopped⟩ := @connectToPeer_full S env dial node hfull
  have hnew : node.dials ≠ node.dials ++ [dial] := by simp
  by_cases h : node.LooksForSlot S env dial
  · have hlast := congrArg Prod.snd (hlooks h)
    have hdials : node.turnedAway.dials = node.dials := evicted_dials node
    rw [notInVain_iff (by rw [hlast, hdials]; exact hnew), hlast, staysOpen_turnedAway_iff]
    exact ⟨fun hkeeps _ => hkeeps, fun hkeeps => hkeeps h⟩
  · have hlast := congrArg Prod.snd (hstopped h)
    rw [notInVain_iff (by rw [hlast]; exact hnew), hlast]
    exact iff_of_true (fun p _ hopen => hopen) (absurd · h)

/-- **When eviction is not in vain.** At a node whose slots of a direction are
all taken, a newcomer is let through or leaves every connection open exactly
when the eviction finds no open connection to close; a dial that an earlier
check stops does not get there. -/
theorem eviction_not_in_vain_iff (S : NodeSetup) (env : Env) (node : Node) :
    (node.connectionManager.canAccept .inbound = false → ∀ remote,
      (NotInVain (JoinsPeers node) (accepted S remote) node ↔ ¬ node.EvictsOpen)) ∧
    (node.connectionManager.canAccept .outbound = false → ∀ dial : Dial,
      (NotInVain (fun node' => node'.dials = node.dials ++ [dial]) (connectToPeer S env dial) node ↔
        (node.LooksForSlot S env dial → ¬ node.EvictsOpen))) :=
  ⟨accepted_notInVain_iff, fun hfull _ => connectToPeer_notInVain_iff hfull⟩

section Sample

/-- A node takes as many incoming connections as it has slots. -/
def fillInbound : List NodeEvent :=
  (List.range 32).map fun k =>
    .input (sampleEnv 0) (.accepted (some ("10.0.0.2", UInt16.ofNat (40000 + k))))

/-- After that no slot is free, and there is somebody to close. -/
theorem fillInbound_run : ∃ tr node, NodeRun (setupOf []) nodeOfDials tr node ∧
    node.connectionManager.canAccept .inbound = false ∧ node.EvictsOpen := by
  obtain ⟨tr, node, hrun, hcheck⟩ := Machine.Run.exists_of_exec (nodeStep (setupOf []))
    fillInbound nodeOfDials
    (fun r => !r.2.connectionManager.canAccept .inbound &&
      r.2.evictee.any fun p => (r.2.connection p).isOpen) (by decide +kernel)
  obtain ⟨hfull, hevicts⟩ := (Bool.and_eq_true _ _).mp hcheck
  refine ⟨tr, node, hrun, by simpa using hfull, ?_⟩
  simpa [Node.EvictsOpen, Option.any_eq_true] using hevicts

end Sample

/-- One more newcomer is turned away, and costs a connection all the same. -/
theorem eviction_not_in_vain_counterexample :
    ∃ tr node, NodeRun (setupOf []) nodeOfDials tr node ∧
      node.connectionManager.canAccept .inbound = false ∧
      ¬ NotInVain (JoinsPeers node) (accepted (setupOf []) (some ("10.0.0.3", 41000))) node := by
  obtain ⟨tr, node, hrun, hfull, hevicts⟩ := fillInbound_run
  exact ⟨tr, node, hrun, hfull, fun h => (accepted_notInVain_iff hfull _).mp h hevicts⟩

/-! ## Newcomers that cost nothing -/

section Sample

/-- As many newcomers again, each of which closes a connection. -/
def closeInbound : List NodeEvent :=
  fillInbound ++ (List.range 32).map fun k =>
    .input (sampleEnv 1) (.accepted (some ("10.0.0.3", UInt16.ofNat (41000 + k))))

/-- All slots are taken, and nothing is open any more. -/
theorem closeInbound_run : ∃ tr node, NodeRun (setupOf []) nodeOfDials tr node ∧
    node.peers.length = 32 ∧ node.connectionManager.canAccept .inbound = false ∧
      ∀ p ∈ node.peers, (node.connection p).isOpen = false := by
  obtain ⟨tr, node, hrun, hcheck⟩ := Machine.Run.exists_of_exec (nodeStep (setupOf []))
    closeInbound nodeOfDials
    (fun r => decide (r.2.peers.length = 32 ∧ r.2.connectionManager.canAccept .inbound = false ∧
      ∀ p ∈ r.2.peers, (r.2.connection p).isOpen = false)) (by decide +kernel)
  exact ⟨tr, node, hrun, of_decide_eq_true hcheck⟩

/-- The node dials eight peers, as many as it has slots, and reaches them. -/
def fillOutbound : List NodeEvent :=
  (List.range 8).flatMap fun k =>
    let port := UInt16.ofNat (9101 + k)
    [.connect (sampleEnv 0) "10.0.0.2" port,
      .input (sampleEnv 0) (.dialConnected ⟨"10.0.0.2", port, 0⟩ (some ("10.0.0.2", port)))]

/-- A peer on another host, on a port the node is connected to. -/
def samePort : Dial := ⟨"10.0.0.3", 9101, 0⟩

/-- After that no slot is free, and there is somebody to close. -/
theorem fillOutbound_run : ∃ tr node, NodeRun (setupOf []) nodeOfDials tr node ∧
    node.connectionManager.canAccept .outbound = false ∧ node.EvictsOpen ∧
      node.connectedOnPort samePort.port = true := by
  obtain ⟨tr, node, hrun, hcheck⟩ := Machine.Run.exists_of_exec (nodeStep (setupOf []))
    fillOutbound nodeOfDials
    (fun r => !r.2.connectionManager.canAccept .outbound &&
      (r.2.evictee.any fun p => (r.2.connection p).isOpen) &&
        r.2.connectedOnPort samePort.port) (by decide +kernel)
  simp only [Bool.and_eq_true, Bool.not_eq_true'] at hcheck
  obtain ⟨⟨hfull, hevicts⟩, hport⟩ := hcheck
  exact ⟨tr, node, hrun, hfull, by simpa [Node.EvictsOpen, Option.any_eq_true] using hevicts, hport⟩

end Sample

/-- Where every connection has been closed for nothing already, one more newcomer
closes none. And a dial that the port check stops closes none of the eight open
connections of a full node. -/
theorem eviction_not_in_vain_full :
    (∃ tr node, NodeRun (setupOf []) nodeOfDials tr node ∧ node.peers.length = 32 ∧
      NotInVain (JoinsPeers node) (accepted (setupOf []) (some ("10.0.0.4", 41000))) node) ∧
    ∃ tr node, NodeRun (setupOf []) nodeOfDials tr node ∧ node.EvictsOpen ∧
      NotInVain (fun node' => node'.dials = node.dials ++ [samePort])
        (connectToPeer (setupOf []) (sampleEnv 2) samePort) node := by
  refine ⟨?_, ?_⟩
  · obtain ⟨tr, node, hrun, hlength, hfull, hclosed⟩ := closeInbound_run
    refine ⟨tr, node, hrun, hlength,
      ((eviction_not_in_vain_iff (setupOf []) (sampleEnv 2) node).1 hfull _).mpr ?_⟩
    -- every connection has been closed already
    rintro ⟨p, hp, hopen⟩
    rw [hclosed p (List.mem_of_find?_eq_some hp)] at hopen
    cases hopen
  · obtain ⟨tr, node, hrun, hfull, hevicts, hport⟩ := fillOutbound_run
    refine ⟨tr, node, hrun, hevicts,
      ((eviction_not_in_vain_iff (setupOf []) (sampleEnv 2) node).2 hfull samePort).mpr ?_⟩
    -- the dial is stopped by its port before it looks for a slot
    intro hlooks
    rw [hlooks.unconnected.2] at hport
    cases hport

end PersonalBlockchain
