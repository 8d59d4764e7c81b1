import PersonalBlockchain.P2P.Runs

/-!
# Personal blockchain — the connections of a node

What a change makes of one connection and of the list `peers_`. Connections
are listed while they are open, each of them once (`Node.Listed`).

* `NodeChange.Leads.connection` — what a change makes of a connection;
* `NodeChange.Leads.closed` — what closes one;
* `nodeStep_listed` — every event keeps the list.

The lemmas that end in `_of_changes` carry these over to whole routines, for any
set of kinds their changes are of.
-/

namespace PersonalBlockchain

open Locking Routine NodeM Machine

variable {S : NodeSetup} {node node' : Node} {now : Instant} {c : NodeChange} {p q : PeerId}

/-! ## One connection -/

theorem updatePeer_connection {f : Peer → Peer} : (node.updatePeer p f).connection q =
    if q = p then f (node.connection q) else node.connection q := rfl

theorem pinged_connection : (node.pinged now p).connection q =
    if q = p then (node.connection q).send { type := .ping } else node.connection q := rfl

theorem opened_connection {remote : Option (String × UInt16)} {port : UInt16} {key : String}
    {direction : ConnectionDirection} :
    (node.opened remote port key direction).connection q =
      if q = node.nextPeer then { remote := remote, knownListenPort := port }
      else node.connection q := rfl

/-- Each of some connections is changed once. -/
theorem foldl_connection {g : Node → PeerId → Node} {f : PeerId → Peer → Peer}
    (hg : ∀ node p q, (g node p).connection q =
      if q = p then f p (node.connection q) else node.connection q)
    {ps : List PeerId} (hnodup : ps.Nodup) :
    (ps.foldl g node).connection q =
      if q ∈ ps then f q (node.connection q) else node.connection q := by
  induction ps generalizing node with
  | nil => rfl
  | cons p ps ih =>
    obtain ⟨hp, hnodup⟩ := List.nodup_cons.mp hnodup
    rw [List.foldl_cons, ih hnodup, hg]
    by_cases hq : q = p
    · subst hq
      rw [if_neg hp, if_pos rfl, if_pos List.mem_cons_self]
    · rw [if_neg hq]
      exact if_congr (by simp [hq]) rfl rfl

/-- A broadcast puts one message into the queue of every open connection in the
list but one. The induction behind it needs that the list has nothing twice. -/
theorem broadcasted_connection {msg : Message} {exclude : Option PeerId}
    (hnodup : node.peers.Nodup) :
    (node.broadcasted msg exclude).connection q =
      if q ∈ node.peers ∧ exclude ≠ some q ∧ (node.connection q).isOpen = true then
        (node.connection q).send msg
      else node.connection q := by
  rw [Node.broadcasted, foldl_connection (f := fun p peer =>
    if exclude ≠ some p ∧ peer.isOpen = true then peer.send msg else peer) ?_ hnodup]
  · split_ifs <;> simp_all
  -- one step of the loop writes the connection it is at, and no other
  · intro node p q
    by_cases hq : q = p
    · subst hq
      rw [if_pos rfl]
      split
      · exact updatePeer_connection.trans (if_pos rfl)
      · rfl
    · rw [if_neg hq]
      split
      · exact updatePeer_connection.trans (if_neg hq)
      · rfl

/-- What a change may make of a queue: messages are gone, or there is one more. -/
def NodeChange.Queues (c : NodeChange) (before after : List Message) : Prop :=
  after.Sublist before ∨
    ∃ msg, after = before ++ [msg] ∧ (msg.isGossip = false ∨ c = .broadcast msg)

/-- A change that may close a connection with this endpoint. -/
def NodeChange.Closes (q : PeerId) (endpoint : String) (c : NodeChange) : Prop :=
  (∃ direction, c = .close direction) ∨ c = .disconnect q ∨ c = .shut endpoint

/-- What a change makes of a connection. -/
theorem NodeChange.Leads.connection (h : c.Leads now node node') (hnodup : node.peers.Nodup)
    (q : PeerId) :
    (∃ queue writing, c.Queues (node.connection q).writeQueue queue ∧ node'.connection q =
      { node.connection q with writeQueue := queue, writing := writing }) ∨
    (c.Closes q (node.connection q).getEndpoint ∧
      node'.connection q = (node.connection q).close) ∨
    (∃ times, c = .count q ∧
      node'.connection q = { node.connection q with messageTimes := times }) ∨
    (∃ port, c = .listenPort q port ∧
      node'.connection q = { node.connection q with knownListenPort := port }) ∨
    ∃ remote port key direction, c = .open remote port key direction ∧ q = node.nextPeer ∧
      node'.connection q = { remote := remote, knownListenPort := port } := by
  -- the three things a change can do: nothing, an update of one connection, a message
  have hsame : node'.connection q = node.connection q →
      ∃ queue writing, c.Queues (node.connection q).writeQueue queue ∧ node'.connection q =
        { node.connection q with writeQueue := queue, writing := writing } :=
    fun heq => ⟨_, _, .inl (List.Sublist.refl _), heq⟩
  have hupdate : ∀ {p : PeerId} {f : Peer → Peer}, node' = node.updatePeer p f →
      node'.connection q = f (node.connection q) ∧ q = p ∨
        node'.connection q = node.connection q := by
    rintro p f rfl
    by_cases hq : q = p
    · exact .inl ⟨updatePeer_connection.trans (if_pos hq), hq⟩
    · exact .inr (updatePeer_connection.trans (if_neg hq))
  have hsend : ∀ {peer : Peer} {msg : Message}, msg.isGossip = false ∨ c = .broadcast msg →
      ∃ queue writing, c.Queues peer.writeQueue queue ∧
        peer.send msg = { peer with writeQueue := queue, writing := writing } := by
    intro peer msg hmsg
    rw [Peer.send]
    split
    · exact ⟨_, _, .inl (List.Sublist.refl _), rfl⟩
    · exact ⟨_, _, .inr ⟨msg, rfl, hmsg⟩, rfl⟩
  cases c with
  | quiet => exact .inl (hsame (congrFun (Quiet.connection h) q))
  -- parts of the node that have no connection in them
  | ledger | remember | evict =>
    obtain ⟨_, rfl⟩ := h
    exact .inl (hsame rfl)
  | enroll | see | reward key | penalize key =>
    obtain ⟨_, _, rfl⟩ := h
    exact .inl (hsame rfl)
  | pong key | clean =>
    obtain rfl := h
    exact .inl (hsame rfl)
  | count p =>
    obtain ⟨times, h⟩ := h
    rcases hupdate h with ⟨heq, rfl⟩ | heq
    · exact .inr (.inr (.inl ⟨times, rfl, heq⟩))
    · exact .inl (hsame heq)
  | listenPort p port =>
    rcases hupdate h with ⟨heq, rfl⟩ | heq
    · exact .inr (.inr (.inr (.inl ⟨port, rfl, heq⟩)))
    · exact .inl (hsame heq)
  | send =>
    obtain ⟨p, msg, hmsg, h⟩ := h
    rcases hupdate h with ⟨heq, -⟩ | heq
    · exact .inl (heq ▸ hsend (.inl hmsg))
    · exact .inl (hsame heq)
  | broadcast msg =>
    obtain ⟨exclude, rfl⟩ := h
    rw [broadcasted_connection hnodup]
    split
    · exact .inl (hsend (.inr rfl))
    · exact .inl ⟨_, _, .inl (List.Sublist.refl _), rfl⟩
  -- the clock of the ping is in the scorer
  | ping p =>
    obtain rfl := h
    rw [pinged_connection]
    split
    · exact .inl (hsend (.inl rfl))
    · exact .inl ⟨_, _, .inl (List.Sublist.refl _), rfl⟩
  | close direction =>
    obtain ⟨_, p, h⟩ := h
    rcases hupdate h with ⟨heq, -⟩ | heq
    · exact .inr (.inl ⟨.inl ⟨direction, rfl⟩, heq⟩)
    · exact .inl (hsame heq)
  | disconnect p =>
    rcases hupdate h with ⟨heq, rfl⟩ | heq
    · exact .inr (.inl ⟨.inr (.inl rfl), heq⟩)
    · exact .inl (hsame heq)
  | flush p =>
    rcases h with h | h
    · rcases hupdate h with ⟨heq, -⟩ | heq
      · exact .inl ⟨_, _, .inl (List.tail_sublist _), heq⟩
      · exact .inl (hsame heq)
    · rcases hupdate h with ⟨heq, -⟩ | heq
      · exact .inl ⟨_, _, .inl (List.nil_sublist _), heq⟩
      · exact .inl (hsame heq)
  -- a ban closes every connection that `closed` says
  | shut key =>
    obtain ⟨closed, hkey, hquiet⟩ := h
    have hq : node'.connection q = if closed q then _ else _ := congrFun hquiet.connection q
    by_cases hclosed : closed q = true
    · exact .inr (.inl ⟨.inr (.inr (hkey q hclosed ▸ rfl)), hq.trans (if_pos hclosed)⟩)
    · exact .inl (hsame (hq.trans (if_neg hclosed)))
  | «open» remote port key direction =>
    have hq : node'.connection q = if q = node.nextPeer then _ else _ :=
      congrFun h.2.connection q
    by_cases hnew : q = node.nextPeer
    · exact .inr (.inr (.inr (.inr ⟨_, _, _, _, rfl, hnew, hq.trans (if_pos hnew)⟩)))
    · exact .inl (hsame (hq.trans (if_neg hnew)))

/-- A connection that is open was open before with the same endpoint, unless it
is new or its listen port has become known. -/
theorem NodeChange.Leads.endpoint (h : c.Leads now node node') (hnodup : node.peers.Nodup)
    (hopen : (node'.connection p).isOpen = true) :
    (node.connection p).isOpen = true ∧
      ((node'.connection p).getEndpoint = (node.connection p).getEndpoint ∨
        ∃ port, c = .listenPort p port) ∨
    ∃ remote port key direction, c = .open remote port key direction ∧ p = node.nextPeer := by
  rcases h.connection hnodup p with ⟨_, _, -, heq⟩ | ⟨-, heq⟩ | ⟨_, -, heq⟩ | ⟨port, hc, heq⟩ |
    ⟨_, _, _, _, hc, hp, -⟩
  · exact .inl ⟨by simpa [heq] using hopen, .inl (by rw [heq]; rfl)⟩
  · rw [heq] at hopen
    cases hopen
  · exact .inl ⟨by simpa [heq] using hopen, .inl (by rw [heq]; rfl)⟩
  · exact .inl ⟨by simpa [heq] using hopen, .inr ⟨port, hc⟩⟩
  · exact .inr ⟨_, _, _, _, hc, hp⟩

/-- What closes a connection. -/
theorem NodeChange.Leads.closed (h : c.Leads now node node') (hnodup : node.peers.Nodup)
    (hopen : (node.connection p).isOpen = true) (hclosed : (node'.connection p).isOpen = false) :
    c.Closes p (node.connection p).getEndpoint := by
  rcases h.connection hnodup p with ⟨_, _, -, heq⟩ | ⟨hc, -⟩ | ⟨_, -, heq⟩ | ⟨_, -, heq⟩ |
    ⟨_, _, _, _, -, -, heq⟩
  · rw [heq] at hclosed
    exact absurd (hopen.symm.trans hclosed) (by decide)
  · exact hc
  · rw [heq] at hclosed
    exact absurd (hopen.symm.trans hclosed) (by decide)
  · rw [heq] at hclosed
    exact absurd (hopen.symm.trans hclosed) (by decide)
  · rw [heq] at hclosed
    cases hclosed

/-! ## The list -/

/-- What a change makes of the list. -/
theorem NodeChange.Leads.peers (h : c.Leads now node node') :
    (node'.peers = node.peers ∧ node'.nextPeer = node.nextPeer) ∨
    (c = .clean ∧ node' = node.cleaned) ∨
    ∃ remote port key direction, c = .open remote port key direction ∧
      node'.peers = node.peers ++ [node.nextPeer] ∧ node'.nextPeer = node.nextPeer + 1 := by
  cases c with
  -- the list changes only where a connection comes in or is swept out
  | quiet => exact .inl ⟨Quiet.peers h, Quiet.nextPeer h⟩
  | ledger | remember | evict | count p =>
    obtain ⟨_, rfl⟩ := h
    exact .inl ⟨rfl, rfl⟩
  | enroll | see | reward key | penalize key | close direction =>
    obtain ⟨_, _, rfl⟩ := h
    exact .inl ⟨rfl, rfl⟩
  | ping p | pong key | listenPort p port | disconnect p =>
    obtain rfl := h
    exact .inl ⟨rfl, rfl⟩
  | send =>
    obtain ⟨_, _, _, rfl⟩ := h
    exact .inl ⟨rfl, rfl⟩
  | broadcast msg =>
    obtain ⟨exclude, rfl⟩ := h
    obtain ⟨connection, heq, -⟩ := broadcasted_eq msg exclude node
    rw [heq]
    exact .inl ⟨rfl, rfl⟩
  | flush p =>
    obtain rfl | rfl := h
    · exact .inl ⟨rfl, rfl⟩
    · exact .inl ⟨rfl, rfl⟩
  | shut key =>
    obtain ⟨closed, _, hquiet⟩ := h
    exact .inl ⟨hquiet.peers, hquiet.nextPeer⟩
  | clean => exact .inr (.inl ⟨rfl, h⟩)
  | «open» remote port key direction =>
    exact .inr (.inr ⟨_, _, _, _, rfl, h.2.peers, h.2.nextPeer⟩)

/-- The list `peers_`: it has each connection once, it has only such as have
been given an identifier, and it has all that are open. -/
structure Node.Listed (node : Node) : Prop where
  nodup : node.peers.Nodup
  below : ∀ p ∈ node.peers, p < node.nextPeer
  listed : ∀ p, (node.connection p).isOpen = true → p ∈ node.peers

/-- A change keeps the list: connections that are opened enter it, and only
closed ones leave it. -/
theorem NodeChange.Leads.listed (h : c.Leads now node node') (hlisted : node.Listed) :
    node'.Listed := by
  -- what is open was listed, or is new
  have hopened : ∀ p, (node'.connection p).isOpen = true → p ∈ node.peers ∨
      ∃ remote port key direction, c = .open remote port key direction ∧ p = node.nextPeer :=
    fun p hopen => (h.endpoint hlisted.nodup hopen).imp
      (fun hbefore => hlisted.listed p hbefore.1) id
  rcases h.peers with ⟨hpeers, hnext⟩ | ⟨rfl, rfl⟩ |
    ⟨remote, port, key, direction, rfl, hpeers, hnext⟩
  · refine ⟨hpeers ▸ hlisted.nodup, fun p hp => hnext ▸ hlisted.below p (hpeers ▸ hp), ?_⟩
    intro p hopen
    rcases hopened p hopen with hp | ⟨_, _, _, _, rfl, -⟩
    · exact hpeers ▸ hp
    · have hlength := congrArg List.length (h.2.peers.symm.trans hpeers)
      simp [Node.opened] at hlength
  · refine ⟨hlisted.nodup.filter _, fun p hp => hlisted.below p (List.mem_filter.mp hp).1, ?_⟩
    exact fun p hopen => List.mem_filter.mpr ⟨hlisted.listed p hopen, hopen⟩
  · -- the new connection has a number that none had
    have hnew : node.nextPeer ∉ node.peers := fun hp => Nat.lt_irrefl _ (hlisted.below _ hp)
    refine ⟨?_, fun p hp => ?_, fun p hopen => ?_⟩
    · rw [hpeers]
      exact List.nodup_append.mpr ⟨hlisted.nodup, List.nodup_singleton _, by
        rintro p hp q hq rfl
        exact hnew (List.mem_singleton.mp hq ▸ hp)⟩
    · rw [hpeers] at hp
      rw [hnext]
      rcases List.mem_append.mp hp with hp | hp
      · exact Nat.lt_succ_of_lt (hlisted.below p hp)
      · exact List.mem_singleton.mp hp ▸ Nat.lt_succ_self _
    · rw [hpeers]
      rcases hopened p hopen with hp | ⟨_, _, _, _, -, rfl⟩
      · exact List.mem_append_left _ hp
      · exact List.mem_append_right _ (List.mem_singleton_self _)

/-- Identifiers of connections are not used again. -/
theorem NodeChange.Leads.nextPeer_le (h : c.Leads now node node') :
    node.nextPeer ≤ node'.nextPeer := by
  rcases h.peers with ⟨-, hnext⟩ | ⟨-, rfl⟩ | ⟨_, _, _, _, -, -, hnext⟩
  · exact hnext.ge
  · exact Nat.le_refl _
  · exact hnext ▸ Nat.le_succ _

section Steps

variable {K : Set NodeChange}

theorem listed_of_changes (h : Relation.ReflTransGen (OneOf S now K) node node')
    (hlimited : node.Limited S) (hlisted : node.Listed) : node'.Listed :=
  (keeps_of_changes h hlimited (fun _ _ _ _ hleads => hleads.listed) hlisted).1

/-- The changes that open no connection. -/
def OpensNothing (K : Set NodeChange) : Prop :=
  ∀ c ∈ K, ∀ remote port key direction, c ≠ .open remote port key direction

/-- Where no connection is new and no listen port becomes known, what is open was
open with the same endpoint. -/
theorem endpoint_of_changes (h : Relation.ReflTransGen (OneOf S now K) node node')
    (hlimited : node.Limited S) (hlisted : node.Listed) (hK : OpensNothing K)
    (hlisten : ∀ c ∈ K, ∀ port, c ≠ .listenPort p port)
    (hopen : (node'.connection p).isOpen = true) :
    (node.connection p).isOpen = true ∧
      (node'.connection p).getEndpoint = (node.connection p).getEndpoint := by
  refine (keeps_of_changes h hlimited (I := fun last => last.Listed ∧
    ((last.connection p).isOpen = true → (node.connection p).isOpen = true ∧
      (last.connection p).getEndpoint = (node.connection p).getEndpoint))
    (fun c hc s s' hleads hI => ⟨hleads.listed hI.1, fun hopen => ?_⟩)
    ⟨hlisted, fun hopen => ⟨hopen, rfl⟩⟩).1.2 hopen
  rcases hleads.endpoint hI.1.nodup hopen with ⟨hbefore, hsame | ⟨port, hport⟩⟩ |
    ⟨_, _, _, _, hnew, -⟩
  · exact ⟨(hI.2 hbefore).1, hsame.trans (hI.2 hbefore).2⟩
  · exact absurd hport (hlisten c hc port)
  · exact absurd hnew (hK c hc _ _ _ _)

/-- One of the changes has closed what is closed. -/
theorem closes_of_changes (h : Relation.ReflTransGen (OneOf S now K) node node')
    (hlimited : node.Limited S) (hlisted : node.Listed) (hK : OpensNothing K)
    (hlisten : ∀ c ∈ K, ∀ port, c ≠ .listenPort p port)
    (hopen : (node.connection p).isOpen = true) (hclosed : (node'.connection p).isOpen = false) :
    ∃ c ∈ K, c.Closes p (node.connection p).getEndpoint := by
  -- step by step: still open under its own endpoint, or closed by one of the changes
  have hkept := (keeps_of_changes h hlimited (I := fun last => last.Listed ∧
    (((last.connection p).isOpen = true ∧
      (last.connection p).getEndpoint = (node.connection p).getEndpoint) ∨
      ∃ c ∈ K, c.Closes p (node.connection p).getEndpoint))
    (fun c hc s s' hleads hI => ⟨hleads.listed hI.1, ?_⟩) ⟨hlisted, .inl ⟨hopen, rfl⟩⟩).1.2
  · exact hkept.resolve_left fun hstill => absurd (hstill.1.symm.trans hclosed) (by decide)
  rcases hI.2 with ⟨hopen', hsame⟩ | hcloses
  · cases hlast : (s'.connection p).isOpen with
    | true =>
      refine .inl ⟨rfl, ?_⟩
      rcases hleads.endpoint hI.1.nodup hlast with ⟨-, hsame' | ⟨port, hport⟩⟩ |
        ⟨_, _, _, _, hnew, -⟩
      · exact hsame'.trans hsame
      · exact absurd hport (hlisten c hc port)
      · exact absurd hnew (hK c hc _ _ _ _)
    | false => exact .inr ⟨c, hc, hsame ▸ hleads.closed hI.1.nodup hopen' hlast⟩
  · exact .inr hcloses

/-- What is closed stays closed. -/
theorem closed_of_changes (h : Relation.ReflTransGen (OneOf S now K) node node')
    (hlimited : node.Limited S) (hlisted : node.Listed) (hp : p < node.nextPeer)
    (hclosed : (node.connection p).isOpen = false) : (node'.connection p).isOpen = false := by
  refine (keeps_of_changes h hlimited (I := fun last => last.Listed ∧ p < last.nextPeer ∧
    (last.connection p).isOpen = false)
    (fun c _ s s' hleads hI => ⟨hleads.listed hI.1, hI.2.1.trans_le hleads.nextPeer_le, ?_⟩)
    ⟨hlisted, hp, hclosed⟩).1.2.2
  by_contra hopen
  rcases hleads.endpoint hI.1.nodup (Bool.eq_true_of_not_eq_false hopen) with
    ⟨hbefore, -⟩ | ⟨_, _, _, _, -, hnew⟩
  · exact absurd (hI.2.2.symm.trans hbefore) (by decide)
  · exact absurd hI.2.1 (hnew ▸ Nat.lt_irrefl _)

/-- Where nothing is closed, a connection stays open. -/
theorem isOpen_of_changes (h : Relation.ReflTransGen (OneOf S now K) node node')
    (hlimited : node.Limited S) (hlisted : node.Listed)
    (hK : ∀ c ∈ K, ∀ q endpoint, ¬ c.Closes q endpoint)
    (hopen : (node.connection p).isOpen = true) : (node'.connection p).isOpen = true := by
  refine (keeps_of_changes h hlimited (I := fun last => last.Listed ∧
    (last.connection p).isOpen = true) (fun c hc s s' hleads hI => ⟨hleads.listed hI.1, ?_⟩)
    ⟨hlisted, hopen⟩).1.2
  by_contra hclosed
  exact hK c hc _ _ (hleads.closed hI.1.nodup hI.2 (Bool.eq_false_of_not_eq_true hclosed))

/-- Where nothing but penalties and closings happens, the queues stay. -/
theorem writeQueue_of_changes (h : Relation.ReflTransGen (OneOf S now K) node node')
    (hlimited : node.Limited S)
    (hK : ∀ c ∈ K, c = .quiet ∨ (∃ key, c = .penalize key) ∨ ∃ key, c = .shut key) :
    (node'.connection p).writeQueue = (node.connection p).writeQueue := by
  refine (keeps_of_changes h hlimited (I := fun last =>
    (last.connection p).writeQueue = (node.connection p).writeQueue)
    (fun c hc s s' hleads hI => ?_) rfl).1
  rw [← hI]
  obtain rfl | ⟨key, rfl⟩ | ⟨key, rfl⟩ := hK c hc
  · rw [Quiet.connection hleads]
  · obtain ⟨_, _, rfl⟩ := hleads
    rfl
  -- closing a connection leaves its queue as it stands
  · obtain ⟨closed, -, hquiet⟩ := hleads
    rw [hquiet.connection]
    show (if closed p then (s.connection p).close else s.connection p).writeQueue = _
    split
    · rfl
    · rfl

/-- The rate limiter of a connection counts its own messages. -/
theorem messageTimes_of_changes (h : Relation.ReflTransGen (OneOf S now K) node node')
    (hlimited : node.Limited S) (hlisted : node.Listed) (hp : p < node.nextPeer)
    (hK : .count p ∉ K) :
    (node'.connection p).messageTimes = (node.connection p).messageTimes := by
  refine (keeps_of_changes h hlimited (I := fun last => last.Listed ∧ p < last.nextPeer ∧
    (last.connection p).messageTimes = (node.connection p).messageTimes)
    (fun c hc s s' hleads hI => ⟨hleads.listed hI.1, hI.2.1.trans_le hleads.nextPeer_le, ?_⟩)
    ⟨hlisted, hp, rfl⟩).1.2.2
  rw [← hI.2.2]
  -- only counting a message of this peer writes its times; a new connection has a new number
  rcases hleads.connection hI.1.nodup p with ⟨_, _, -, heq⟩ | ⟨-, heq⟩ | ⟨_, rfl, -⟩ |
    ⟨_, -, heq⟩ | ⟨_, _, _, _, -, hnew, -⟩
  · rw [heq]
  · rw [heq]
    rfl
  · exact absurd hc hK
  · rw [heq]
  · exact absurd hI.2.1 (hnew ▸ Nat.lt_irrefl _)

end Steps

theorem nodeStep_nextPeer_le {event : NodeEvent} {u : Unit}
    (h : nodeStep S event node = some (u, node')) (hlimited : node.Limited S) :
    node.nextPeer ≤ node'.nextPeer :=
  (keeps_of_changes (nodeStep_changes h) hlimited (I := fun last => node.nextPeer ≤ last.nextPeer)
    (fun _ _ _ _ hleads hle => hle.trans hleads.nextPeer_le) (Nat.le_refl _)).1

theorem nodeStep_listed {event : NodeEvent} {u : Unit}
    (h : nodeStep S event node = some (u, node')) (hlimited : node.Limited S)
    (hlisted : node.Listed) : node'.Listed :=
  listed_of_changes (nodeStep_changes h) hlimited hlisted

theorem create_listed {bootstrapNodes : List String} {blockchain : Blockchain}
    {storage : Option DataDir} : (Node.create S bootstrapNodes blockchain storage).Listed :=
  ⟨List.nodup_nil, nofun, nofun⟩

end PersonalBlockchain
