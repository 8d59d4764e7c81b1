import PersonalBlockchain.P2P.Connections
import PersonalBlockchain.P2P.Forwarding
import PersonalBlockchain.P2P.Suppression

/-!
# Personal blockchain — how often an item is broadcast

While none of the identifiers it has handled had to be forgotten, a node calls
`broadcast` once for each at most, and each call puts one message into each
queue. Nodes take their steps in any order, and whatever messages they handle
may come in any order, late or more than once.

`PassedOn` is the invariant of one node. What holds of one node holds of each node
of a network, since the entries of a network that concern it are a run of it.

## Results

* `NodeChange.Leads.queued_le` — a queue grows by an item only when it is passed on;
* `PassedOn.of_run` — the invariant along every run of one node;
* `passed_on_once` — the same for networks of any shape.
-/

namespace PersonalBlockchain

open Std Locking Routine NodeM Machine FiniteMap

variable {S : NodeSetup} {node node' : Node} {now : Instant} {c : NodeChange} {p : PeerId}
  {kind : GossipKind} {C : Crypto} {id : String}

/-! ## Queues -/

/-- What a change passes on. -/
theorem NodeChange.Leads.passed (h : c.Leads now node node') :
    ∃ more, node'.passed C kind = node.passed C kind ++ more ∧
      ∀ msg, c = .broadcast msg → more = (msg.item C kind).toList := by
  by_cases hbroadcast : ∃ msg, c = .broadcast msg
  · obtain ⟨msg, rfl⟩ := hbroadcast
    obtain ⟨exclude, rfl⟩ := h
    exact ⟨_, broadcasted_passed, fun _ heq => NodeChange.broadcast.inj heq ▸ rfl⟩
  · refine ⟨[], ?_, fun msg heq => absurd ⟨msg, heq⟩ hbroadcast⟩
    rw [Node.passed, h.frame.broadcasts fun msg heq => hbroadcast ⟨msg, heq⟩, List.append_nil,
      Node.passed]

/-- What is more in a queue was passed on. -/
theorem NodeChange.Leads.queued_le (h : c.Leads now node node') (hnodup : node.peers.Nodup) :
    node'.queued C kind p id - node.queued C kind p id + (node.passed C kind).count id ≤
      (node'.passed C kind).count id := by
  obtain ⟨more, hpassed, hmore⟩ : ∃ more, node'.passed C kind = node.passed C kind ++ more ∧
      ∀ msg, c = .broadcast msg → more = (msg.item C kind).toList := h.passed
  -- a queue that does not grow
  have hless : node'.queued C kind p id ≤ node.queued C kind p id →
      node'.queued C kind p id - node.queued C kind p id + (node.passed C kind).count id ≤
        (node'.passed C kind).count id := by
    intro hle
    rw [hpassed, List.count_append]
    omega
  unfold Node.queued at hless ⊢
  rcases h.connection hnodup p with ⟨queue, _, hqueues, heq⟩ | ⟨-, heq⟩ | ⟨_, -, heq⟩ |
    ⟨_, -, heq⟩ |
    ⟨_, _, _, _, -, -, heq⟩
  · rcases hqueues with hsublist | ⟨msg, rfl, hmsg⟩
    · rw [heq] at hless ⊢
      exact hless hsublist.countP_le
    · rw [heq, hpassed, List.countP_append, List.count_append]
      -- a new message carries no item, or was broadcast
      rcases hmsg with hother | hbroadcast
      · rw [List.countP_singleton, item_of_not_gossip hother, decide_eq_false nofun]
        simp only [Bool.false_eq_true, if_false]
        omega
      · rw [List.countP_singleton, hmore msg hbroadcast]
        cases msg.item C kind with
        | none => simp
        | some other =>
          by_cases hother : other = id
          · simp only [hother, decide_true, if_true, Option.toList_some, List.count_singleton_self]
            omega
          · simp [hother]
  · rw [heq] at hless ⊢
    exact hless (Nat.le_refl _)
  · rw [heq] at hless ⊢
    exact hless (Nat.le_refl _)
  · rw [heq] at hless ⊢
    exact hless (Nat.le_refl _)
  · rw [heq] at hless ⊢
    exact hless (Nat.zero_le _)

theorem nodeStep_queued_le {event : NodeEvent} {u : Unit}
    (h : nodeStep S event node = some (u, node')) (hlimited : node.Limited S)
    (hlisted : node.Listed) :
    node'.queued C kind p id - node.queued C kind p id + (node.passed C kind).count id ≤
      (node'.passed C kind).count id := by
  refine (keeps_of_changes (nodeStep_changes h) hlimited (I := fun last => last.Listed ∧
    last.queued C kind p id - node.queued C kind p id + (node.passed C kind).count id ≤
      (last.passed C kind).count id)
    (fun c _ s s' hleads hI => ⟨hleads.listed hI.1, ?_⟩) ⟨hlisted, by simp⟩).1.2
  have hbefore := hI.2
  have hstep : s'.queued C kind p id - s.queued C kind p id + (s.passed C kind).count id ≤
      (s'.passed C kind).count id := hleads.queued_le hI.1.nodup
  omega

/-! ## Runs -/

/-- How many messages with this item were put into the queue of a connection. -/
def queuedDuring (C : Crypto) (kind : GossipKind) (p : PeerId) (id : String)
    (tr : List (Entry Node NodeEvent Unit)) : Nat :=
  (tr.map fun e => e.post.queued C kind p id - e.pre.queued C kind p id).sum

/-- What was handled is on record, and nothing of it was passed on twice. -/
structure OnRecord (S : NodeSetup) (kind : GossipKind) (tr : List (Entry Node NodeEvent Unit))
    (node : Node) : Prop where
  seen : ∀ id, (node.seen kind).contains id = true → id ∈ handledItems S kind tr
  nodup : (node.passed S.cfg.crypto kind).Nodup
  passed : ∀ id ∈ node.passed S.cfg.crypto kind, (node.seen kind).contains id = true

theorem handledItems_append {tr : List (Entry Node NodeEvent Unit)}
    {e : Entry Node NodeEvent Unit} :
    handledItems S kind (tr ++ [e]) =
      handledItems S kind tr ∪ (e.call.item S e.pre kind).toList.toFinset := by
  rw [handledItems, List.filterMap_append, List.toFinset_append]
  congr 2

/-- An event keeps the record while there is room: what it lets through was not
in the set, so it was not passed on before. -/
theorem OnRecord.step {tr : List (Entry Node NodeEvent Unit)} {e : Entry Node NodeEvent Unit}
    (h : OnRecord S kind tr e.pre) (hstep : nodeStep S e.call e.pre = some (e.ret, e.post))
    (hlimited : e.pre.Limited S) (hfew : (handledItems S kind tr).card < kind.limit) :
    OnRecord S kind (tr ++ [e]) e.post := by
  -- the set is not full, so that it forgets nothing
  have hroom : (e.pre.seen kind).size < kind.limit := (size_le_card h.seen).trans_lt hfew
  have hbefore : ∀ id ∈ handledItems S kind tr, id ∈ handledItems S kind (tr ++ [e]) :=
    fun id hid => handledItems_append ▸ Finset.mem_union_left _ hid
  have hpasses : e.pre.Passes S.cfg.crypto kind (e.call.item S e.pre kind) e.post :=
    nodeStep_passes hstep hlimited fun _ _ => hroom
  -- nothing new, or one identifier
  rcases hpasses with
    ⟨hseen, hpassed⟩ | ⟨id, hitem, hnew, hseen, hpassed⟩
  · exact ⟨fun id hid => hbefore id (h.seen id (hseen ▸ hid)), hpassed ▸ h.nodup,
      fun id hid => hseen ▸ h.passed id (hpassed ▸ hid)⟩
  · have hid : id ∈ handledItems S kind (tr ++ [e]) := by
      rw [handledItems_append, hitem]
      exact Finset.mem_union_right _ (List.mem_toFinset.mpr (List.mem_singleton_self id))
    have hfresh : id ∉ e.pre.passed S.cfg.crypto kind := fun hmem =>
      Bool.false_ne_true (hnew.symm.trans (h.passed id hmem))
    refine ⟨fun other hother => ?_, ?_, fun other hother => ?_⟩
    · rw [hseen, ExtTreeSet.contains_insert] at hother
      rcases (Bool.or_eq_true _ _).mp hother with heq | hother
      · exact LawfulEqCmp.compare_eq_iff_eq.mp (beq_iff_eq.mp heq) ▸ hid
      · exact hbefore other (h.seen other hother)
    · rcases hpassed with heq | heq
      · exact heq ▸ h.nodup
      · rw [heq]
        exact List.nodup_append.mpr ⟨h.nodup, List.nodup_singleton _, by
          rintro other hother _ hlast rfl
          exact hfresh (List.mem_singleton.mp hlast ▸ hother)⟩
    · rw [hseen, ExtTreeSet.contains_insert, Bool.or_eq_true]
      rcases hpassed with heq | heq
      · exact .inr (h.passed other (heq ▸ hother))
      · rcases List.mem_append.mp (heq ▸ hother) with hother | hlast
        · exact .inr (h.passed other hother)
        · obtain rfl := List.mem_singleton.mp hlast
          exact .inl (beq_iff_eq.mpr (LawfulEqCmp.compare_eq_iff_eq.mpr rfl))

/-- What a node has passed on, after some entries. -/
structure PassedOn (S : NodeSetup) (kind : GossipKind) (tr : List (Entry Node NodeEvent Unit))
    (node : Node) : Prop where
  limited : node.Limited S
  listed : node.Listed
  onRecord : (handledItems S kind tr).card < kind.limit → OnRecord S kind tr node
  queued : ∀ p id,
    queuedDuring S.cfg.crypto kind p id tr ≤ (node.passed S.cfg.crypto kind).count id

theorem PassedOn.step {tr : List (Entry Node NodeEvent Unit)} {e : Entry Node NodeEvent Unit}
    (h : PassedOn S kind tr e.pre) (hstep : nodeStep S e.call e.pre = some (e.ret, e.post)) :
    PassedOn S kind (tr ++ [e]) e.post where
  limited := nodeStep_limited hstep h.limited
  listed := nodeStep_listed hstep h.limited h.listed
  onRecord hfew := by
    have hfewer : (handledItems S kind tr).card < kind.limit :=
      (Finset.card_le_card (handledItems_append ▸ Finset.subset_union_left)).trans_lt hfew
    exact (h.onRecord hfewer).step hstep h.limited hfewer
  queued p id := by
    have hlast : e.post.queued S.cfg.crypto kind p id - e.pre.queued S.cfg.crypto kind p id +
        (e.pre.passed S.cfg.crypto kind).count id ≤ (e.post.passed S.cfg.crypto kind).count id :=
      nodeStep_queued_le hstep h.limited h.listed
    have hbefore := h.queued p id
    rw [queuedDuring] at hbefore ⊢
    rw [List.map_append, List.sum_append, List.map_singleton, List.sum_singleton]
    omega

theorem PassedOn.of_run {bootstrapNodes : List String} {blockchain : Blockchain}
    {storage : Option DataDir} {tr : List (Entry Node NodeEvent Unit)}
    (h : NodeRun S (Node.create S bootstrapNodes blockchain storage) tr node) :
    PassedOn S kind tr node := by
  have hcreated : OnRecord S kind [] (Node.create S bootstrapNodes blockchain storage) :=
    ⟨fun id hid => by cases kind <;> simp [Node.seen, Node.create] at hid, List.nodup_nil, nofun⟩
  exact (h.history_of (J := PassedOn S kind) (C := fun _ _ => True)
    ⟨⟨rfl, rfl⟩, create_listed, fun _ => hcreated, fun _ _ => Nat.zero_le _⟩
    (fun _ _ hJ _ hstep => hJ.step hstep) fun _ _ _ _ => trivial).1

/-- **Each item is passed on once.** In a network of any nodes, whatever they
submit and mine and in whatever order messages are delivered: a node that has
handled fewer identifiers than it remembers calls `broadcast` at most once for
each, and puts at most one message for it into the queue of each connection. -/
theorem passed_on_once {ι : Type} [DecidableEq ι] (S : ι → NodeSetup)
    (bootstrapNodes : ι → List String) (blockchain : ι → Blockchain)
    (storage : ι → Option DataDir) (tr : List (Entry (ι → Node) (ι × NodeEvent) Unit))
    (nodes : ι → Node)
    (h : Run (each fun i => nodeStep (S i))
      (fun i => Node.create (S i) (bootstrapNodes i) (blockchain i) (storage i)) tr nodes)
    (i : ι) (kind : GossipKind)
    (hfew : (handledItems (S i) kind (entriesOf i tr)).card < kind.limit) (id : String) :
    ((nodes i).passed (S i).cfg.crypto kind).count id ≤ 1 ∧
      ∀ p, queuedDuring (S i).cfg.crypto kind p id (entriesOf i tr) ≤ 1 := by
  have hpassed : PassedOn (S i) kind (entriesOf i tr) (nodes i) := .of_run (h.of_each i)
  have honce := List.nodup_iff_count_le_one.mp (hpassed.onRecord hfew).nodup id
  exact ⟨honce, fun p => (hpassed.queued p id).trans honce⟩

/-! ## Two nodes -/

section Sample

/-- Two nodes with a connection to each other, and one of them with another. A
transaction comes to it, and is delivered to the other node twice. -/
def twoNodes : List (Bool × NodeEvent) :=
  [(false, .mine (sampleEnv 0) sampleMiner),
    (true, .mine (sampleEnv 0) sampleMiner),
    (false, .input (sampleEnv 5) (.accepted (some ("10.0.0.2", 50000)))),
    (false, .input (sampleEnv 5) (.accepted (some ("10.0.0.3", 50000)))),
    (true, .input (sampleEnv 5) (.accepted (some ("10.0.0.1", 9000)))),
    (false, .input (sampleEnv 10) (.message 1 ⟨.newTransaction, sampleTransfer.toJson⟩)),
    (true, .input (sampleEnv 11) (.message 0 ⟨.newTransaction, sampleTransfer.toJson⟩)),
    (true, .input (sampleEnv 300) (.message 0 ⟨.newTransaction, sampleTransfer.toJson⟩))]

end Sample

/-- The theorem at two nodes: the one that hears of the transaction twice passes
it on once at most. -/
theorem passed_on_once_delivered_twice :
    ∃ tr nodes, Run (each fun _ : Bool => nodeStep suppressionSetup) (fun _ => suppressionNode)
        tr nodes ∧
      queuedDuring suppressionSetup.cfg.crypto .transaction 0 sampleTransfer.txID
        (entriesOf false tr) = 1 ∧
      ((nodes true).passed suppressionSetup.cfg.crypto .transaction).count sampleTransfer.txID ≤ 1 ∧
      ∀ p, queuedDuring suppressionSetup.cfg.crypto .transaction p sampleTransfer.txID
        (entriesOf true tr) ≤ 1 := by
  obtain ⟨tr, nodes, hrun, hcheck⟩ := Run.exists_of_exec
    (each fun _ : Bool => nodeStep suppressionSetup) twoNodes (fun _ => suppressionNode)
    (fun r => decide (queuedDuring suppressionSetup.cfg.crypto .transaction 0 sampleTransfer.txID
        (entriesOf false r.1) = 1 ∧
      (handledItems suppressionSetup .transaction (entriesOf true r.1)).card <
        GossipKind.transaction.limit))
    (by decide +kernel)
  obtain ⟨hqueued, hfew⟩ := of_decide_eq_true hcheck
  exact ⟨tr, nodes, hrun, hqueued, passed_on_once (fun _ => suppressionSetup) (fun _ => [])
    (fun _ => sampleStart) (fun _ => none) tr nodes hrun true .transaction hfew sampleTransfer.txID⟩

end PersonalBlockchain
