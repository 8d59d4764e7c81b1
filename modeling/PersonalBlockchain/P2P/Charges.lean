import PersonalBlockchain.P2P.Connections
import PersonalBlockchain.P2P.Scores
import PersonalBlockchain.P2P.SelfDeadlock
import PersonalBlockchain.P2P.Suppression

/-!
# Personal blockchain — who is charged for what the ledger refuses

A penalty goes to the endpoint of the sender, and the scorer knows only the
endpoints that were announced or dialled. A transaction that is refused is
charged when it knows the endpoint of the connection at that moment; a block
that is refused is never charged.

`FinedIn` is what a fine does to its endpoint and to the first connection with it;
`Tally` counts what the refusals of one connection have cost it.

## Results

* `charged_iff` — the senders of what one event is refused pay for it exactly when
  the scorer knows the endpoint and the item is a transaction;
* `Tally.run` — refusals add up until the endpoint is banned and the connection
  closed;
* `misbehaviour_charged_iff` — both along every run of a new node;
* `misbehaviour_charged_counterexample` — a forged transaction and a block that cost
  nothing.
-/

namespace PersonalBlockchain

open Std Locking Routine NodeM Machine

variable {S : NodeSetup} {env : Env} {node node' : Node} {p q : PeerId} {key other : String}
  {msg : Message} {penalty : Int} {tr : List (Entry Node NodeEvent Unit)}
  {e : Entry Node NodeEvent Unit}

/-! ## Items that are refused -/

instance {block : Block} : Decidable (node.extendedBy block) :=
  inferInstanceAs (Decidable (_ ∧ _))

/-- A transaction that is handed to the ledger, which refuses it. -/
def Node.refusesTx (S : NodeSetup) (env : Env) (p : PeerId) (msg : Message) (node : Node) : Bool :=
  decide (node.Admits S env p msg) && msg.type = .newTransaction &&
    match Transaction.fromJson S.cfg.crypto msg.payload with
    | .ok tx => !node.seenTxIDs.contains tx.txID &&
        !(node.blockchain.addTransaction S.cfg env.now tx).ret
    | .error _ => false

/-- A block that extends the chain and is handed to the ledger, which refuses it. -/
def Node.refusesBlock (S : NodeSetup) (env : Env) (p : PeerId) (msg : Message) (node : Node) :
    Bool :=
  decide (node.Admits S env p msg) && msg.type = .newBlock &&
    match Block.fromJson S.cfg.crypto msg.payload with
    | .ok block => !node.seenBlockHashes.contains block.hash && decide (node.extendedBy block) &&
        !(node.blockchain.acceptBlock S.cfg env.now block).ret
    | .error _ => false

/-- The connection whose transaction is refused. -/
def NodeEvent.refusedTx (S : NodeSetup) (node : Node) : NodeEvent → Option PeerId
  | .input env (.message p msg) => if node.refusesTx S env p msg then some p else none
  | _ => none

/-- The connection whose block is refused. -/
def NodeEvent.refusedBlock (S : NodeSetup) (node : Node) : NodeEvent → Option PeerId
  | .input env (.message p msg) => if node.refusesBlock S env p msg then some p else none
  | _ => none

theorem refusesTx_spec (h : node.refusesTx S env p msg = true) :
    ∃ payload tx, msg = ⟨.newTransaction, payload⟩ ∧ node.Admits S env p msg ∧
      Transaction.fromJson S.cfg.crypto payload = .ok tx ∧
      node.seenTxIDs.contains tx.txID = false ∧
      node.blockchain.addTransaction S.cfg env.now tx = node.blockchain.rejected := by
  obtain ⟨type, payload⟩ := msg
  simp only [Node.refusesTx, Bool.and_eq_true, decide_eq_true_eq] at h
  obtain ⟨⟨hadmits, rfl⟩, hrefused⟩ := h
  -- a payload that does not decode is no refusal by the ledger
  split at hrefused
  next tx htx =>
    obtain ⟨hnew, hret⟩ : node.seenTxIDs.contains tx.txID = false ∧
        (node.blockchain.addTransaction S.cfg env.now tx).ret = false := by simpa using hrefused
    refine ⟨payload, tx, rfl, hadmits, htx, hnew, ?_⟩
    rcases Blockchain.addTransaction_cases S.cfg env.now tx node.blockchain with
      hrejected | ⟨-, hqueued⟩
    · exact hrejected
    · rw [hqueued] at hret
      cases hret
  next => cases hrefused

theorem refusesBlock_spec (h : node.refusesBlock S env p msg = true) :
    ∃ payload block, msg = ⟨.newBlock, payload⟩ ∧ node.Admits S env p msg ∧
      Block.fromJson S.cfg.crypto payload = .ok block ∧
      node.seenBlockHashes.contains block.hash = false ∧ node.extendedBy block ∧
      node.blockchain.acceptBlock S.cfg env.now block = node.blockchain.rejected := by
  obtain ⟨type, payload⟩ := msg
  simp only [Node.refusesBlock, Bool.and_eq_true, decide_eq_true_eq] at h
  obtain ⟨⟨hadmits, rfl⟩, hrefused⟩ := h
  split at hrefused
  next block hblock =>
    obtain ⟨⟨hnew, hextends⟩, hret⟩ : (node.seenBlockHashes.contains block.hash = false ∧
        node.extendedBy block) ∧ (node.blockchain.acceptBlock S.cfg env.now block).ret = false := by
      simpa using hrefused
    refine ⟨payload, block, rfl, hadmits, hblock, hnew, hextends, ?_⟩
    rcases Blockchain.acceptBlock_cases S.cfg env.now block node.blockchain with
      hrejected | haccepts
    · exact hrejected
    · rw [Blockchain.acceptBlock_of haccepts] at hret
      cases hret
  next => cases hrefused

/-! ## What a penalty does -/

/-- The node when the scorer has taken the penalty. -/
def Node.fined (key : String) (penalty : Int) (node : Node) : Node :=
  { node with peerScorer := (node.peerScorer.penalizePeer key penalty).2 }

/-- A penalty is a fine and, where it bans, the closing of a connection. -/
theorem penalized_eq : node.penalized S env key penalty =
    ((do
      if (node.peerScorer.penalizePeer key penalty).1 then closeBanned S env key
      refreshMetrics : NodeM Unit) [] (node.fined key penalty)).2 := by
  rw [Node.penalized, penalizePeerByEndpoint_eq, bind_run (withLock_run List.not_mem_nil)]
  rfl

/-- What follows a penalty leaves the scorer alone. -/
theorem penalized_standing (hlimited : node.Limited S) :
    (node.penalized S env key penalty).peerScorer.standing other =
      (node.fined key penalty).peerScorer.standing other := by
  -- after the fine only the connection of a banned peer may be closed
  have htouches : Touches S env {.quiet, .shut key} [] (do
      if (node.peerScorer.penalizePeer key penalty).1 then closeBanned S env key
      refreshMetrics : NodeM Unit) :=
    .guarded (closeBanned_touches (.inr rfl)) fun _ => refreshMetrics_touches (.inl rfl)
  rw [penalized_eq]
  refine (keeps_of_changes (htouches (node.fined key penalty)) hlimited (I := fun last =>
    last.peerScorer.standing other = (node.fined key penalty).peerScorer.standing other)
    (fun c hc s s' hleads hI => ?_) rfl).1
  rw [← hI]
  obtain rfl | rfl := hc
  · exact Quiet.standing hleads other
  · obtain ⟨_, -, hquiet⟩ := hleads
    exact hquiet.standing other

/-- Only the first connection of the endpoint is closed. -/
theorem closeBanned_run
    (hfirst : (node.peers.find? fun p => (node.connection p).getEndpoint = key) = some p) :
    closeBanned S env key [] node = (.returned (), { node.updatePeer p Peer.close with
      peerManager := node.peerManager.quarantinePeer env.steady key
        S.options.timeouts.quarantineSec
      connectionManager := node.connectionManager.unregisterConnection key }) := by
  rw [closeBanned, withLock_run List.not_mem_nil, bind_run rfl]
  dsimp only
  rw [hfirst]
  rfl

/-- A ban closes the first connection of the endpoint. -/
theorem penalized_closes (hbanned : (node.peerScorer.penalizePeer key penalty).1 = true)
    (hfirst : (node.peers.find? fun p => (node.connection p).getEndpoint = key) = some p) :
    ((node.penalized S env key penalty).connection p).isOpen = false := by
  have hclose : closeBanned S env key [] (node.fined key penalty) = _ := closeBanned_run hfirst
  rw [penalized_eq, hbanned]
  refine (congrArg (fun r : Ending Mutex JsonError Unit × Node => (r.2.connection p).isOpen)
    (bind_run (f := fun _ => refreshMetrics) hclose)).trans ?_
  exact congrArg Peer.isOpen (updatePeer_connection.trans (if_pos rfl))

/-! ## One entry -/

/-- What a message from an endpoint that is fined does to it. -/
theorem penalized_charged (hlimited : node.Limited S) :
    (node.penalized S env key PeerScorer.penaltyInvalidTx).peerScorer.standing key =
      (node.peerScorer.standing key).map (PeerScorer.charged PeerScorer.penaltyInvalidTx) :=
  (penalized_standing hlimited).trans (PeerScorer.standing_penalizePeer (by decide))

/-- A transaction that is refused fines the endpoint of the connection, if it is
known. -/
theorem refusedTx_standing (hrefuses : node.refusesTx S env p msg = true)
    (h : nodeStep S (.input env (.message p msg)) node = some ((), node'))
    (hlimited : node.Limited S) :
    node'.peerScorer.standing (node.connection p).getEndpoint =
      (node.peerScorer.standing (node.connection p).getEndpoint).map
        (PeerScorer.charged PeerScorer.penaltyInvalidTx) := by
  obtain ⟨payload, tx, rfl, hadmits, htx, hnew, hrejected⟩ := refusesTx_spec hrefuses
  obtain ⟨mid, hdispatch, rfl⟩ := handleMessage_returned hadmits (handlerReturned_eq_some.mp h)
  have hrun : onNewTransaction S env p (node.connection p).getEndpoint payload []
      (node.received S env p ⟨.newTransaction, payload⟩) = _ :=
    onNewTransaction_rejected htx hnew hrejected
  have hmid := congrArg Prod.snd (hdispatch.symm.trans hrun)
  obtain rfl : mid = _ := hmid
  have hsee : ((node.received S env p ⟨.newTransaction, payload⟩).see .transaction
      tx.txID).Limited S := hlimited
  exact (penalized_charged hsee).trans (congrArg _ PeerScorer.standing_markSeen)

/-- A block that is refused leaves every standing as it was. -/
theorem refusedBlock_standing (hrefuses : node.refusesBlock S env p msg = true)
    (h : nodeStep S (.input env (.message p msg)) node = some ((), node')) :
    node'.peerScorer.standing key = node.peerScorer.standing key := by
  obtain ⟨payload, block, rfl, hadmits, hblock, hnew, hextends, hrejected⟩ :=
    refusesBlock_spec hrefuses
  obtain ⟨mid, hdispatch, rfl⟩ := handleMessage_returned hadmits (handlerReturned_eq_some.mp h)
  have hrun : onNewBlock S env p (node.connection p).getEndpoint payload []
      (node.received S env p ⟨.newBlock, payload⟩) = _ :=
    onNewBlock_rejected hblock hnew hextends hrejected
  obtain rfl : mid = _ := congrArg Prod.snd (hdispatch.symm.trans hrun)
  exact PeerScorer.standing_markSeen

/-- The senders of what is refused in this entry pay for it. -/
def Charged (S : NodeSetup) (e : Entry Node NodeEvent Unit) : Prop :=
  (∀ p ∈ e.call.refusedTx S e.pre,
    e.post.peerScorer.getScore (e.pre.connection p).getEndpoint =
      e.pre.peerScorer.getScore (e.pre.connection p).getEndpoint + PeerScorer.penaltyInvalidTx) ∧
  ∀ p ∈ e.call.refusedBlock S e.pre,
    e.post.peerScorer.getScore (e.pre.connection p).getEndpoint =
      e.pre.peerScorer.getScore (e.pre.connection p).getEndpoint + PeerScorer.penaltyInvalidBlock

/-- What is refused is a transaction, and the scorer knows the endpoint that its
sender has at that moment. -/
def Chargeable (S : NodeSetup) (node : Node) (event : NodeEvent) : Prop :=
  (∀ p ∈ event.refusedTx S node,
    node.peerScorer.peers.contains (node.connection p).getEndpoint = true) ∧
  event.refusedBlock S node = none

instance {event : NodeEvent} : Decidable (Chargeable S node event) :=
  inferInstanceAs (Decidable (_ ∧ _))

theorem refusedTx_eq_some {event : NodeEvent} (h : event.refusedTx S node = some p) :
    ∃ env msg, event = .input env (.message p msg) ∧ node.refusesTx S env p msg = true := by
  unfold NodeEvent.refusedTx at h
  split at h
  next env q msg =>
    split at h
    next hrefuses =>
      cases h
      exact ⟨env, msg, rfl, hrefuses⟩
    next => cases h
  next => cases h

theorem refusedBlock_eq_some {event : NodeEvent} (h : event.refusedBlock S node = some p) :
    ∃ env msg, event = .input env (.message p msg) ∧ node.refusesBlock S env p msg = true := by
  unfold NodeEvent.refusedBlock at h
  split at h
  next env q msg =>
    split at h
    next hrefuses =>
      cases h
      exact ⟨env, msg, rfl, hrefuses⟩
    next => cases h
  next => cases h

/-- **One event**: its senders are charged exactly when what they send is
chargeable. -/
theorem charged_iff (hstep : nodeStep S e.call e.pre = some (e.ret, e.post))
    (hlimited : e.pre.Limited S) : Charged S e ↔ Chargeable S e.pre e.call := by
  refine and_congr (forall₂_congr fun p hrefused => ?_) ⟨fun hcharged => ?_, fun hnone => ?_⟩
  · obtain ⟨env, msg, hcall, hrefuses⟩ := refusedTx_eq_some hrefused
    rw [hcall] at hstep
    rw [PeerScorer.getScore_eq, PeerScorer.getScore_eq, refusedTx_standing hrefuses hstep hlimited,
      PeerScorer.contains_eq]
    cases e.pre.peerScorer.standing (e.pre.connection p).getEndpoint with
    | none => exact iff_of_false (by decide) (by decide)
    | some before => exact iff_of_true rfl rfl
  -- a refused block costs nothing, so the score would have to drop by itself
  · refine Option.eq_none_iff_forall_not_mem.mpr fun p hrefused => ?_
    have hscore := hcharged p hrefused
    obtain ⟨env, msg, hcall, hrefuses⟩ := refusedBlock_eq_some hrefused
    rw [hcall] at hstep
    rw [PeerScorer.getScore_eq, PeerScorer.getScore_eq, refusedBlock_standing hrefuses hstep,
      PeerScorer.penaltyInvalidBlock] at hscore
    omega
  · rw [hnone]
    nofun

/-! ## A sender whose items the ledger takes none of -/

/-- The ledger takes what this message brings. -/
def Node.takes (S : NodeSetup) (env : Env) (p : PeerId) (msg : Message) (node : Node) : Prop :=
  node.Admits S env p msg ∧
    match msg.type with
    | .newTransaction => ∃ tx, Transaction.fromJson S.cfg.crypto msg.payload = .ok tx ∧
        node.seenTxIDs.contains tx.txID = false ∧
        (node.blockchain.addTransaction S.cfg env.now tx).ret = true
    | .newBlock => ∃ block, Block.fromJson S.cfg.crypto msg.payload = .ok block ∧
        node.seenBlockHashes.contains block.hash = false ∧ node.extendedBy block ∧
        (node.blockchain.acceptBlock S.cfg env.now block).ret = true
    | .responseChain => ∃ newChain,
        msg.payload.iterate.mapM (Block.fromJson S.cfg.crypto) = .ok newChain ∧
        (node.blockchain.replaceChain S.cfg env.now newChain).ret = true
    | _ => False

theorem counted_endpoint :
    ((node.counted env p).connection q).getEndpoint = (node.connection q).getEndpoint := by
  show (if q = p then _ else _ : Peer).getEndpoint = _
  split
  next heq => rw [heq]; rfl
  next => rfl

/-- An endpoint is fined, in a node with the same connections. -/
def FinedIn (S : NodeSetup) (env : Env) (key : String) (node node' : Node) : Prop :=
  ∃ (mid : Node) (penalty : Int), mid.Limited S ∧ penalty ≤ 0 ∧ mid.peers = node.peers ∧
    (∀ q, (mid.connection q).getEndpoint = (node.connection q).getEndpoint) ∧
    mid.peerScorer.standing key = node.peerScorer.standing key ∧
    node'.peerScorer = (mid.penalized S env key penalty).peerScorer ∧
    node'.connection = (mid.penalized S env key penalty).connection

/-- A node that has only counted and remembered the message is as good as the
one before. -/
theorem FinedIn.of_counted {mid : Node} (hlimited : mid.Limited S)
    (hpeers : mid.peers = node.peers)
    (hconnection : mid.connection = (node.counted env p).connection)
    (hstanding : mid.peerScorer.standing key = node.peerScorer.standing key)
    (hpenalty : penalty ≤ 0 := by decide) :
    FinedIn S env key node (mid.penalized S env key penalty) :=
  ⟨mid, penalty, hlimited, hpenalty, hpeers, fun _ => hconnection ▸ counted_endpoint, hstanding,
    rfl, rfl⟩

/-- The score has not risen, and a ban has closed the first connection of the
endpoint. -/
theorem FinedIn.standing (h : FinedIn S env key node node') {before : Int × Bool}
    (hbefore : node.peerScorer.standing key = some before) :
    ∃ score ≤ before.1,
      node'.peerScorer.standing key =
        some (score, before.2 || decide (score ≤ PeerScorer.banThreshold)) ∧
      ∀ p, (node.peers.find? fun q => (node.connection q).getEndpoint = key) = some p →
        score ≤ PeerScorer.banThreshold → (node'.connection p).isOpen = false := by
  obtain ⟨mid, penalty, hlimited, hpenalty, hpeers, hendpoint, hmid, hscorer, hconnection⟩ := h
  obtain ⟨score, hscore, hstanding, hbanned⟩ :=
    PeerScorer.penalizePeer_standing hpenalty (hmid.trans hbefore)
  refine ⟨score, hscore, ?_, fun p hfirst hlow => ?_⟩
  · rw [hscorer, penalized_standing hlimited]
    exact hstanding
  · rw [hconnection]
    exact penalized_closes (by rw [hbanned, decide_eq_true hlow])
      (by simpa only [hpeers, hendpoint] using hfirst)

section Untaken

variable {payload : Json} {mid : Node}

/-- The sender of a transaction that is not taken. -/
theorem untakenTx_cases
    (hmid : onNewTransaction S env p key payload []
      (node.received S env p ⟨.newTransaction, payload⟩) = (.returned (), mid))
    (hadmits : node.Admits S env p ⟨.newTransaction, payload⟩) (hlimited : node.Limited S)
    (huntaken : ¬ node.takes S env p ⟨.newTransaction, payload⟩) :
    (mid.peerScorer.standing key = node.peerScorer.standing key ∧
      node.refusesTx S env p ⟨.newTransaction, payload⟩ = false) ∨
    FinedIn S env key node mid := by
  have hlimited' : (node.received S env p ⟨.newTransaction, payload⟩).Limited S := hlimited
  cases htx : Transaction.fromJson S.cfg.crypto payload with
  | error e =>
    obtain rfl := congrArg Prod.snd (hmid.symm.trans (onNewTransaction_undecoded htx))
    exact .inr (.of_counted hlimited' rfl rfl PeerScorer.standing_markSeen)
  | ok tx =>
    -- a repeated transaction is ignored
    cases hold : node.seenTxIDs.contains tx.txID with
    | true =>
      have hrun : onNewTransaction S env p key payload []
          (node.received S env p ⟨.newTransaction, payload⟩) = _ := onNewTransaction_old htx hold
      obtain rfl := congrArg Prod.snd (hmid.symm.trans hrun)
      refine .inl ⟨PeerScorer.standing_markSeen, ?_⟩
      simp [Node.refusesTx, htx, hold]
    | false =>
      -- the ledger rejects it, or it was taken
      rcases Blockchain.addTransaction_cases S.cfg env.now tx node.blockchain with
        hrejected | ⟨-, hqueued⟩
      · have hrun : onNewTransaction S env p key payload []
            (node.received S env p ⟨.newTransaction, payload⟩) = _ :=
          onNewTransaction_rejected htx hold hrejected
        obtain rfl := congrArg Prod.snd (hmid.symm.trans hrun)
        have hsee : ((node.received S env p ⟨.newTransaction, payload⟩).see .transaction
            tx.txID).Limited S := hlimited
        exact .inr (.of_counted hsee rfl rfl PeerScorer.standing_markSeen)
      · exact absurd ⟨hadmits, tx, htx, hold, by rw [hqueued]⟩ huntaken

/-- A block that does not extend the chain costs nothing. -/
theorem offerBlock_apart {block : Block} (h : ¬ node.extendedBy block) :
    ∃ last, offerBlock S env p block [] node = (.returned false, last) ∧
      last.peerScorer = node.peerScorer := by
  have hapart : ¬ (block.index = UInt64.ofNat node.blockchain.chain.length ∧
      block.previousHash = node.blockchain.tip.hash) := h
  rw [offerBlock, bind_run (t := node) (a := node.blockchain.chain) rfl, tip_hash, ite_run,
    if_neg hapart]
  by_cases hahead : UInt64.ofNat node.blockchain.chain.length ≤ block.index
  · rw [if_pos hahead]
    exact ⟨_, bind_run (withLock_run List.not_mem_nil), rfl⟩
  · rw [if_neg hahead]
    exact ⟨node, rfl, rfl⟩

/-- The sender of a block that is not taken. -/
theorem untakenBlock_cases
    (hmid : onNewBlock S env p key payload []
      (node.received S env p ⟨.newBlock, payload⟩) = (.returned (), mid))
    (hadmits : node.Admits S env p ⟨.newBlock, payload⟩) (hlimited : node.Limited S)
    (huntaken : ¬ node.takes S env p ⟨.newBlock, payload⟩) :
    mid.peerScorer.standing key = node.peerScorer.standing key ∨
    FinedIn S env key node mid := by
  have hlimited' : (node.received S env p ⟨.newBlock, payload⟩).Limited S := hlimited
  cases hblock : Block.fromJson S.cfg.crypto payload with
  | error e =>
    obtain rfl := congrArg Prod.snd (hmid.symm.trans (onNewBlock_undecoded hblock))
    exact .inr (.of_counted hlimited' rfl rfl PeerScorer.standing_markSeen)
  | ok block =>
    refine .inl ?_
    -- a repeated block is ignored
    cases hold : node.seenBlockHashes.contains block.hash with
    | true =>
      have hrun : onNewBlock S env p key payload []
          (node.received S env p ⟨.newBlock, payload⟩) = _ := onNewBlock_old hblock hold
      obtain rfl := congrArg Prod.snd (hmid.symm.trans hrun)
      exact PeerScorer.standing_markSeen
    | false =>
      by_cases hextends : node.extendedBy block
      · -- a block on the tip: only a rejected one is left
        rcases Blockchain.acceptBlock_cases S.cfg env.now block node.blockchain with
          hrejected | haccepts
        · have hrun : onNewBlock S env p key payload []
              (node.received S env p ⟨.newBlock, payload⟩) = _ :=
            onNewBlock_rejected hblock hold hextends hrejected
          obtain rfl := congrArg Prod.snd (hmid.symm.trans hrun)
          exact PeerScorer.standing_markSeen
        · exact absurd ⟨hadmits, block, hblock, hold, hextends,
            Blockchain.acceptBlock_ret.mpr haccepts⟩ huntaken
      · -- any other block makes the node ask for the chain
        have hapart : ¬ ((node.received S env p ⟨.newBlock, payload⟩).see .block
            block.hash).extendedBy block := hextends
        have hrun : onNewBlock S env p key payload []
            (node.received S env p ⟨.newBlock, payload⟩) = _ := onNewBlock_new hblock hold
        obtain ⟨last, hoffer, hscorer⟩ := offerBlock_apart hapart
        obtain rfl := congrArg Prod.snd (hmid.symm.trans (hrun.trans
          (attempt_run ((bind_run hoffer).trans rfl))))
        rw [hscorer]
        exact PeerScorer.standing_markSeen

/-- A chain that cannot be read costs its sender the penalty for a block. -/
theorem onResponseChain_undecoded {e : JsonError}
    (h : payload.iterate.mapM (Block.fromJson S.cfg.crypto) = .error e) :
    onResponseChain S env key payload [] node =
      (.returned (), node.penalized S env key PeerScorer.penaltyInvalidBlock) := by
  rw [onResponseChain, h, attempt_run_threw (bind_run_threw rfl)]
  exact penalizePeerByEndpoint_run

theorem onResponseChain_rejected {newChain : List Block}
    (h : payload.iterate.mapM (Block.fromJson S.cfg.crypto) = .ok newChain)
    (hrejected : node.blockchain.replaceChain S.cfg env.now newChain = node.blockchain.rejected) :
    onResponseChain S env key payload [] node = (.returned (), node) := by
  have hledger : callLedger S (fun bc => bc.replaceChain S.cfg env.now newChain) [] node =
      (.returned false, node) := callLedger_rejected hrejected
  rw [onResponseChain, h]
  refine attempt_run ((bind_run rfl).trans ?_)
  rw [bind_run hledger, if_neg Bool.false_ne_true]
  rfl

/-- The sender of a chain that is not taken. -/
theorem untakenChain_cases
    (hmid : onResponseChain S env key payload []
      (node.received S env p ⟨.responseChain, payload⟩) = (.returned (), mid))
    (hadmits : node.Admits S env p ⟨.responseChain, payload⟩) (hlimited : node.Limited S)
    (huntaken : ¬ node.takes S env p ⟨.responseChain, payload⟩) :
    mid.peerScorer.standing key = node.peerScorer.standing key ∨
    FinedIn S env key node mid := by
  have hlimited' : (node.received S env p ⟨.responseChain, payload⟩).Limited S := hlimited
  cases hchain : payload.iterate.mapM (Block.fromJson S.cfg.crypto) with
  -- what does not decode is charged; what the ledger declines is not
  | error e =>
    obtain rfl := congrArg Prod.snd (hmid.symm.trans (onResponseChain_undecoded hchain))
    exact .inr (.of_counted hlimited' rfl rfl PeerScorer.standing_markSeen)
  | ok newChain =>
    rcases Blockchain.replaceChain_cases S.cfg env.now newChain node.blockchain with
      hrejected | hadopts
    · have hrun : onResponseChain S env key payload []
          (node.received S env p ⟨.responseChain, payload⟩) = _ :=
        onResponseChain_rejected hchain hrejected
      obtain rfl := congrArg Prod.snd (hmid.symm.trans hrun)
      exact .inl PeerScorer.standing_markSeen
    · exact absurd ⟨hadmits, newChain, hchain, by rw [Blockchain.replaceChain_of hadopts]⟩ huntaken

end Untaken

theorem evict_not_mem_changes : NodeChange.evict ∉ msg.changes p key := by
  unfold Message.changes
  split <;> simp

/-- Rewards and penalties are for those who sent an item. -/
theorem unfined_of_type {c : NodeChange} (htx : msg.type ≠ .newTransaction)
    (hblock : msg.type ≠ .newBlock) (hchain : msg.type ≠ .responseChain)
    (hc : c ∈ msg.changes p key) : c ≠ .reward other ∧ c ≠ .penalize other := by
  unfold Message.changes at hc
  split at hc <;> (constructor <;> (rintro rfl; simp_all))

/-- What becomes of the sender of a message that is not taken. -/
theorem untaken_cases (h : handleMessage S env p msg [] node = (.returned (), node'))
    (hlimited : node.Limited S) (huntaken : ¬ node.takes S env p msg) {before : Int × Bool}
    (hbefore : node.peerScorer.standing (node.connection p).getEndpoint = some before) :
    (node'.peerScorer.standing (node.connection p).getEndpoint = some before ∧
      node.refusesTx S env p msg = false) ∨
    FinedIn S env (node.connection p).getEndpoint node node' := by
  by_cases hadmits : node.Admits S env p msg
  · obtain ⟨mid, hdispatch, rfl⟩ := handleMessage_returned hadmits h
    obtain ⟨type, payload⟩ := msg
    by_cases htx : type = .newTransaction
    · subst htx
      exact (untakenTx_cases hdispatch hadmits hlimited huntaken).imp
        (fun hsame => ⟨hsame.1.trans hbefore, hsame.2⟩) id
    have hrefuses : node.refusesTx S env p ⟨type, payload⟩ = false := by
      simp [Node.refusesTx, htx]
    by_cases hblock : type = .newBlock
    · subst hblock
      exact (untakenBlock_cases hdispatch hadmits hlimited huntaken).imp
        (fun hsame => ⟨hsame.trans hbefore, hrefuses⟩) id
    by_cases hchain : type = .responseChain
    · subst hchain
      exact (untakenChain_cases hdispatch hadmits hlimited huntaken).imp
        (fun hsame => ⟨hsame.trans hbefore, hrefuses⟩) id
    -- nothing else is charged
    refine .inl ⟨?_, hrefuses⟩
    have htouches : Touches S env (Message.changes p (node.connection p).getEndpoint
        ⟨type, payload⟩) [] (dispatch S env p (node.connection p).getEndpoint ⟨type, payload⟩) :=
      dispatch_touches
    have hsteps := htouches (node.received S env p ⟨type, payload⟩)
    rw [hdispatch] at hsteps
    exact (standing_of_changes hsteps hlimited
      (fun c hc => unfined_of_type htx hblock hchain hc)
      (fun hevict => absurd hevict evict_not_mem_changes)
      (PeerScorer.standing_markSeen.trans hbefore)).resolve_right
        fun hnone => evict_not_mem_changes hnone.2
  · -- dropped before the payload is read
    have hrefuses : node.refusesTx S env p msg = false := by simp [Node.refusesTx, hadmits]
    rcases handleMessage_dropped hadmits h with ⟨-, rfl⟩ | ⟨-, rfl⟩
    · have hlimited' : (node.counted env p).Limited S := hlimited
      exact .inr (.of_counted hlimited' rfl rfl rfl)
    · exact .inl ⟨hbefore, hrefuses⟩

/-! ## One event -/

/-- Rewards and penalties are for the senders of messages. -/
theorem unfined_of_event {event : NodeEvent} {c : NodeChange}
    (hsender : ∀ env p msg, event = .input env (.message p msg) →
      (node.connection p).getEndpoint ≠ key)
    (hc : c ∈ event.changes node) : c ≠ .reward key ∧ c ≠ .penalize key := by
  cases event with
  | input env input =>
    cases input with
    | message p msg =>
      have hother := hsender env p msg rfl
      rcases hc with hc | hc
      · constructor <;> (rintro rfl; simp_all)
      · unfold Message.changes at hc
        split at hc <;> (constructor <;> (rintro rfl; simp_all))
    | _ => constructor <;> (rintro rfl; simp_all [NodeEvent.changes, NodeInput.changes])
  | _ => constructor <;> (rintro rfl; simp_all [NodeEvent.changes])

/-- No event makes an endpoint known and forgets others. -/
theorem enroll_not_mem_of_evict {event : NodeEvent} (h : NodeChange.evict ∈ event.changes node) :
    NodeChange.enroll ∉ event.changes node := by
  cases event with
  | input env input =>
    cases input with
    | message p msg =>
      refine absurd h ?_
      rintro (hevict | hevict)
      · simp at hevict
      · exact evict_not_mem_changes hevict
    | _ => simp_all [NodeEvent.changes, NodeInput.changes]
  | _ => simp_all [NodeEvent.changes]

/-- The scorer knows the endpoint, and what `p` is refused is charged to it;
whoever sends from it brings nothing that the ledger takes, and `p` is the first
connection with it. -/
structure OnlyInvalid (S : NodeSetup) (p : PeerId) (key : String) (node : Node)
    (event : NodeEvent) : Prop where
  known : node.peerScorer.peers.contains key = true
  endpoint : event.refusedTx S node = some p → (node.connection p).getEndpoint = key
  sender : ∀ env q msg, event = .input env (.message q msg) →
    (node.connection q).getEndpoint = key →
    ¬ node.takes S env q msg ∧
      (node.peers.find? fun q => (node.connection q).getEndpoint = key) = some p

/-- The standing of such an endpoint stays, or the score falls and a ban closes
the connection. -/
theorem standing_of_event {event : NodeEvent} (h : nodeStep S event node = some ((), node'))
    (hlimited : node.Limited S) (hinvalid : OnlyInvalid S p key node event)
    {before : Int × Bool} (hbefore : node.peerScorer.standing key = some before) :
    (event.refusedTx S node ≠ some p ∧
      ∀ after, node'.peerScorer.standing key = some after → after = before) ∨
    ∃ score ≤ before.1, before.2 = false ∧ p ∈ node.peers ∧
      node'.peerScorer.standing key = some (score, decide (score ≤ PeerScorer.banThreshold)) ∧
      (score ≤ PeerScorer.banThreshold → (node'.connection p).isOpen = false) ∧
      (event.refusedTx S node = some p → score = before.1 + PeerScorer.penaltyInvalidTx) := by
  -- only a message from the endpoint can cost it anything
  by_cases hsender : ∃ env q msg, event = .input env (.message q msg) ∧
      (node.connection q).getEndpoint = key
  · obtain ⟨env, q, msg, rfl, rfl⟩ := hsender
    obtain ⟨huntaken, hfirst⟩ := hinvalid.sender env q msg rfl rfl
    have hreturned := handlerReturned_eq_some.mp h
    rcases untaken_cases hreturned hlimited huntaken hbefore with ⟨hsame, hrefuses⟩ | hfined
    · refine .inl ⟨by simp [NodeEvent.refusedTx, hrefuses], fun after hafter => ?_⟩
      exact Option.some.inj (hafter.symm.trans hsame)
    · -- a banned sender is turned away before
      have hunbanned : before.2 = false := by
        have hsenderBanned := unbanned_of_returned hreturned
        rwa [Node.senderBanned, PeerScorer.isBanned_eq, hbefore] at hsenderBanned
      obtain ⟨score, hscore, hstanding, hcloses⟩ := hfined.standing hbefore
      rw [hunbanned, Bool.false_or] at hstanding
      refine .inr ⟨score, hscore, hunbanned, List.mem_of_find?_eq_some hfirst, hstanding,
        hcloses p hfirst, fun hrefused => ?_⟩
      obtain ⟨env', msg', heq, hrefuses⟩ := refusedTx_eq_some hrefused
      cases heq
      have hcharged := refusedTx_standing hrefuses h hlimited
      rw [hstanding, hbefore] at hcharged
      exact congrArg Prod.fst (Option.some.inj hcharged)
  · refine .inl ⟨fun hrefused => ?_, fun after hafter => ?_⟩
    · obtain ⟨env, msg, rfl, -⟩ := refusedTx_eq_some hrefused
      exact hsender ⟨env, p, msg, rfl, hinvalid.endpoint hrefused⟩
    · have hother : ∀ env q msg, event = .input env (.message q msg) →
          (node.connection q).getEndpoint ≠ key :=
        fun env q msg hevent hq => hsender ⟨env, q, msg, hevent, hq⟩
      rcases standing_of_changes (nodeStep_changes h) hlimited
        (fun c hc => unfined_of_event hother hc) enroll_not_mem_of_evict hbefore with
        hsame | ⟨hnone, -⟩
      · exact Option.some.inj (hafter.symm.trans hsame)
      · rw [hnone] at hafter
        cases hafter

/-! ## The tally of a peer -/

/-- How many transactions of the connection were refused. -/
def refusals (S : NodeSetup) (p : PeerId) (tr : List (Entry Node NodeEvent Unit)) : Nat :=
  tr.countP fun e => e.call.refusedTx S e.pre = some p

/-- What so many refusals have cost: a score is at most 200, and one transaction
costs 5. -/
structure Tally (S : NodeSetup) (p : PeerId) (key : String) (refused : Nat) (node : Node) :
    Prop where
  limited : node.Limited S
  listed : node.Listed
  sound : node.peerScorer.Sound
  le : refused ≤ 40
  bound : ∀ standing, node.peerScorer.standing key = some standing → standing.1 + 5 * refused ≤ 200
  /-- a ban that was not there before has closed the connection -/
  banned : refused = 0 ∨ ∀ standing, node.peerScorer.standing key = some standing →
    standing.2 = true → p < node.nextPeer ∧ (node.connection p).isOpen = false
  last : refused = 40 → p < node.nextPeer ∧ (node.connection p).isOpen = false

/-- One event keeps the tally: what is refused is paid for, what is not taken
earns nothing, and others have other endpoints. -/
theorem Tally.step {refused : Nat} (htally : Tally S p key refused e.pre)
    (hinvalid : OnlyInvalid S p key e.pre e.call)
    (hstep : nodeStep S e.call e.pre = some ((), e.post)) :
    Tally S p key (refused + if e.call.refusedTx S e.pre = some p then 1 else 0) e.post := by
  obtain ⟨hlimited, hlisted, hsound, hle, hbound, hbanned, hlast⟩ := htally
  have hclosed : p < e.pre.nextPeer ∧ (e.pre.connection p).isOpen = false →
      p < e.post.nextPeer ∧ (e.post.connection p).isOpen = false := fun ⟨hp, hclosed⟩ =>
    ⟨hp.trans_le (nodeStep_nextPeer_le hstep hlimited),
      closed_of_changes (nodeStep_changes hstep) hlimited hlisted hp hclosed⟩
  obtain ⟨before, hbefore⟩ : ∃ before, e.pre.peerScorer.standing key = some before :=
    Option.isSome_iff_exists.mp (PeerScorer.contains_eq ▸ hinvalid.known)
  have hcommon := And.intro (nodeStep_limited hstep hlimited)
    (And.intro (nodeStep_listed hstep hlimited hlisted) (nodeStep_sound hstep hlimited hsound))
  rcases standing_of_event hstep hlimited hinvalid hbefore with
    ⟨hrefused, hsame⟩ | ⟨score, hscore, hunbanned, hp, hstanding, hcloses, hcharged⟩
  · rw [if_neg hrefused]
    refine ⟨hcommon.1, hcommon.2.1, hcommon.2.2, hle, fun after hafter => ?_, ?_,
      fun hforty => hclosed (hlast hforty)⟩
    · obtain rfl := hsame after hafter
      exact hbound _ hbefore
    · refine hbanned.imp id fun hcloses after hafter hban => ?_
      obtain rfl := hsame after hafter
      exact hclosed (hcloses _ hbefore hban)
  · have hpositive : PeerScorer.banThreshold < before.1 :=
      (hsound key before.1 before.2 hbefore).2 hunbanned
    have hroom := hbound before hbefore
    have hp' : p < e.post.nextPeer :=
      (hlisted.below p hp).trans_le (nodeStep_nextPeer_le hstep hlimited)
    -- what the score is now, in both cases
    have hnow : score + 5 * ((refused + if e.call.refusedTx S e.pre = some p then 1 else 0 : Nat)
        : Int) ≤ 200 := by
      split
      next hrefused =>
        have hpenalty := hcharged hrefused
        simp only [PeerScorer.penaltyInvalidTx] at hpenalty
        omega
      next => omega
    refine ⟨hcommon.1, hcommon.2.1, hcommon.2.2, ?_, ?_, .inr ?_, fun hforty => ⟨hp', ?_⟩⟩
    · simp only [PeerScorer.banThreshold] at hpositive
      split
      · omega
      · omega
    · intro after hafter
      cases hstanding.symm.trans hafter
      exact hnow
    · intro after hafter hban
      cases hstanding.symm.trans hafter
      exact ⟨hp', hcloses (of_decide_eq_true hban)⟩
    · refine hcloses ?_
      rw [hforty] at hnow
      simp only [PeerScorer.banThreshold]
      omega

theorem Tally.run (h : NodeRun S node tr node') (hlimited : node.Limited S)
    (hlisted : node.Listed) (hsound : node.peerScorer.Sound)
    (hinvalid : ∀ e ∈ tr, OnlyInvalid S p key e.pre e.call) :
    Tally S p key (refusals S p tr) node' := by
  refine (h.history_of (J := fun tr => Tally S p key (refusals S p tr))
    (C := fun _ e => OnlyInvalid S p key e.pre e.call) ?_ (fun tr e htally hinvalid hstep => ?_)
    fun before e after heq => hinvalid e (by simp [heq])).1
  · refine ⟨hlimited, hlisted, hsound, Nat.zero_le _, fun standing hstanding => ?_, .inl rfl, nofun⟩
    have hscore := (hsound key standing.1 standing.2 hstanding).1
    simpa [refusals] using hscore
  · rw [refusals, List.countP_append, List.countP_singleton]
    simpa only [decide_eq_true_eq, refusals] using htally.step hinvalid hstep

/-- **When misbehaviour is charged to its sender**, along every run of a new
node: what is refused is paid for exactly when it is a transaction of a sender
that the scorer knows. A peer whose invalid items are charged to one endpoint is
closed, and banned, at the 40th refusal, or earlier. -/
theorem misbehaviour_charged_iff (S : NodeSetup) (bootstrapNodes : List String)
    (blockchain : Blockchain) (storage : Option DataDir)
    (tr : List (Entry Node NodeEvent Unit)) (node : Node)
    (h : NodeRun S (Node.create S bootstrapNodes blockchain storage) tr node) :
    ((∀ e ∈ tr, Charged S e) ↔ ∀ e ∈ tr, Chargeable S e.pre e.call) ∧
    ∀ seg node' p key, NodeRun S node seg node' →
      (∀ e ∈ seg, OnlyInvalid S p key e.pre e.call) →
      refusals S p seg ≤ 40 ∧ (refusals S p seg = 40 →
        (node'.connection p).isOpen = false ∧
        (node'.peerScorer.peers.contains key = true → node'.peerScorer.isBanned key = true)) := by
  have hsteps := h.entry_of (I := Node.Limited S) (C := fun _ _ => True) ⟨rfl, rfl⟩
    (fun _ _ _ _ hI _ hs => nodeStep_limited hs hI) fun _ _ => trivial
  have hreached : node.Limited S ∧ node.Listed ∧ node.peerScorer.Sound :=
    h.invariant (I := fun node => node.Limited S ∧ node.Listed ∧ node.peerScorer.Sound)
      ⟨⟨rfl, rfl⟩, create_listed, fun key score banned hkey => by cases hkey⟩
      fun s event u s' ⟨hlimited, hlisted, hsound⟩ hs =>
        ⟨nodeStep_limited hs hlimited, nodeStep_listed hs hlimited hlisted,
          nodeStep_sound hs hlimited hsound⟩
  -- each charge by itself, and then the tally of a stretch of them
  refine ⟨forall₂_congr fun e he => charged_iff (hsteps e he).1 (hsteps e he).2, ?_⟩
  intro seg node' p key hseg hinvalid
  have htally := Tally.run hseg hreached.1 hreached.2.1 hreached.2.2 hinvalid
  refine ⟨htally.le, fun hforty => ⟨(htally.last hforty).2, fun hknown => ?_⟩⟩
  obtain ⟨⟨score, banned⟩, hstanding⟩ : ∃ standing,
      node'.peerScorer.standing key = some standing :=
    Option.isSome_iff_exists.mp (PeerScorer.contains_eq ▸ hknown)
  have hscore := htally.bound _ hstanding
  have hsound := (htally.sound key score banned hstanding).2
  rw [PeerScorer.isBanned_eq, hstanding]
  -- unbanned, the score would be positive, but 40 times 5 are gone from at most 200
  by_contra hunbanned
  have hpositive := hsound (Bool.eq_false_of_not_eq_true hunbanned)
  simp only [PeerScorer.banThreshold] at hpositive
  omega

/-! ## A peer that the scorer does not know -/

section Sample

/-- A block that extends the sample chain, with nothing in it. -/
def hollowBlock : Message where
  type := .newBlock
  payload := .object [("index", .numberUnsigned 1), ("previousHash", .string sampleGenesis.hash)]

def chargesSetup : NodeSetup :=
  { setupOf [] with
    cfg := {
      crypto := .ofTable (sampleDigests ++ [
          (sampleDump forgedTransfer.toJson,
            "19a429d2d22f260e6a4c34bc7cd0bba4695d829e1b2f5c927eb14bbf8910a47f"),
          (sampleDump (announcement []).payload,
            "d2dfd20946bca2de3bddfe233cbf22496ace1afaa9cdebc0b8b0cf60957a0564"),
          (sampleDump hollowBlock.payload,
            "16647eef9680aea9792f422f1e4581b503057dac8085665016179f06593c33cf"),
          ("1" ++ sampleGenesis.hash ++ "01",
            "d2ac19dce5c8c18ed7cf77d064a7ef6c22d74be526c3d6a585d29c794ca59e2c")])
        [(sampleTransfer.txID, sampleTransfer.digitalSignature, samplePublicKey)]
      consensusEngine := none } }

/-- The sample node. -/
def chargesNode : Node := Node.create chargesSetup [] sampleStart none

end Sample

/-- A peer that never announced itself sends a forged transaction, which costs
nothing. Then it is known, and the block it sends costs nothing either. -/
theorem misbehaviour_charged_counterexample :
    ∃ tr node, NodeRun chargesSetup chargesNode tr node ∧
      (∃ e ∈ tr, e.call.refusedTx chargesSetup e.pre = some 0 ∧
        (e.pre.connection 0).isOpen = true ∧
        e.pre.peerScorer.getScore (e.pre.connection 0).getEndpoint = 0 ∧
        e.post.peerScorer.getScore (e.pre.connection 0).getEndpoint = 0) ∧
      (∃ e ∈ tr, e.call.refusedBlock chargesSetup e.pre = some 0 ∧
        (e.pre.connection 0).isOpen = true ∧
        e.pre.peerScorer.getScore (e.pre.connection 0).getEndpoint = 100 ∧
        e.post.peerScorer.getScore (e.pre.connection 0).getEndpoint = 100) := by
  obtain ⟨tr, node, hrun, hcheck⟩ := Run.exists_of_exec (nodeStep chargesSetup)
    -- an unannounced peer has no entry to charge, and an announced one sends a bad block for
    -- nothing
    [.input (sampleEnv 5) (.accepted (some ("10.0.0.2", 50000))),
      .input (sampleEnv 10) (.message 0 ⟨.newTransaction, forgedTransfer.toJson⟩),
      .input (sampleEnv 11) (.message 0 (announcement [])),
      .input (sampleEnv 12) (.message 0 hollowBlock)]
    chargesNode
    (fun r => decide ((∃ e ∈ r.1, e.call.refusedTx chargesSetup e.pre = some 0 ∧
        (e.pre.connection 0).isOpen = true ∧
        e.pre.peerScorer.getScore (e.pre.connection 0).getEndpoint = 0 ∧
        e.post.peerScorer.getScore (e.pre.connection 0).getEndpoint = 0) ∧
      (∃ e ∈ r.1, e.call.refusedBlock chargesSetup e.pre = some 0 ∧
        (e.pre.connection 0).isOpen = true ∧
        e.pre.peerScorer.getScore (e.pre.connection 0).getEndpoint = 100 ∧
        e.post.peerScorer.getScore (e.pre.connection 0).getEndpoint = 100)))
    (by decide +kernel)
  exact ⟨tr, node, hrun, of_decide_eq_true hcheck⟩

/-- The peer announces itself before it sends the forged transaction. -/
theorem misbehaviour_charged_announced :
    ∃ tr node, NodeRun chargesSetup chargesNode tr node ∧ refusals chargesSetup 0 tr = 1 ∧
      (∀ e ∈ tr, Charged chargesSetup e) ∧ node.peerScorer.getScore "10.0.0.2:8334" = 95 := by
  obtain ⟨tr, node, hrun, hcheck⟩ := Run.exists_of_exec (nodeStep chargesSetup)
    [.input (sampleEnv 5) (.accepted (some ("10.0.0.2", 50000))),
      .input (sampleEnv 10) (.message 0 (announcement [])),
      .input (sampleEnv 11) (.message 0 ⟨.newTransaction, forgedTransfer.toJson⟩)]
    chargesNode
    (fun r => decide (refusals chargesSetup 0 r.1 = 1 ∧
      (∀ e ∈ r.1, Chargeable chargesSetup e.pre e.call) ∧
      r.2.peerScorer.getScore "10.0.0.2:8334" = 95))
    (by decide +kernel)
  obtain ⟨hrefusals, hchargeable, hscore⟩ := of_decide_eq_true hcheck
  exact ⟨tr, node, hrun, hrefusals,
    (misbehaviour_charged_iff chargesSetup [] sampleStart none tr node hrun).1.mpr hchargeable,
    hscore⟩

end PersonalBlockchain
