import PersonalBlockchain.P2P.Gossip

/-!
# Personal blockchain — items are passed on once

A transaction is passed on by the callback of the ledger and by the handler of
its message, a block of the node's own by the callback. All of them check one
set of identifiers and insert into it, so that each identifier goes through
once while none has to be forgotten.

`Node.Passes` is what an event may do: nothing, or let one identifier through that
is not in the set, put it there, and pass it on at most once. There is one lemma for
each part of the handlers, `f_passes`.

* `nodeStep_passes` — what one event lets through.
-/

namespace PersonalBlockchain

open Std Locking Routine NodeM Machine FiniteMap

/-! ## What is handled and what is passed on -/

/-- The identifier of the item in a message. -/
def Message.item (C : Crypto) (kind : GossipKind) (msg : Message) : Option String :=
  match kind, msg.type with
  | .transaction, .newTransaction =>
    (Transaction.fromJson C msg.payload).toOption.map Transaction.txID
  | .block, .newBlock => (Block.fromJson C msg.payload).toOption.map Block.hash
  | _, _ => none

/-- The identifiers `broadcast` was called with, in order. -/
def Node.passed (C : Crypto) (kind : GossipKind) (node : Node) : List String :=
  node.broadcasts.filterMap (Message.item C kind)

/-- The identifier an event checks against those that were seen: that of the
message it admits, of the transaction it submits, or of the block it mines. -/
def NodeEvent.item (S : NodeSetup) (node : Node) (kind : GossipKind) : NodeEvent → Option String
  | .input env (.message p msg) =>
    if node.Admits S env p msg then msg.item S.cfg.crypto kind else none
  | .submit env tx =>
    -- the callback comes after the checks of the ledger
    if kind = .transaction ∧ (node.blockchain.addTransaction S.cfg env.now tx).ret = true then
      some tx.txID
    else none
  | .mine env minerAddress =>
    match kind with
    | .block => (node.blockchain.minePendingTransactions S.cfg env.now minerAddress).map
        fun outcome => outcome.ret.hash
    | .transaction => none
  | _ => none

/-- The distinct identifiers a node has handled. -/
def handledItems (S : NodeSetup) (kind : GossipKind) (tr : List (Entry Node NodeEvent Unit)) :
    Finset String :=
  (tr.filterMap fun e => e.call.item S e.pre kind).toFinset

/-- The messages with this item that wait for a connection. -/
def Node.queued (C : Crypto) (kind : GossipKind) (p : PeerId) (id : String) (node : Node) : Nat :=
  (node.connection p).writeQueue.countP fun msg => msg.item C kind = some id

variable {S : NodeSetup} {env : Env} {node node' : Node} {p : PeerId} {kind : GossipKind}
  {C : Crypto} {id : String}

theorem item_of_not_gossip {msg : Message} (h : msg.isGossip = false) : msg.item C kind = none := by
  rw [Message.isGossip] at h
  unfold Message.item
  cases kind <;> cases htype : msg.type <;> simp_all

/-- The item of a transaction in the form it is sent in. -/
theorem item_newTransaction {payload : Json} {tx : Transaction}
    (h : Transaction.fromJson C payload = .ok tx) :
    Message.item C kind ⟨.newTransaction, payload⟩ =
      if kind = .transaction then some tx.txID else none := by
  cases kind with
  | transaction => simp [Message.item, h, Except.toOption]
  | block => rfl

theorem item_newBlock {payload : Json} {block : Block} (h : Block.fromJson C payload = .ok block) :
    Message.item C kind ⟨.newBlock, payload⟩ = if kind = .block then some block.hash else none := by
  cases kind with
  | transaction => rfl
  | block => simp [Message.item, h, Except.toOption]

/-! ## What the parts of the handlers do to it -/

theorem insertSeen_of_lt {limit : Nat} {seen : ExtTreeSet String} (h : seen.size < limit) :
    insertSeen limit id seen = seen.insert id := by
  have hroom : ¬ (seen.insert id).size > limit :=
    Nat.not_lt.mpr (ExtTreeSet.size_insert_le.trans h)
  have htrim : ∀ fuel, trimSeen limit fuel (seen.insert id) = seen.insert id := by
    intro fuel
    cases fuel with
    | zero => rfl
    | succ fuel => rw [trimSeen, if_neg hroom]
  exact htrim _

theorem see_seen {kind' : GossipKind} (hroom : (node.seen kind).size < kind.limit) :
    (node.see kind id).seen kind' =
      if kind' = kind then (node.seen kind).insert id else node.seen kind' := by
  cases kind <;> cases kind'
  case transaction.transaction => exact insertSeen_of_lt hroom
  case block.block => exact insertSeen_of_lt hroom
  all_goals rfl

theorem see_passed {kind' : GossipKind} :
    (node.see kind id).passed C kind' = node.passed C kind' := by
  cases kind <;> rfl

theorem broadcasted_seen {msg : Message} {exclude : Option PeerId} :
    (node.broadcasted msg exclude).seen kind = node.seen kind := by
  obtain ⟨connection, heq, -⟩ := broadcasted_eq msg exclude node
  rw [heq]
  cases kind <;> rfl

/-- It passes on the item of its message, if there is one. -/
theorem broadcasted_passed {msg : Message} {exclude : Option PeerId} :
    (node.broadcasted msg exclude).passed C kind =
      node.passed C kind ++ (msg.item C kind).toList := by
  obtain ⟨connection, heq, -⟩ := broadcasted_eq msg exclude node
  rw [heq, Node.passed, List.filterMap_append]
  congr 1

/-- A change that is neither about what was seen nor a broadcast of an item. -/
theorem NodeChange.Frame.gossip {c : NodeChange} (h : c.Frame node node') (kind : GossipKind)
    (C : Crypto) (hsee : c ≠ .see)
    (hbroadcast : ∀ msg, c ≠ .broadcast msg) :
    node'.seen kind = node.seen kind ∧ node'.passed C kind = node.passed C kind := by
  refine ⟨?_, by rw [Node.passed, h.broadcasts hbroadcast, Node.passed]⟩
  cases kind with
  | transaction => exact h.seenTxIDs hsee
  | block => exact h.seenBlockHashes hsee

/-! ## One event -/

/-- Nothing goes through, or one identifier that is new: it goes into the set,
and it is passed on once or not at all. -/
def Node.Passes (C : Crypto) (kind : GossipKind) (item : Option String) (node node' : Node) :
    Prop :=
  (node'.seen kind = node.seen kind ∧ node'.passed C kind = node.passed C kind) ∨
  ∃ id, item = some id ∧ (node.seen kind).contains id = false ∧
    node'.seen kind = (node.seen kind).insert id ∧
    (node'.passed C kind = node.passed C kind ∨ node'.passed C kind = node.passed C kind ++ [id])

/-- Most changes let nothing through. -/
theorem passes_of_changes {K : Set NodeChange} {now : Instant} {item : Option String}
    (h : Relation.ReflTransGen (OneOf S now K) node node') (hlimited : node.Limited S)
    (hK : ∀ c ∈ K, c ≠ .see ∧ ∀ msg, c = .broadcast msg → msg.isGossip = false) :
    node.Passes C kind item node' := by
  refine .inl (keeps_of_changes (I := fun last => last.seen kind = node.seen kind ∧
    last.passed C kind = node.passed C kind) h hlimited (fun c hc s s' hleads hI => ?_)
    ⟨rfl, rfl⟩).1
  -- a broadcast that is no gossip passes nothing on; the other changes send nothing
  by_cases hbroadcast : ∃ msg, c = .broadcast msg
  · obtain ⟨msg, rfl⟩ := hbroadcast
    obtain ⟨exclude, rfl⟩ := hleads
    rw [broadcasted_seen, broadcasted_passed,
      item_of_not_gossip ((hK _ hc).2 msg rfl), Option.toList_none, List.append_nil]
    exact hI
  · obtain ⟨hseen, hpassed⟩ := hleads.frame.gossip kind C (hK c hc).1
      fun msg heq => hbroadcast ⟨msg, heq⟩
    exact ⟨hseen.trans hI.1, hpassed.trans hI.2⟩

/-- What comes before or after and lets nothing through. -/
theorem Node.Passes.between {item : Option String} {first last : Node}
    (h : first.Passes C kind item last)
    (hseen : first.seen kind = node.seen kind) (hpassed : first.passed C kind = node.passed C kind)
    (hseen' : node'.seen kind = last.seen kind)
    (hpassed' : node'.passed C kind = last.passed C kind) : node.Passes C kind item node' := by
  unfold Node.Passes at h ⊢
  rwa [hseen', hpassed', ← hseen, ← hpassed]

/-- An identifier that is new goes in, and out at most once. -/
theorem passes_of_see {last : Node} (hnew : (node.seen kind).contains id = false)
    (hroom : (node.seen kind).size < kind.limit)
    (hseen : last.seen kind = (node.see kind id).seen kind)
    (hpassed : last.passed C kind = node.passed C kind ∨
      last.passed C kind = node.passed C kind ++ [id]) :
    node.Passes C kind (some id) last := by
  refine .inr ⟨id, rfl, hnew, ?_, hpassed⟩
  rw [hseen, see_seen hroom, if_pos rfl]

theorem announcedTx_seen_block {tx : Transaction} :
    (node.announcedTx tx).seen .block = node.seen .block := by
  unfold Node.announcedTx
  split
  · rfl
  · exact broadcasted_seen

theorem announcedTx_passed_block {tx : Transaction} :
    (node.announcedTx tx).passed C .block = node.passed C .block := by
  unfold Node.announcedTx
  split
  · rfl
  · rw [broadcasted_passed]
    exact List.append_nil _

/-- The callback of the ledger checks the identifier itself. -/
theorem announcedTx_passes {tx : Transaction}
    (hroom : kind = .transaction → (node.seen kind).size < kind.limit) :
    node.Passes C kind (if kind = .transaction then some tx.txID else none)
      (node.announcedTx tx) := by
  cases kind with
  | block => exact .inl ⟨announcedTx_seen_block, announcedTx_passed_block⟩
  | transaction =>
    rw [if_pos rfl, Node.announcedTx]
    split
    · exact .inl ⟨rfl, rfl⟩
    -- an identifier not seen before is remembered and sent at once
    next hnew =>
      refine passes_of_see (Bool.eq_false_of_not_eq_true hnew) (hroom rfl) broadcasted_seen
        (.inr ?_)
      rw [broadcasted_passed, item_newTransaction (Transaction.fromJson_toJson C tx),
        Transaction.reread_txID]
      rfl

theorem announcedBlock_passes {block : Block}
    (hroom : kind = .block → (node.seen kind).size < kind.limit) :
    node.Passes C kind (if kind = .block then some block.hash else none)
      (node.announcedBlock block) := by
  cases kind with
  | transaction =>
    refine .inl ?_
    unfold Node.announcedBlock
    split
    · exact ⟨rfl, rfl⟩
    · rw [broadcasted_seen, broadcasted_passed]
      exact ⟨rfl, List.append_nil _⟩
  -- a hash not seen before is remembered and sent at once
  | block =>
    rw [if_pos rfl, Node.announcedBlock]
    split
    · exact .inl ⟨rfl, rfl⟩
    next hnew =>
      refine passes_of_see (Bool.eq_false_of_not_eq_true hnew) (hroom rfl) broadcasted_seen
        (.inr ?_)
      rw [broadcasted_passed, item_newBlock (Block.fromJson_toJson C block)]
      rfl

/-- A transaction that the ledger rejects goes into the set, and nothing goes
out. -/
theorem onNewTransaction_rejected_after {key : String} {payload : Json} {tx : Transaction}
    (hlimited : node.Limited S) (htx : Transaction.fromJson S.cfg.crypto payload = .ok tx)
    (hnew : node.seenTxIDs.contains tx.txID = false)
    (hrejected : node.blockchain.addTransaction S.cfg env.now tx = node.blockchain.rejected) :
    (onNewTransaction S env p key payload [] node).2.seen kind =
        (node.see .transaction tx.txID).seen kind ∧
      (onNewTransaction S env p key payload [] node).2.passed S.cfg.crypto kind =
        node.passed S.cfg.crypto kind := by
  rw [onNewTransaction_rejected htx hnew hrejected]
  have hsee : (node.see .transaction tx.txID).Limited S := hlimited
  have hframe : (NodeChange.penalize key).Frame (node.see .transaction tx.txID)
      ((node.see .transaction tx.txID).penalized S env key PeerScorer.penaltyInvalidTx) :=
    penalized_frame hsee
  exact hframe.gossip kind S.cfg.crypto nofun nofun

/-- A transaction that comes in: looked up by its handler, and then by the
callback, which finds it there and passes nothing on a second time. -/
theorem onNewTransaction_passes {key : String} {payload : Json} (hlimited : node.Limited S)
    (hroom : ∀ id, Message.item S.cfg.crypto kind ⟨.newTransaction, payload⟩ = some id →
      (node.seen kind).size < kind.limit) :
    node.Passes S.cfg.crypto kind (Message.item S.cfg.crypto kind ⟨.newTransaction, payload⟩)
      (onNewTransaction S env p key payload [] node).2 := by
  cases htx : Transaction.fromJson S.cfg.crypto payload with
  | error e =>
    rw [onNewTransaction_undecoded htx]
    exact .inl ((penalized_frame hlimited).gossip kind _ nofun nofun)
  | ok tx =>
    rw [item_newTransaction htx] at hroom ⊢
    cases hold : node.seenTxIDs.contains tx.txID with
    | true =>
      rw [onNewTransaction_old htx hold]
      exact .inl ⟨rfl, rfl⟩
    | false =>
      rcases Blockchain.addTransaction_cases S.cfg env.now tx node.blockchain with
        hrejected | ⟨-, hqueued⟩
      · obtain ⟨hseen, hpassed⟩ :=
          @onNewTransaction_rejected_after S env node p kind key _ _ hlimited htx hold hrejected
        cases kind with
        | transaction =>
          exact passes_of_see hold (hroom _ (if_pos rfl)) hseen (.inl hpassed)
        | block => exact .inl ⟨hseen, hpassed⟩
      · rw [onNewTransaction_queued htx hold hqueued]
        cases kind with
        | block =>
          refine .inl ?_
          rw [broadcasted_seen, broadcasted_passed]
          exact ⟨announcedTx_seen_block, (List.append_nil _).trans announcedTx_passed_block⟩
        | transaction =>
          -- the callback finds the identifier among those that were seen
          have hinsert : insertSeen 10000 tx.txID node.seenTxIDs =
              node.seenTxIDs.insert tx.txID := insertSeen_of_lt (hroom _ (if_pos rfl))
          have hcallback : ({ node.see .transaction tx.txID with
              blockchain := node.blockchain.enqueue tx } : Node).announcedTx tx =
              { node.see .transaction tx.txID with blockchain := node.blockchain.enqueue tx } := by
            rw [Node.announcedTx, if_pos]
            show (insertSeen 10000 tx.txID node.seenTxIDs).contains tx.txID = true
            rw [hinsert]
            exact ExtTreeSet.contains_insert_self
          rw [hcallback, if_pos rfl]
          refine passes_of_see hold (hroom _ (if_pos rfl)) broadcasted_seen (.inr ?_)
          rw [broadcasted_passed, item_newTransaction htx]
          rfl

theorem rewarded_seen {key : String} {amount : Int} :
    (node.rewarded key amount).seen kind = node.seen kind := by
  cases kind <;> rfl

/-- A block that is new goes into the set, and out at most once. -/
theorem onNewBlock_after {key : String} {payload : Json} {block : Block}
    (hlimited : node.Limited S) (hblock : Block.fromJson S.cfg.crypto payload = .ok block)
    (hnew : node.seenBlockHashes.contains block.hash = false) :
    (onNewBlock S env p key payload [] node).2.seen kind =
        (node.see .block block.hash).seen kind ∧
      ((onNewBlock S env p key payload [] node).2.passed S.cfg.crypto kind =
          node.passed S.cfg.crypto kind ∨
        (onNewBlock S env p key payload [] node).2.passed S.cfg.crypto kind =
          node.passed S.cfg.crypto kind ++
            (Message.item S.cfg.crypto kind ⟨.newBlock, payload⟩).toList) := by
  obtain ⟨mid, hsteps, hcases⟩ := onNewBlock_cases env p key hblock hnew
  -- the offer itself lets nothing through
  obtain ⟨⟨hseen, hpassed⟩, hmid⟩ := keeps_of_changes (I := fun mid =>
      mid.seen kind = (node.see .block block.hash).seen kind ∧
        mid.passed S.cfg.crypto kind = node.passed S.cfg.crypto kind)
    hsteps hlimited (fun c hc s s' hleads hI => by
      have hframe : s'.seen kind = s.seen kind ∧
          s'.passed S.cfg.crypto kind = s.passed S.cfg.crypto kind := by
        obtain rfl | rfl | rfl := hc
        all_goals exact hleads.frame.gossip kind _ nofun nofun
      exact ⟨hframe.1.trans hI.1, hframe.2.trans hI.2⟩) ⟨rfl, see_passed⟩
  generalize (onNewBlock S env p key payload [] node).2 = last at hcases ⊢
  rcases hcases with rfl | rfl | rfl
  · exact ⟨hseen, .inl hpassed⟩
  · have hframe : (NodeChange.penalize key).Frame mid
        (mid.penalized S env key PeerScorer.penaltyInvalidBlock) := penalized_frame hmid
    obtain ⟨hseen', hpassed'⟩ := hframe.gossip kind S.cfg.crypto nofun nofun
    exact ⟨hseen'.trans hseen, .inl (hpassed'.trans hpassed)⟩
  · rw [broadcasted_seen, broadcasted_passed, rewarded_seen, ← hpassed]
    exact ⟨hseen, .inr rfl⟩

/-- A block that comes in is looked up once, and passed on by its handler. -/
theorem onNewBlock_passes {key : String} {payload : Json} (hlimited : node.Limited S)
    (hroom : ∀ id, Message.item S.cfg.crypto kind ⟨.newBlock, payload⟩ = some id →
      (node.seen kind).size < kind.limit) :
    node.Passes S.cfg.crypto kind (Message.item S.cfg.crypto kind ⟨.newBlock, payload⟩)
      (onNewBlock S env p key payload [] node).2 := by
  cases hblock : Block.fromJson S.cfg.crypto payload with
  | error e =>
    rw [onNewBlock_undecoded hblock]
    exact .inl ((penalized_frame hlimited).gossip kind _ nofun nofun)
  | ok block =>
    -- a hash seen before ends the handler
    cases hold : node.seenBlockHashes.contains block.hash with
    | true =>
      rw [onNewBlock_old hblock hold]
      exact .inl ⟨rfl, rfl⟩
    | false =>
      have hafter := @onNewBlock_after S env node p kind key payload block hlimited hblock hold
      rw [item_newBlock hblock] at hroom hafter ⊢
      cases kind with
      | transaction =>
        exact .inl ⟨hafter.1, hafter.2.elim id fun heq => heq.trans (List.append_nil _)⟩
      | block => exact passes_of_see hold (hroom _ (if_pos rfl)) hafter.1 hafter.2

theorem received_seen {msg : Message} :
    (node.received S env p msg).seen kind = node.seen kind := by
  cases kind <;> rfl

/-- What the messages do that are about no item. -/
theorem changes_of_other {msg : Message} {key : String} (htx : msg.type ≠ .newTransaction)
    (hblock : msg.type ≠ .newBlock) :
    ∀ c ∈ msg.changes p key, c ≠ .see ∧ ∀ msg', c ≠ .broadcast msg' := by
  intro c hc
  rcases hc with rfl | hc
  · exact ⟨nofun, nofun⟩
  split at hc
  next => rcases hc with rfl | ⟨port, rfl⟩ <;> exact ⟨nofun, nofun⟩
  iterate 5 next => obtain rfl := hc; exact ⟨nofun, nofun⟩
  next h => exact absurd h htx
  next h => exact absurd h hblock
  next => rcases hc with rfl | rfl | rfl | rfl <;> exact ⟨nofun, nofun⟩
  next => obtain rfl := hc; exact ⟨nofun, nofun⟩
  next => exact hc.elim

/-- A message passes on what its handler does; before the handler only the cache
and the scores change. -/
theorem handleMessage_passes {msg : Message}
    (h : handleMessage S env p msg [] node = (.returned (), node')) (hlimited : node.Limited S)
    (hroom : ∀ id, NodeEvent.item S node kind (.input env (.message p msg)) = some id →
      (node.seen kind).size < kind.limit) :
    node.Passes S.cfg.crypto kind (NodeEvent.item S node kind (.input env (.message p msg)))
      node' := by
  rw [NodeEvent.item] at hroom ⊢
  by_cases hadmits : node.Admits S env p msg
  · rw [if_pos hadmits] at hroom ⊢
    obtain ⟨mid, hdispatch, rfl⟩ := handleMessage_returned hadmits h
    have hseen : (node.received S env p msg).seen kind = node.seen kind := received_seen
    have hseen' : mid.refreshed.seen kind = mid.seen kind := by cases kind <;> rfl
    refine Node.Passes.between ?_ hseen rfl hseen' rfl
    rw [← hseen] at hroom
    obtain rfl : (dispatch S env p (node.connection p).getEndpoint msg []
      (node.received S env p msg)).2 = mid := congrArg Prod.snd hdispatch
    by_cases htx : msg.type = .newTransaction
    · obtain ⟨type, payload⟩ := msg
      obtain rfl : type = .newTransaction := htx
      exact onNewTransaction_passes hlimited hroom
    by_cases hblock : msg.type = .newBlock
    · obtain ⟨type, payload⟩ := msg
      obtain rfl : type = .newBlock := hblock
      exact onNewBlock_passes hlimited hroom
    -- the other messages are not about items
    exact passes_of_changes (dispatch_touches (node.received S env p msg)) hlimited
      fun c hc => ⟨(changes_of_other htx hblock c hc).1,
        fun msg' heq => absurd heq ((changes_of_other htx hblock c hc).2 msg')⟩
  · -- dropped before the payload is read
    rw [if_neg hadmits]
    rcases handleMessage_dropped hadmits h with ⟨-, rfl⟩ | ⟨-, rfl⟩
    · have hlimited' : (node.counted env p).Limited S := hlimited
      have hcounted : (node.counted env p).Passes S.cfg.crypto kind none
          ((node.counted env p).penalized S env (node.connection p).getEndpoint
            PeerScorer.penaltyInvalidTx) :=
        .inl ((penalized_frame hlimited').gossip kind _ nofun nofun)
      exact hcounted.between (by cases kind <;> rfl) rfl rfl rfl
    · exact .inl ⟨by cases kind <;> rfl, rfl⟩

/-- Storing the block throws nothing. -/
def Node.stores (S : NodeSetup) (block : Block) (node : Node) : Bool :=
  match node.storage.map (LevelDBManager.appendBlock S.cfg.crypto block) with
  | some (.error _) => false
  | _ => true

/-- Storing a block changes the storage and nothing else, or throws. -/
theorem runEffect_appendBlock (node : Node) (block : Block) :
    ∃ storage,
      (node.stores S block = true → runEffect S (.appendBlock block) [.blockchain] node =
        (.returned (), { node with storage := storage })) ∧
      (node.stores S block = false → ∃ e, runEffect S (.appendBlock block) [.blockchain] node =
        (.threw e, { node with storage := storage })) := by
  rw [Node.stores, runEffect, withLock_run (by simp), bind_run rfl]
  dsimp only
  cases node.storage with
  | none => exact ⟨node.storage, fun _ => rfl, nofun⟩
  | some dir =>
    rw [Option.map_some]
    dsimp only
    cases LevelDBManager.appendBlock S.cfg.crypto block dir with
    | ok program =>
      exact ⟨some (FileSwap.run program dir).2, fun _ => (bind_run rfl).trans rfl, nofun⟩
    | error e => exact ⟨node.storage, nofun, fun _ => ⟨e, bind_run_threw rfl⟩⟩

/-- A block of the node's own is passed on, unless storing it throws: the
exception leaves the callbacks before the one that broadcasts. -/
theorem callLedger_mined (node : Node) {outcome : Outcome Block}
    (h : outcome.effects =
      [.appendBlock outcome.ret, .onBlockAdded outcome.ret, .onBlockAccepted outcome.ret]) :
    ∃ storage, (callLedger S (fun _ => outcome) [] node).2 =
      if node.stores S outcome.ret = true then
        ({ node with blockchain := outcome.node, storage := storage } : Node).announcedBlock
          outcome.ret
      else { node with blockchain := outcome.node, storage := storage } := by
  obtain ⟨storage, hstored, hthrew⟩ :=
    runEffect_appendBlock (S := S) { node with blockchain := outcome.node } outcome.ret
  refine ⟨storage, ?_⟩
  rw [callLedger_run, h]
  split
  next hstores =>
    -- the broadcast runs under `blockchainMutex_`
    have hbroadcast : runEffect S (.onBlockAdded outcome.ret) [.blockchain]
        { node with blockchain := outcome.node, storage := storage } = _ :=
      broadcastBlock_run (by simp [Mutex.rank])
    have heffects : forEach (runEffect S)
        [.appendBlock outcome.ret, .onBlockAdded outcome.ret, .onBlockAccepted outcome.ret]
        [.blockchain] { node with blockchain := outcome.node } = (.returned (), _) :=
      (bind_run (hstored hstores)).trans ((bind_run hbroadcast).trans (bind_run rfl))
    exact congrArg Prod.snd (bind_run heffects)
  next hthrows =>
    -- the exception leaves the loop over the callbacks
    obtain ⟨e, hthrew⟩ := hthrew (Bool.eq_false_of_not_eq_true hthrows)
    have heffects : forEach (runEffect S)
        [.appendBlock outcome.ret, .onBlockAdded outcome.ret, .onBlockAccepted outcome.ret]
        [.blockchain] { node with blockchain := outcome.node } = (.threw e, _) :=
      bind_run_threw hthrew
    exact congrArg Prod.snd (bind_run_threw heffects)

/-- **What one event lets through**: with room left in the set, nothing, or the
one identifier it handles, and that only if it is new. -/
theorem nodeStep_passes {event : NodeEvent} {u : Unit}
    (h : nodeStep S event node = some (u, node')) (hlimited : node.Limited S)
    (hroom : ∀ id, event.item S node kind = some id → (node.seen kind).size < kind.limit) :
    node.Passes S.cfg.crypto kind (event.item S node kind) node' := by
  -- most events have no item
  have hother : (∀ c ∈ event.changes node, c ≠ .see ∧
      ∀ msg, c = .broadcast msg → msg.isGossip = false) →
      node.Passes S.cfg.crypto kind (event.item S node kind) node' :=
    passes_of_changes (nodeStep_changes h) hlimited
  cases event with
  | input env input =>
    cases input with
    | message p msg => exact handleMessage_passes (handlerReturned_eq_some.mp h) hlimited hroom
    | gossip =>
      refine hother fun c hc => ?_
      rcases hc with (rfl | rfl) | ⟨payload, rfl⟩
      · simp
      · simp
      · exact ⟨NodeChange.noConfusion, fun _ heq => NodeChange.broadcast.inj heq ▸ rfl⟩
    | requestChain =>
      refine hother fun c hc => ?_
      obtain rfl := hc
      exact ⟨NodeChange.noConfusion, fun _ heq => NodeChange.broadcast.inj heq ▸ rfl⟩
    | heartbeat =>
      refine hother fun c hc => ?_
      rcases hc with ((rfl | rfl) | ⟨p, rfl⟩) | ⟨key, rfl⟩ <;> simp
    | accepted remote =>
      refine hother fun c hc => ?_
      rcases hc with rfl | rfl | rfl | rfl <;> simp
    | dialConnected dial remote =>
      refine hother fun c hc => ?_
      rcases hc with rfl | rfl | rfl | rfl <;> simp
    | rotation | dialFailed dial =>
      refine hother fun c hc => ?_
      obtain rfl := hc
      simp
    | retryTimer dial | bootstrap =>
      refine hother fun c hc => ?_
      rcases hc with rfl | rfl <;> simp
  | submit env tx =>
    obtain rfl := eq_of_requestEnded h
    rcases Blockchain.addTransaction_cases S.cfg env.now tx node.blockchain with
      hrejected | ⟨-, hqueued⟩
    · rw [callLedger_rejected hrejected]
      exact .inl ⟨rfl, rfl⟩
    · rw [callLedger_queued hqueued]
      simp only [NodeEvent.item, hqueued, and_true] at hroom ⊢
      have hpasses : ({ node with blockchain := node.blockchain.enqueue tx } : Node).Passes
          S.cfg.crypto kind (if kind = .transaction then some tx.txID else none)
          (Node.announcedTx tx { node with blockchain := node.blockchain.enqueue tx }) := by
        refine announcedTx_passes fun hkind => ?_
        subst hkind
        exact hroom _ (if_pos rfl)
      exact hpasses.between (by cases kind <;> rfl) rfl rfl rfl
  | mine env minerAddress =>
    rw [nodeStep] at h
    split at h
    · cases h
    next outcome houtcome =>
      obtain rfl := eq_of_requestEnded h
      have hitem : NodeEvent.item S node kind (.mine env minerAddress) =
          if kind = .block then some outcome.ret.hash else none := by
        cases kind with
        | block => simp [NodeEvent.item, houtcome]
        | transaction => rfl
      rw [hitem] at hroom ⊢
      obtain ⟨storage, hlast⟩ :=
        callLedger_mined (S := S) node (Blockchain.mine_spec houtcome).2
      by_cases hstores : node.stores S outcome.ret = true
      · rw [hlast, if_pos hstores]
        have hpasses : ({ node with blockchain := outcome.node, storage := storage } : Node).Passes
            S.cfg.crypto kind (if kind = .block then some outcome.ret.hash else none)
            (Node.announcedBlock outcome.ret
              { node with blockchain := outcome.node, storage := storage }) := by
          refine announcedBlock_passes fun hkind => ?_
          subst hkind
          exact hroom _ (if_pos rfl)
        exact hpasses.between (by cases kind <;> rfl) rfl rfl rfl
      · rw [hlast, if_neg hstores]
        exact .inl ⟨by cases kind <;> rfl, rfl⟩
  | connect env host port =>
    refine hother fun c hc => ?_
    rcases hc with rfl | rfl <;> simp
  | disconnected p | written p | writeFailed p =>
    refine hother fun c hc => ?_
    obtain rfl := hc
    simp

end PersonalBlockchain
