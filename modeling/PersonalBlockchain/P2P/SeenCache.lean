import PersonalBlockchain.Lib.GreatestKept
import PersonalBlockchain.P2P.Connections
import PersonalBlockchain.P2P.Forwarding

/-!
# Personal blockchain — what the seen sets remember

`seenTxIDs_` and `seenBlockHashes_` are `std::set`s that are cut down to their
limits from `begin()`, in four places. `begin()` is the least identifier and
not the oldest: whatever was handled and in whatever order, the sets hold the
greatest identifiers there were. An identifier that is less than all others is
forgotten in the step that inserts it.

## Results

* `keys_insertSeen` — an insertion keeps the greatest;
* `nodeStep_remembers` — what an event adds to a set;
* `holdsGreatest_run` — after every event of every run a set holds the greatest of
  the identifiers handled so far;
* `seen_window_iff` — along a run whose identifiers are all distinct the sets are
  windows on the last identifiers if and only if each identifier is less than each of
  the next ones, as many as the limit, where so many follow;
* `seen_window_counterexample` — a thousand hashes that displace each other while a
  greater one, older than all of them, stays.
-/

namespace PersonalBlockchain

open Std Locking Routine NodeM Machine FiniteMap GreatestKept

/-! ## Trimming -/

/-- The order of a `std::set<std::string>`. -/
@[reducible] def setOrder : LinearOrder String where
  le_refl := String.le_refl
  le_trans _ _ _ := String.le_trans
  le_antisymm _ _ := String.le_antisymm
  le_total := String.le_total
  lt_iff_le_not_ge a b := by
    rw [← String.not_le]
    exact ⟨fun h => ⟨(String.le_total a b).resolve_right h, h⟩, And.right⟩
  toDecidableLE := String.decLE
  toDecidableEq := instDecidableEqString
  toDecidableLT := String.decidableLT
  toMin := @minOfLe String String.instLE String.decLE
  toMax := @maxOfLe String String.instLE String.decLE
  compare := compare
  compare_eq_compareOfLessAndEq _ _ := rfl

attribute [local instance] setOrder

variable {limit : Nat} {seen : ExtTreeSet String} {id : String}

/-- The minimum of a set is in it, and nothing is below it. -/
theorem le_of_min? {least : String} (h : seen.min? = some least) :
    least ∈ keys seen ∧ ∀ y ∈ keys seen, least ≤ y := by
  obtain ⟨hmem, hle⟩ := ExtTreeSet.min?_eq_some_iff_mem_and_forall.mp h
  refine ⟨mem_keys.mpr (ExtTreeSet.contains_iff_mem.mpr hmem), fun y hy => ?_⟩
  have hcompare := hle y (ExtTreeSet.contains_iff_mem.mp (mem_keys.mp hy))
  exact compare_le_iff_le.mp (Ordering.isLE_iff_ne_gt.mp hcompare)

/-- Cut down from below, a set holds its greatest members. The induction is on
the fuel, of which there is enough for every member too many. -/
theorem keys_trimSeen {fuel : Nat} (h : seen.size ≤ limit + fuel) :
    keys (trimSeen limit fuel seen) = greatest limit (keys seen) := by
  induction fuel generalizing seen with
  | zero => exact (greatest_eq_self ((card_keys seen).trans_le h)).symm
  | succ fuel ih =>
    rw [trimSeen]
    split
    next hmany =>
      -- one element less, and one step less to go
      cases hmin : seen.min? with
      | none =>
        rw [ExtTreeSet.min?_eq_none_iff] at hmin
        rw [hmin, ExtTreeSet.size_empty] at hmany
        exact absurd hmany (Nat.not_lt_zero limit)
      | some least =>
        obtain ⟨hmem, hleast⟩ := le_of_min? hmin
        have hsize : (seen.erase least).size ≤ limit + fuel := by
          rw [← card_keys, keys_erase, Finset.card_erase_of_mem hmem, card_keys]
          omega
        dsimp only
        rw [ih hsize, keys_erase, greatest_erase ((card_keys seen).symm ▸ hmany) hmem hleast]
    next hfew => exact (greatest_eq_self ((card_keys seen).trans_le (Nat.not_lt.mp hfew))).symm

/-- **An insertion keeps the greatest** identifiers up to the limit, and the new
one counts as any other. -/
theorem keys_insertSeen :
    keys (insertSeen limit id seen) = greatest limit (insert id (keys seen)) := by
  rw [insertSeen, keys_trimSeen (Nat.le_add_left _ _), keys_insert]

/-! ## What an event adds -/

variable {S : NodeSetup} {env : Env} {node node' : Node} {p : PeerId} {kind : GossipKind}

/-- The identifier an event looks up and inserts. A block of the node's own is
broadcast after it was stored. -/
def NodeEvent.handles (S : NodeSetup) (node : Node) (kind : GossipKind) (event : NodeEvent) :
    Option String :=
  match kind, event with
  | .block, .mine env minerAddress =>
    (node.blockchain.minePendingTransactions S.cfg env.now minerAddress).bind fun outcome =>
      if node.stores S outcome.ret then some outcome.ret.hash else none
  | kind, event => event.item S node kind

/-- The set is the same, or holds the greatest of what was in it and one more
identifier. -/
def Node.Remembers (kind : GossipKind) (item : Option String) (node node' : Node) : Prop :=
  keys (node'.seen kind) = match item with
    | some id => greatest kind.limit (insert id (keys (node.seen kind)))
    | none => keys (node.seen kind)

theorem keys_see : keys ((node.see kind id).seen kind) =
    greatest kind.limit (insert id (keys (node.seen kind))) := by
  cases kind <;> exact keys_insertSeen

/-- What is in the set already changes nothing. -/
theorem greatest_insert_old (hold : (node.seen kind).contains id = true)
    (hsize : (node.seen kind).size ≤ kind.limit) :
    greatest kind.limit (insert id (keys (node.seen kind))) = keys (node.seen kind) := by
  rw [Finset.insert_eq_of_mem (mem_keys.mpr hold),
    greatest_eq_self ((card_keys _).trans_le hsize)]

/-- The callback of the ledger looks a transaction up, and enters it if it is
new. -/
theorem announcedTx_remembers {tx : Transaction}
    (hsize : (node.seen .transaction).size ≤ GossipKind.transaction.limit) :
    node.Remembers .transaction (some tx.txID) (node.announcedTx tx) := by
  rw [Node.Remembers, Node.announcedTx]
  split
  next hold =>
    have hold' : (node.seen .transaction).contains tx.txID = true := hold
    exact (greatest_insert_old hold' hsize).symm
  next => rw [broadcasted_seen, keys_see]

theorem announcedBlock_remembers {block : Block}
    (hsize : (node.seen .block).size ≤ GossipKind.block.limit) :
    node.Remembers .block (some block.hash) (node.announcedBlock block) := by
  rw [Node.Remembers, Node.announcedBlock]
  split
  next hold =>
    have hold' : (node.seen .block).contains block.hash = true := hold
    exact (greatest_insert_old hold' hsize).symm
  next => rw [broadcasted_seen, keys_see]

/-- A set that is cut down to its limit is within it. -/
theorem see_size : ((node.see kind id).seen kind).size ≤ kind.limit := by
  rw [← card_keys, keys_see]
  exact card_greatest_le

/-- A transaction that comes from a peer is entered by its handler, and perhaps
again by the callback, which finds it there. -/
theorem onNewTransaction_remembers {key : String} {payload : Json} {tx : Transaction}
    (hlimited : node.Limited S) (htx : Transaction.fromJson S.cfg.crypto payload = .ok tx)
    (hsize : (node.seen .transaction).size ≤ GossipKind.transaction.limit) :
    node.Remembers .transaction (some tx.txID)
      (onNewTransaction S env p key payload [] node).2 := by
  cases hold : node.seenTxIDs.contains tx.txID with
  | true =>
    have hold' : (node.seen .transaction).contains tx.txID = true := hold
    rw [onNewTransaction_old htx hold]
    exact (greatest_insert_old hold' hsize).symm
  | false =>
    rcases Blockchain.addTransaction_cases S.cfg env.now tx node.blockchain with
      hrejected | ⟨-, hqueued⟩
    · rw [Node.Remembers, (onNewTransaction_rejected_after hlimited htx hold hrejected).1]
      exact keys_see
    · rw [onNewTransaction_queued htx hold hqueued]
      -- the callback inserts once more what the handler has inserted
      have hcallback : ({ node.see .transaction tx.txID with
          blockchain := node.blockchain.enqueue tx } : Node).Remembers .transaction
            (some tx.txID) (Node.announcedTx tx { node.see .transaction tx.txID with
              blockchain := node.blockchain.enqueue tx }) :=
        announcedTx_remembers (@see_size tx.txID node .transaction)
      rw [Node.Remembers, broadcasted_seen, rewarded_seen]
      refine hcallback.trans ?_
      show greatest _ (insert tx.txID
        (keys ((node.see .transaction tx.txID).seen .transaction))) = _
      rw [keys_see, greatest_insert, Finset.insert_idem]

/-- A block that comes from a peer is entered by its handler. -/
theorem onNewBlock_remembers {key : String} {payload : Json} {block : Block}
    (hlimited : node.Limited S) (hblock : Block.fromJson S.cfg.crypto payload = .ok block)
    (hsize : (node.seen .block).size ≤ GossipKind.block.limit) :
    node.Remembers .block (some block.hash) (onNewBlock S env p key payload [] node).2 := by
  cases hold : node.seenBlockHashes.contains block.hash with
  | true =>
    have hold' : (node.seen .block).contains block.hash = true := hold
    rw [onNewBlock_old hblock hold]
    exact (greatest_insert_old hold' hsize).symm
  | false =>
    rw [Node.Remembers, (onNewBlock_after hlimited hblock hold).1]
    exact keys_see

/-- What comes before or after and leaves the set alone. -/
theorem Node.Remembers.between {item : Option String} {first last : Node}
    (h : first.Remembers kind item last) (hseen : first.seen kind = node.seen kind)
    (hseen' : node'.seen kind = last.seen kind) : node.Remembers kind item node' := by
  unfold Node.Remembers at h ⊢
  rwa [hseen', ← hseen]

theorem item_transaction_eq_some {C : Crypto} {msg : Message}
    (h : msg.item C .transaction = some id) :
    msg.type = .newTransaction ∧ ∃ tx, Transaction.fromJson C msg.payload = .ok tx ∧
      tx.txID = id := by
  rw [Message.item.eq_def] at h
  split at h
  next htype =>
    obtain ⟨tx, htx, hid⟩ := Option.map_eq_some_iff.mp h
    exact ⟨htype, tx, toOption_eq_some.mp htx, hid⟩
  next hkind _ => cases hkind
  next => cases h

theorem item_block_eq_some {C : Crypto} {msg : Message} (h : msg.item C .block = some id) :
    msg.type = .newBlock ∧ ∃ block, Block.fromJson C msg.payload = .ok block ∧
      block.hash = id := by
  rw [Message.item.eq_def] at h
  split at h
  next hkind _ => cases hkind
  next htype =>
    obtain ⟨block, hblock, hid⟩ := Option.map_eq_some_iff.mp h
    exact ⟨htype, block, toOption_eq_some.mp hblock, hid⟩
  next => cases h

theorem handleMessage_remembers {msg : Message}
    (h : handleMessage S env p msg [] node = (.returned (), node')) (hlimited : node.Limited S)
    (hadmits : node.Admits S env p msg) (hitem : msg.item S.cfg.crypto kind = some id)
    (hsize : (node.seen kind).size ≤ kind.limit) : node.Remembers kind (some id) node' := by
  obtain ⟨mid, hdispatch, rfl⟩ := handleMessage_returned hadmits h
  have hseen : (node.received S env p msg).seen kind = node.seen kind := received_seen
  have hseen' : mid.refreshed.seen kind = mid.seen kind := by cases kind <;> rfl
  -- what comes before the handler and after it leaves the set alone
  refine Node.Remembers.between ?_ hseen hseen'
  rw [← hseen] at hsize
  obtain rfl : (dispatch S env p (node.connection p).getEndpoint msg []
    (node.received S env p msg)).2 = mid := congrArg Prod.snd hdispatch
  obtain ⟨type, payload⟩ := msg
  cases kind with
  | transaction =>
    obtain ⟨htype, tx, htx, rfl⟩ := item_transaction_eq_some hitem
    obtain rfl : type = .newTransaction := htype
    exact onNewTransaction_remembers hlimited htx hsize
  | block =>
    obtain ⟨htype, block, hblock, rfl⟩ := item_block_eq_some hitem
    obtain rfl : type = .newBlock := htype
    exact onNewBlock_remembers hlimited hblock hsize

/-- A transaction that is submitted here comes in through the callback. -/
theorem submit_remembers {env : Env} {tx : Transaction} {u : Unit}
    (h : nodeStep S (.submit env tx) node = some (u, node'))
    (hitem : NodeEvent.item S node kind (.submit env tx) = some id)
    (hsize : (node.seen kind).size ≤ kind.limit) :
    node.Remembers kind (NodeEvent.handles S node kind (.submit env tx)) node' := by
  obtain rfl := eq_of_requestEnded h
  rcases Blockchain.addTransaction_cases S.cfg env.now tx node.blockchain with
    hrejected | ⟨-, hqueued⟩
  · rw [NodeEvent.item, hrejected] at hitem
    simp [Blockchain.rejected] at hitem
  · obtain ⟨rfl, rfl⟩ : kind = .transaction ∧ tx.txID = id := by
      rw [NodeEvent.item, hqueued] at hitem
      simpa using hitem
    have hhandles : NodeEvent.handles S node .transaction (.submit env tx) = some tx.txID :=
      hitem
    rw [callLedger_queued hqueued, hhandles]
    -- the ledger is changed before the callback is called
    have hadds : ({ node with blockchain := node.blockchain.enqueue tx } : Node).Remembers
        .transaction (some tx.txID)
        (Node.announcedTx tx { node with blockchain := node.blockchain.enqueue tx }) :=
      announcedTx_remembers hsize
    exact hadds.between rfl rfl

/-- A block that is mined here comes in through the callback, unless storing it
throws. -/
theorem mine_remembers {env : Env} {minerAddress : String} {u : Unit}
    (h : nodeStep S (.mine env minerAddress) node = some (u, node'))
    (hitem : NodeEvent.item S node kind (.mine env minerAddress) = some id)
    (hsize : (node.seen kind).size ≤ kind.limit) :
    node.Remembers kind (NodeEvent.handles S node kind (.mine env minerAddress)) node' := by
  rw [nodeStep] at h
  split at h
  · cases h
  next outcome houtcome =>
    obtain rfl := eq_of_requestEnded h
    -- mining makes no transaction known
    obtain rfl : kind = .block := by
      cases kind with
      | transaction => cases hitem
      | block => rfl
    have hhandles : NodeEvent.handles S node .block (.mine env minerAddress) =
        if node.stores S outcome.ret then some outcome.ret.hash else none := by
      rw [NodeEvent.handles, houtcome]
      rfl
    obtain ⟨storage, hlast⟩ :=
      callLedger_mined (S := S) node (Blockchain.mine_spec houtcome).2
    rw [hhandles, hlast]
    by_cases hstores : node.stores S outcome.ret = true
    · rw [if_pos hstores, if_pos hstores]
      have hadds : ({ node with blockchain := outcome.node, storage := storage } :
          Node).Remembers .block (some outcome.ret.hash) (Node.announcedBlock outcome.ret
            { node with blockchain := outcome.node, storage := storage }) :=
        announcedBlock_remembers hsize
      exact hadds.between rfl rfl
    · -- an exception of the storage comes before the callbacks
      rw [if_neg hstores, if_neg hstores]
      exact rfl

/-- An event that looks nothing up remembers nothing. -/
theorem remembers_of_no_item {event : NodeEvent} {u : Unit}
    (h : nodeStep S event node = some (u, node')) (hlimited : node.Limited S)
    (hitem : event.item S node kind = none) :
    node.Remembers kind (event.handles S node kind) node' := by
  -- without an item nothing is handled
  have hnone : event.handles S node kind = none := by
    unfold NodeEvent.handles
    split
    · rw [NodeEvent.item, Option.map_eq_none_iff] at hitem
      rw [hitem]
      rfl
    · exact hitem
  have hpasses := @nodeStep_passes S node node' kind event u h hlimited fun id hid => by
    rw [hitem] at hid
    cases hid
  rcases hpasses with hsame | ⟨id, hsome, -⟩
  · rw [hnone, Node.Remembers, hsame.1]
  · rw [hitem] at hsome
    cases hsome

/-- **What one event adds to a set**: the identifier that it handles, after
which the set holds the greatest of what it held and this one. All other events
leave the set as it is. -/
theorem nodeStep_remembers {event : NodeEvent} {u : Unit}
    (h : nodeStep S event node = some (u, node')) (hlimited : node.Limited S)
    (hsize : (node.seen kind).size ≤ kind.limit) :
    node.Remembers kind (event.handles S node kind) node' := by
  cases hitem : event.item S node kind with
  | none => exact remembers_of_no_item h hlimited hitem
  | some id =>
    -- three events look an identifier up
    cases event with
    | input env input =>
      cases input with
      | message p msg =>
        have hhandles : NodeEvent.handles S node kind (.input env (.message p msg)) = some id := by
          rw [← hitem]
          cases kind <;> rfl
        rw [hhandles]
        rw [NodeEvent.item] at hitem
        split at hitem
        next hadmits =>
          exact handleMessage_remembers (handlerReturned_eq_some.mp h) hlimited hadmits hitem hsize
        next => cases hitem
      | _ => cases hitem
    | submit env tx => exact submit_remembers h hitem hsize
    | mine env minerAddress => exact mine_remembers h hitem hsize
    | _ => cases hitem

/-! ## Runs -/

/-- The identifiers that were looked up, in order. -/
def handledIds (S : NodeSetup) (kind : GossipKind) (tr : List (Entry Node NodeEvent Unit)) :
    List String :=
  tr.filterMap fun e => e.call.handles S e.pre kind

/-- The set holds the greatest identifiers so far, as many as its limit allows. -/
def HoldsGreatest (S : NodeSetup) (kind : GossipKind) (tr : List (Entry Node NodeEvent Unit))
    (node : Node) : Prop :=
  keys (node.seen kind) = greatest kind.limit (handledIds S kind tr).toFinset

theorem HoldsGreatest.size {tr : List (Entry Node NodeEvent Unit)}
    (h : HoldsGreatest S kind tr node) : (node.seen kind).size ≤ kind.limit := by
  rw [← card_keys, h]
  exact card_greatest_le

theorem holdsGreatest_step {tr : List (Entry Node NodeEvent Unit)} {e : Entry Node NodeEvent Unit}
    (h : HoldsGreatest S kind tr e.pre) (hlimited : e.pre.Limited S)
    (hs : nodeStep S e.call e.pre = some (e.ret, e.post)) :
    HoldsGreatest S kind (tr ++ [e]) e.post := by
  have hadds := nodeStep_remembers hs hlimited h.size
  unfold HoldsGreatest handledIds at h ⊢
  rw [hadds, List.filterMap_append, List.toFinset_append]
  cases hhandles : e.call.handles S e.pre kind with
  | none => simp [hhandles, h]
  | some id =>
    -- dropping after every insertion is dropping at the end
    dsimp only
    rw [h, greatest_insert]
    simp [hhandles, Finset.union_comm]

/-- **After every event of a run** a set holds the greatest of all identifiers
that were handled up to then, in whatever order they came. -/
theorem holdsGreatest_run {bootstrapNodes : List String} {blockchain : Blockchain}
    {storage : Option DataDir} {tr : List (Entry Node NodeEvent Unit)}
    (h : NodeRun S (Node.create S bootstrapNodes blockchain storage) tr node) :
    Along (fun before e => HoldsGreatest S kind (before ++ [e]) e.post) tr := by
  have hcreate : HoldsGreatest S kind [] (Node.create S bootstrapNodes blockchain storage) := by
    unfold HoldsGreatest
    cases kind <;> exact keys_empty
  have hhistory := (Run.history_of
    (J := fun tr node => HoldsGreatest S kind tr node ∧ node.Limited S)
    (C := fun _ _ => True) ⟨hcreate, rfl, rfl⟩
    (fun _ _ hJ _ hs => ⟨holdsGreatest_step hJ.1 hJ.2 hs, nodeStep_limited hs hJ.2⟩) h
    fun _ _ _ _ => trivial).2
  intro before e after heq
  obtain ⟨hs, hJ⟩ := hhistory before e after heq
  exact holdsGreatest_step hJ.1 hJ.2 hs

/-! ## Windows -/

/-- The set is a window on the last `limit` identifiers. -/
structure SlidingWindow (limit : Nat) (ids : List String) (seen : ExtTreeSet String) : Prop where
  size : seen.size ≤ limit
  last : ∀ id ∈ ids.getLast?, seen.contains id = true
  recent : ∀ id ∈ recent limit ids, seen.contains id = true

theorem GossipKind.limit_pos (kind : GossipKind) : 0 < kind.limit := by
  cases kind <;> decide

/-- A set that holds the greatest is a window exactly when the recent ones are
among the greatest. -/
theorem HoldsGreatest.window_iff {tr : List (Entry Node NodeEvent Unit)}
    (h : HoldsGreatest S kind tr node) :
    SlidingWindow kind.limit (handledIds S kind tr) (node.seen kind) ↔
      ∀ id ∈ recent kind.limit (handledIds S kind tr),
        id ∈ greatest kind.limit (handledIds S kind tr).toFinset := by
  have hmem : ∀ id, (node.seen kind).contains id = true ↔
      id ∈ greatest kind.limit (handledIds S kind tr).toFinset := by
    intro id
    rw [← mem_keys, h]
  constructor
  · exact fun hwindow id hid => (hmem id).mp (hwindow.recent id hid)
  · refine fun hkept => ⟨h.size, fun id hid => ?_, fun id hid => (hmem id).mpr (hkept id hid)⟩
    -- the last identifier is one of the recent ones
    refine (hmem id).mpr (hkept id (List.mem_of_getLast? ?_))
    rw [recent, List.getLast?_drop, if_neg, hid]
    have hlength := List.length_pos_of_mem (List.mem_of_getLast? hid)
    have hlimit := kind.limit_pos
    omega

/-- The sets of a run are windows when what is recent is always kept. -/
theorem along_window_iff {bootstrapNodes : List String} {blockchain : Blockchain}
    {storage : Option DataDir} {tr : List (Entry Node NodeEvent Unit)}
    (h : NodeRun S (Node.create S bootstrapNodes blockchain storage) tr node) :
    Along (fun before e => SlidingWindow kind.limit (handledIds S kind (before ++ [e]))
        (e.post.seen kind)) tr ↔
      ∀ front, front <+: handledIds S kind tr →
        ∀ id ∈ recent kind.limit front, id ∈ greatest kind.limit front.toFinset := by
  have hrun := @holdsGreatest_run _ _ kind _ _ _ _ h
  constructor
  · intro hwindows front hfront
    -- a beginning of the identifiers comes from a beginning of the run
    obtain ⟨first, ⟨rest, rfl⟩, rfl⟩ := List.prefix_filterMap_iff.mp hfront
    rcases List.eq_nil_or_concat first with rfl | ⟨before, e, rfl⟩
    · exact fun id hid => absurd hid (by simp [recent])
    · rw [List.concat_eq_append] at hwindows hrun ⊢
      have heq : before ++ [e] ++ rest = before ++ e :: rest := by simp
      exact (hrun before e rest heq).window_iff.mp (hwindows before e rest heq)
  · intro hkept before e after heq
    refine (hrun before e after heq).window_iff.mpr (hkept _ ?_)
    exact List.prefix_filterMap_iff.mpr ⟨before ++ [e], ⟨after, by simp [heq]⟩, rfl⟩

/-- **When the seen sets are sliding windows.** Along a run whose identifiers
are all distinct, each set holds the last identifiers up to its limit after
every event if and only if the identifiers rise past it: each one is less than
every one of the next ones, as many as the limit, where so many follow. -/
theorem seen_window_iff {S : NodeSetup} {bootstrapNodes : List String} {blockchain : Blockchain}
    {storage : Option DataDir} {kind : GossipKind} {tr : List (Entry Node NodeEvent Unit)}
    {node : Node} (h : NodeRun S (Node.create S bootstrapNodes blockchain storage) tr node)
    (hdistinct : (handledIds S kind tr).Nodup) :
    Along (fun before e => SlidingWindow kind.limit (handledIds S kind (before ++ [e]))
        (e.post.seen kind)) tr ↔
      RisesPast kind.limit (handledIds S kind tr) :=
  (along_window_iff h).trans (recent_kept_iff kind.limit_pos hdistinct)

/-! ## A hash that stays

Blocks from far back come in once an hour. -/

section Sample

/-- A block that neither extends the chain nor is ahead of it. -/
def staleBlock (id : String) : Message :=
  { type := .newBlock, payload := Block.toJson { hash := id } }

/-- An hour of the steady clock. -/
def hour : Int := 3600000000000

/-- What was an hour ago at a later time is at least an hour ago. -/
theorem hour_le_sub {s t now : Int} (hs : s ≤ t) (hlater : t + hour ≤ now) : hour ≤ now - s :=
  (Int.le_sub_left_of_add_le hlater).trans (Int.sub_le_sub_left hs now)

/-- The surroundings after so many hours. -/
def staleEnv (hours : Nat) : Env := { sampleEnv 0 with steady := hours * hour }

/-- Nobody is known to the scorer, and the first connection has been silent
since `t`. -/
structure Calm (t : Instant) (node : Node) : Prop where
  scores : node.peerScorer = {}
  ledger : node.blockchain = sampleStart
  times : ∀ s ∈ (node.connection 0).messageTimes, s ≤ t
  dedup : ∀ (key : String) (last : Instant), node.messageDedup[key]? = some last → last ≤ t

theorem isBanned_empty {key : String} : PeerScorer.isBanned key {} = false := by
  rw [PeerScorer.isBanned_eq, PeerScorer.standing, ExtTreeMap.getElem?_empty]
  rfl

/-- An hour later every message is admitted: no rate limit, no duplicate, no
ban. -/
theorem Calm.admits {t : Instant} (h : Calm t node) (hlater : t + hour ≤ env.steady)
    (msg : Message) : node.Admits (setupOf []) env 0 msg := by
  refine ⟨?_, ?_, ?_⟩
  · rw [Node.senderBanned, h.scores]
    exact isBanned_empty
  · -- all earlier messages are too old to count
    have hrecent : (node.connection 0).recentTimes env.steady = [env.steady] := by
      rw [Peer.recentTimes, List.dropWhile_append_of_pos]
      · simp
      · intro s hs
        have hsecond : (1000000000 : Int) < hour := by decide
        have hage := hsecond.trans_le (hour_le_sub (h.times s hs) hlater)
        exact decide_eq_true (Int.lt_sub_left_of_add_lt (Int.add_lt_of_lt_sub_right hage))
    rw [Node.senderLimited, Peer.isRateLimited, hrecent]
    rfl
  · -- and the same message was seen more than 90 seconds ago
    rintro ⟨-, -, hwindow⟩
    rw [inDedupWindow] at hwindow
    split at hwindow
    next last hlast =>
      have hage : inSeconds (env.steady - last) < 90 := of_decide_eq_true hwindow
      have hwindow : (90 : Int) * 1000000000 ≤ hour := by decide
      have hlate := hwindow.trans (hour_le_sub (h.dedup _ last hlast) hlater)
      exact absurd ((le_tdiv_iff (by decide) (by decide)).mpr hlate) (Int.not_le.mpr hage)
    next => cases hwindow

theorem Calm.received {t : Instant} (h : Calm t node) (hlater : t + hour ≤ env.steady)
    (msg : Message) : Calm env.steady (node.received (setupOf []) env 0 msg) := by
  have hle : t ≤ env.steady := (Int.le_add_of_nonneg_right (by decide)).trans hlater
  refine ⟨?_, h.ledger, fun s hs => ?_, fun key last hlast => ?_⟩
  · show node.peerScorer.markSeen _ _ = {}
    rw [h.scores, PeerScorer.markSeen, ExtTreeMap.getElem?_empty]
  · have hcounted : ((node.counted env 0).connection 0).messageTimes =
        (node.connection 0).recentTimes env.steady :=
      congrArg Peer.messageTimes (updatePeer_connection.trans (if_pos rfl))
    change s ∈ ((node.counted env 0).connection 0).messageTimes at hs
    rw [hcounted] at hs
    -- one of the earlier times, or the one just counted
    rcases List.mem_append.mp ((List.dropWhile_sublist _).mem hs) with hs | hs
    · exact (h.times s hs).trans hle
    · exact (List.mem_singleton.mp hs).le
  · change (node.remembered (setupOf []) env msg)[key]? = some last at hlast
    unfold Node.remembered at hlast
    split at hlast
    · exact (h.dedup key last hlast).trans hle
    · have hinsert := (getElem?_filter_eq_some.mp hlast).1
      rw [getElem?_insert_eq] at hinsert
      split at hinsert
      · cases hinsert
        exact le_rfl
      · exact (h.dedup key last hinsert).trans hle

/-- A stale block is looked up, and that is all. -/
theorem Calm.onNewBlock {t : Instant} {key id : String} (h : Calm t node) :
    ∃ node', NodeM.onNewBlock (setupOf []) env 0 key (staleBlock id).payload [] node =
      (.returned (), node') ∧ Calm t node' := by
  have hblock : Block.fromJson (setupOf []).cfg.crypto (staleBlock id).payload =
      .ok { hash := id } := Block.fromJson_toJson _ _
  cases hold : node.seenBlockHashes.contains id with
  | true => exact ⟨node, onNewBlock_old hblock hold, h⟩
  | false =>
    have hsee : Calm t (node.see .block id) := ⟨h.scores, h.ledger, h.times, h.dedup⟩
    refine ⟨node.see .block id, ?_, hsee⟩
    -- index 0 is not the next one, and not ahead of the chain
    have hoffer : offerBlock (setupOf []) env 0 { hash := id } [] (node.see .block id) =
        (.returned false, node.see .block id) := by
      have hchain : getChain [] (node.see .block id) =
          (.returned sampleStart.chain, node.see .block id) := by
        rw [← hsee.ledger]
        rfl
      rw [offerBlock, bind_run hchain]
      rfl
    rw [onNewBlock_new hblock hold]
    exact attempt_run ((bind_run hoffer).trans rfl)

theorem Calm.step {t : Instant} (h : Calm t node) (hlater : t + hour ≤ env.steady) (id : String) :
    ∃ node', nodeStep (setupOf []) (.input env (.message 0 (staleBlock id))) node =
      some ((), node') ∧ Calm env.steady node' := by
  obtain ⟨mid, hmid, hcalm⟩ := @Calm.onNewBlock env _ env.steady (node.connection 0).getEndpoint id
    (h.received hlater (staleBlock id))
  refine ⟨mid.refreshed, ?_, hcalm.scores, hcalm.ledger, hcalm.times, hcalm.dedup⟩
  refine handlerReturned_eq_some.mpr ?_
  show handleMessage (setupOf []) env 0 (staleBlock id) [] node = _
  rw [handleMessage_admitted (h.admits hlater _)]
  exact (bind_run hmid).trans rfl

/-- Any hashes can come in, one after the other. -/
theorem Calm.run {start : Node} {tr : List (Entry Node NodeEvent Unit)} {hours : Nat}
    (h : NodeRun (setupOf []) start tr node) (hcalm : Calm (hours * hour) node)
    (ids : List String) :
    ∃ tr' node', NodeRun (setupOf []) start tr' node' ∧
      handledIds (setupOf []) .block tr' = handledIds (setupOf []) .block tr ++ ids := by
  induction ids generalizing tr node hours with
  | nil => exact ⟨tr, node, h, (List.append_nil _).symm⟩
  | cons id ids ih =>
    -- each message comes an hour after the one before
    have hlater : (hours * hour + hour : Instant) ≤ (staleEnv (hours + 1)).steady := by
      show _ ≤ ((hours + 1 : Nat) : Int) * hour
      push_cast
      rw [Int.add_mul, Int.one_mul]
    obtain ⟨next, hstep, hnext⟩ := hcalm.step hlater id
    obtain ⟨tr', node', hrun, hids⟩ := ih (h.snoc hstep) hnext
    refine ⟨tr', node', hrun, ?_⟩
    have hitem : NodeEvent.handles (setupOf []) node .block
        (.input (staleEnv (hours + 1)) (.message 0 (staleBlock id))) = some id :=
      if_pos (hcalm.admits hlater _)
    rw [hids, handledIds, List.filterMap_append, ← handledIds]
    simp [hitem]

/-- The node that listens. -/
def listening : Node := Node.create (setupOf []) [] sampleStart none

/-- A peer connects and sends blocks. -/
theorem handledIds_run (ids : List String) :
    ∃ tr node, NodeRun (setupOf []) listening tr node ∧
      handledIds (setupOf []) .block tr = ids := by
  obtain ⟨node, hstep, hscores, hledger, htimes, hdedup⟩ : ∃ node, nodeStep (setupOf [])
      (.input (staleEnv 0) (.accepted (some ("10.0.0.2", 50000)))) listening = some ((), node) ∧
      node.peerScorer = {} ∧ node.blockchain = sampleStart ∧
      (node.connection 0).messageTimes = [] ∧ node.messageDedup = ∅ :=
    ⟨_, rfl, rfl, rfl, rfl, rfl⟩
  have hcalm : Calm ((0 : Nat) * hour) node :=
    ⟨hscores, hledger, by simp [htimes], by simp [hdedup]⟩
  exact hcalm.run (Run.nil.snoc hstep) ids

/-- "a", "aa", "aaa" and so on. -/
def repeatedA (k : Nat) : String := String.ofList (List.replicate (k + 1) 'a')

theorem repeatedA_injective : Function.Injective repeatedA := by
  intro j k h
  have hlength := congrArg List.length (String.ofList_injective h)
  simpa using hlength

/-- More letters come later in the order. -/
theorem repeatedA_lt {j k : Nat} (h : j < k) : repeatedA j < repeatedA k := by
  obtain ⟨d, rfl⟩ := Nat.exists_eq_add_of_lt h
  rw [String.lt_iff, repeatedA, repeatedA, String.toList_ofList, String.toList_ofList]
  calc List.replicate (j + 1) 'a'
      _ = List.replicate (j + 1) 'a' ++ [] := (List.append_nil _).symm
      _ < List.replicate (j + 1) 'a' ++ 'a' :: List.replicate d 'a' :=
        List.append_left_lt (List.nil_lt_cons _ _)
      _ = List.replicate (j + d + 1 + 1) 'a' := by
        rw [← List.replicate_succ, List.replicate_append_replicate]
        congr 1
        omega

theorem le_repeatedA (k : Nat) : "a" ≤ repeatedA k := by
  refine String.not_lt.mp fun h => ?_
  rw [String.lt_iff, repeatedA, String.toList_ofList, List.replicate_succ] at h
  simp at h

theorem ne_repeatedA (k : Nat) : "b" ≠ repeatedA k := by
  intro h
  have htoList := congrArg String.toList h
  rw [repeatedA, String.toList_ofList, List.replicate_succ] at htoList
  simp at htoList

/-- The hash that stays and the thousand that come after it. -/
def stayingHash : List String := "b" :: (List.range 1000).map repeatedA

theorem stayingHash_nodup : stayingHash.Nodup := by
  refine List.nodup_cons.mpr ⟨?_, List.nodup_range.map repeatedA_injective⟩
  rintro h
  obtain ⟨k, -, hk⟩ := List.mem_map.mp h
  exact ne_repeatedA k hk.symm

theorem recent_stayingHash :
    recent GossipKind.block.limit stayingHash = (List.range 1000).map repeatedA := by
  rw [stayingHash, ← List.singleton_append, recent_append]
  rw [List.length_map, List.length_range, GossipKind.limit]

theorem le_stayingHash : ∀ id ∈ stayingHash, "a" ≤ id := by
  intro id hid
  rcases List.mem_cons.mp hid with rfl | hid
  · decide
  · obtain ⟨k, -, rfl⟩ := List.mem_map.mp hid
    exact le_repeatedA k

end Sample

/-- The hash "b" comes in, and after it the hashes "a", "aa", "aaa" and so on:
when the thousandth of them is there, "a" is forgotten for it and not "b". -/
theorem seen_window_counterexample :
    ∃ tr node, NodeRun (setupOf []) listening tr node ∧
      handledIds (setupOf []) .block tr = stayingHash ∧
      ¬ Along (fun before e => SlidingWindow GossipKind.block.limit
        (handledIds (setupOf []) .block (before ++ [e])) (e.post.seen .block)) tr := by
  obtain ⟨tr, node, hrun, hids⟩ := handledIds_run stayingHash
  refine ⟨tr, node, hrun, hids, fun hwindows => ?_⟩
  have hkept := (along_window_iff hrun).mp hwindows stayingHash (hids ▸ List.prefix_rfl) "a" (by
    rw [recent_stayingHash]
    exact List.mem_map.mpr ⟨0, List.mem_range.mpr (by decide), rfl⟩)
  -- the least of them would be there, and all others with it
  have hall : stayingHash.toFinset ⊆ greatest 1000 stayingHash.toFinset := by
    intro id hid
    rcases (le_stayingHash id (List.mem_toFinset.mp hid)).eq_or_lt with rfl | hlt
    · exact hkept
    · exact greatest_upward hkept hid hlt
  have hcard := (Finset.card_le_card hall).trans card_greatest_le
  rw [List.toFinset_card_of_nodup stayingHash_nodup, stayingHash, List.length_cons,
    List.length_map, List.length_range] at hcard
  exact absurd hcard (by decide)

/-- Of 1200 hashes that rise, the sets hold the last thousand. -/
theorem seen_window_rising :
    ∃ tr node, NodeRun (setupOf []) listening tr node ∧
      handledIds (setupOf []) .block tr = (List.range 1200).map repeatedA ∧
      Along (fun before e => SlidingWindow GossipKind.block.limit
        (handledIds (setupOf []) .block (before ++ [e])) (e.post.seen .block)) tr := by
  obtain ⟨tr, node, hrun, hids⟩ := handledIds_run ((List.range 1200).map repeatedA)
  have hrises : ((List.range 1200).map repeatedA).Pairwise (· < ·) :=
    List.pairwise_map.mpr (List.pairwise_lt_range.imp repeatedA_lt)
  have hdistinct : ((List.range 1200).map repeatedA).Nodup :=
    List.nodup_range.map repeatedA_injective
  refine ⟨tr, node, hrun, hids, (seen_window_iff hrun (by rw [hids]; exact hdistinct)).mpr ?_⟩
  rw [hids]
  exact risesPast_of_pairwise hrises

end PersonalBlockchain
