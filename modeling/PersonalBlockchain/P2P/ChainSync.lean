import PersonalBlockchain.Codec.JsonDump
import PersonalBlockchain.Ledger.ChangeStamp
import PersonalBlockchain.P2P.Emissions
import PersonalBlockchain.Storage.Restart

/-!
# Personal blockchain — a whole chain in one message

A node answers REQUEST_CHAIN with all its blocks in a single frame. The sender
has no limit for a frame, the reader closes the connection on more than 10 MB,
and a chain only ever grows: from some length on it reaches nobody any more.

`responseSize` is the length of the body, computed from the blocks.

Main result: `chain_sync_iff`.
-/

namespace PersonalBlockchain

open FileSwap Framing Locking Machine NodeM Routine Blockchain

/-- The answer to a REQUEST_CHAIN. -/
def responseChain (chain : List Block) : Message where
  type := .responseChain
  payload := .array (chain.map Block.toJson)

theorem onRequestChain_run (p : PeerId) (node : Node) :
    onRequestChain p [] node = (.returned (),
      node.updatePeer p fun peer => peer.send (responseChain node.blockchain.chain)) := rfl

/-! ## How long the answer is -/

/-- The bytes of the answer; what is not the chain is the constant part. -/
def responseSize (chain : List Block) : Nat := 36 + arraySize (chain.map Block.textSize)

/-- `responseSize` is the length of the text that the node sends. -/
theorem length_responseChain (float : ℚ → List Char) (parse : List Int8 → Option Json)
    (chain : List Block) :
    ((nlohmann float parse).dump (responseChain chain).toJson).length = responseSize chain := by
  -- the two keys and the type, each with its quotes
  have hkeys : ["payload", "type", "RESPONSE_CHAIN"].map quotedSize = [9, 6, 16] := by
    decide +kernel
  have hblocks : (chain.map Block.toJson).map (fun j => utf8Size (j.dump float)) =
      chain.map Block.textSize := by
    rw [List.map_map]
    exact List.map_congr_left fun b _ => b.utf8Size_dump float
  simp only [List.map_cons, List.map_nil, List.cons.injEq, and_true] at hkeys
  show (textBytes ((responseChain chain).toJson.dump float)).length = _
  rw [length_textBytes, Message.toJson, Json.utf8Size_object]
  simp only [List.map_cons, List.map_nil, responseChain, Json.utf8Size_array, hblocks,
    MessageType.typeToString, Json.utf8Size_string, hkeys]
  rw [arraySize, responseSize]
  simp only [List.sum_cons, List.sum_nil, List.length_cons, List.length_nil]
  omega

/-- A block has a hundred bytes at least. -/
theorem responseSize_ge (chain : List Block) : 100 * chain.length ≤ responseSize chain := by
  have hsum : 100 * chain.length ≤ (chain.map Block.textSize).sum := by
    induction chain with
    | nil => exact Nat.le_refl 0
    | cons b chain ih =>
      have hb : 100 ≤ b.textSize := by
        unfold Block.textSize
        omega
      simp only [List.length_cons, List.map_cons, List.sum_cons]
      omega
  unfold responseSize arraySize
  omega

/-! ## From one node to the other -/

/-- A chain gets through: the frame says how long its body is and stays below
the limit of the reader, the reader hands on the message, whatever follows it,
and a node that admits the message calls `replaceChain` with the whole chain. -/
structure GetsThrough (T : JsonText) (chain : List Block) : Prop where
  framed : ∃ b0 b1 b2 b3 body, (responseChain chain).serialize T = b0 :: b1 :: b2 :: b3 :: body ∧
    (bodyLength b0 b1 b2 b3).toNat = body.length ∧ body.length ≤ 10 * 1024 * 1024
  handed : ∀ rest, doReadHeader T ((responseChain chain).serialize T ++ rest) =
    responseChain chain :: doReadHeader T rest
  replaces : ∀ (S : NodeSetup) (env : Env) (p : PeerId) (node : Node), node.Limited S →
    node.Admits S env p (responseChain chain) →
    (handleMessage S env p (responseChain chain) [] node).2.blockchain =
      (node.blockchain.replaceChain S.cfg env.now chain).node

/-- Blocks that were filled in are read back as they are. -/
theorem decoded_of_filled (C : Crypto) {chain : List Block} (h : ∀ b ∈ chain, b.Filled) :
    (responseChain chain).payload.iterate.mapM (Block.fromJson C) = .ok chain := by
  have hchain : chain.map (Block.reread C) = chain :=
    (List.map_congr_left fun b hb => Block.reread_of_filled C (h b hb)).trans (List.map_id _)
  have hdecoded := mapM_encoded (Block.fromJson_toJson C) chain
  rwa [hchain] at hdecoded

/-- The chain in an answer is offered to the ledger, and what comes after that
call does not call the ledger again. -/
theorem onResponseChain_replaces {S : NodeSetup} {env : Env} {key : String} {node : Node}
    {payload : Json} {newChain : List Block}
    (hdecoded : payload.iterate.mapM (Block.fromJson S.cfg.crypto) = .ok newChain) :
    (onResponseChain S env key payload [] node).2.blockchain =
      (node.blockchain.replaceChain S.cfg env.now newChain).node := by
  have hkeeps : ∀ s s', Utters (fun _ => ∅) s s' →
      s.blockchain = (node.blockchain.replaceChain S.cfg env.now newChain).node →
      s'.blockchain = (node.blockchain.replaceChain S.cfg env.now newChain).node :=
    fun _ _ hstep hs => hstep.blockchain.trans hs
  -- once decoded, only the call of the ledger and the peer's score are left
  have hoffers : onResponseChain S env key payload = attempt
      (do
        let replaced ← callLedger S fun bc => bc.replaceChain S.cfg env.now newChain
        if replaced then rewardPeerByEndpoint key PeerScorer.rewardValidBlock)
      (penalizePeerByEndpoint S env key PeerScorer.penaltyInvalidBlock) := by
    rw [onResponseChain, hdecoded]
    rfl
  rw [hoffers]
  refine Within.attempt_after hkeeps (Within.bind_after hkeeps ?_ fun replaced => ?_)
    penalizePeerByEndpoint_plain
  · exact callLedger_leaves
  · exact .ite rewardPeerByEndpoint_plain (.pure _)

/-- The parts of `GetsThrough` that follow when the body is short enough. -/
theorem getsThrough_of_le {T : JsonText} {chain : List Block} (hfilled : ∀ b ∈ chain, b.Filled)
    (hparse : T.parse (T.dump (responseChain chain).toJson) = some (responseChain chain).toJson)
    (hle : (T.dump (responseChain chain).toJson).length ≤ maxBodyLength) :
    GetsThrough T chain := by
  refine ⟨⟨_, _, _, _, _, rfl, ?_, hle⟩, fun rest => ?_, fun S env p node _ hadmits => ?_⟩
  -- the length fits in the four bytes of the header
  · rw [bodyLength_lengthPrefix]
    exact UInt32.toNat_ofNat_of_lt' (Nat.lt_of_le_of_lt hle (by decide))
  · have hhandled : handled T (T.dump (responseChain chain).toJson) =
        some (responseChain chain) := by
      rw [handled, Message.deserialize_dump T hparse]
      exact if_neg (by simp [responseChain])
    have hframe : (responseChain chain).serialize T =
        wireHeader.frame (T.dump (responseChain chain).toJson) := rfl
    rw [doReadHeader_eq, hframe, split_frame_append wireHeader hle, List.filterMap_cons, hhandled,
      ← doReadHeader_eq]
  · -- neither the handler nor the case throws
    obtain ⟨u, hreturns⟩ := (message_handled_iff S env p (responseChain chain) node).mpr
      ⟨hadmits.unbanned, .inr (.inr rfl)⟩
    obtain ⟨mid, hdispatch, hlast⟩ := handleMessage_returned hadmits (Prod.ext hreturns rfl)
    have hledger : mid.blockchain = (node.blockchain.replaceChain S.cfg env.now chain).node :=
      (congrArg (fun r => r.2.blockchain) hdispatch).symm.trans
        (onResponseChain_replaces (decoded_of_filled S.cfg.crypto hfilled))
    exact (congrArg Node.blockchain hlast).trans hledger

/-- A frame that states the length of its body has the text as its body. -/
theorem GetsThrough.length_le {T : JsonText} {chain : List Block} (h : GetsThrough T chain) :
    (T.dump (responseChain chain).toJson).length ≤ 10 * 1024 * 1024 := by
  obtain ⟨b0, b1, b2, b3, body, hbytes, -, hle⟩ := h.framed
  have hsplit : lengthPrefix (UInt32.ofNat (T.dump (responseChain chain).toJson).length) ++
      T.dump (responseChain chain).toJson = [b0, b1, b2, b3] ++ body := hbytes
  rwa [(List.append_inj hsplit rfl).2]

/-- **Chain sync.** In every run of a node that starts on an empty data directory,
with what enters decoded, sent or mined: it answers REQUEST_CHAIN with its whole
chain, and the chain gets through to a peer exactly when its text and the 36 bytes
around it are not more than 10 MB. -/
theorem chain_sync_iff {cfg : NodeConfig} {now : TimePoint} {difficulty : UInt32}
    {r₀ : StoredReply} {start node : StoredNode} {tr : List StoredEntry}
    {float : ℚ → List Char} {parse : List Int8 → Option Json}
    (hstart : construct cfg now difficulty {} = some (r₀, start))
    (hrun : Run (storedStep cfg) start tr node)
    (hentered : ∀ e ∈ tr, e.call.Entered cfg.crypto)
    (hparse : parse ((nlohmann float parse).dump (responseChain node.bc.chain).toJson) =
      some (responseChain node.bc.chain).toJson) :
    (∀ sender : Node, sender.blockchain = node.bc → ∀ p,
      onRequestChain p [] sender = (.returned (),
        sender.updatePeer p fun peer => peer.send (responseChain node.bc.chain))) ∧
    (GetsThrough (nlohmann float parse) node.bc.chain ↔
      responseSize node.bc.chain ≤ 10 * 1024 * 1024) := by
  have hfilled := (mirrored_run (mirrored_start hstart) hrun hentered).chain
  have hlength := length_responseChain float parse node.bc.chain
  refine ⟨fun sender hsender p => ?_, fun hthrough => ?_, fun hle => ?_⟩
  · rw [onRequestChain_run, hsender]
  · exact hlength.ge.trans hthrough.length_le
  · exact getsThrough_of_le hfilled hparse (hlength.le.trans hle)

/-! ## A chain of 105000 blocks -/

section Sample

/-- A parser that reads one text. -/
def parseOnly (j : Json) (data : List Int8) : Option Json :=
  if data = textBytes (j.dump fun _ => []) then some j else none

/-- Any number of blocks can be mined over a data directory. -/
theorem exists_stored_minings (n : Nat) :
    ∃ tr node, Run (storedStep sampleConfig) storedStart tr node ∧
      (∀ e ∈ tr, e.call.Entered sampleConfig.crypto) ∧ node.bc.difficulty = 0 ∧
      node.bc.chain.length = n + 1 := by
  induction n with
  | zero => exact ⟨[], storedStart, Run.nil, by simp, rfl, rfl⟩
  | succ n ih =>
    -- at difficulty zero the next block is found at once, and it is stored as it is found
    obtain ⟨tr, node, hrun, hentered, hdifficulty, hlength⟩ := ih
    obtain ⟨block, r, bc, hstep, -, hdifficulty', hchain⟩ :=
      @exists_mining sampleConfig rfl node.bc hdifficulty
    have hstored : storedStep sampleConfig
        (.ledger ⟨sampleTime 0, .minePendingTransactions sampleMiner⟩) node =
        some (store sampleConfig.crypto r.effects bc node.dir) := by
      rw [storedStep, hstep]
      rfl
    refine ⟨_, _, hrun.snoc hstored, ?_, hdifficulty', ?_⟩
    · rw [List.forall_mem_append, List.forall_mem_singleton]
      exact ⟨hentered, trivial⟩
    · show bc.chain.length = _
      rw [hchain, List.length_append, hlength]
      rfl

end Sample

/-- A node mines 105000 blocks, and its chain does not get through. -/
theorem chain_sync_counterexample :
    ¬ ∀ (cfg : NodeConfig) (now : TimePoint) (difficulty : UInt32) (r₀ : StoredReply)
      (start node : StoredNode) (tr : List StoredEntry) (float : ℚ → List Char)
      (parse : List Int8 → Option Json),
      construct cfg now difficulty {} = some (r₀, start) → Run (storedStep cfg) start tr node →
      (∀ e ∈ tr, e.call.Entered cfg.crypto) →
      parse ((nlohmann float parse).dump (responseChain node.bc.chain).toJson) =
        some (responseChain node.bc.chain).toJson →
      GetsThrough (nlohmann float parse) node.bc.chain := by
  intro h
  obtain ⟨tr, node, hrun, hentered, -, hlength⟩ := exists_stored_minings 105000
  have hthrough := h _ _ _ _ _ node tr (fun _ => [])
    (parseOnly (responseChain node.bc.chain).toJson) storedStart_constructed hrun hentered
    (if_pos rfl)
  have hle := hthrough.length_le
  have hsize := responseSize_ge node.bc.chain
  rw [length_responseChain] at hle
  omega

/-- A node mines a block, and its chain gets through. -/
theorem chain_sync_mined :
    ∃ tr node, Run (storedStep sampleConfig) storedStart tr node ∧
      node.bc.chain = [sampleGenesis, sampleBlock1] ∧
      GetsThrough (nlohmann (fun _ => []) (parseOnly (responseChain node.bc.chain).toJson))
        node.bc.chain := by
  obtain ⟨tr, node, hrun, hentered, hchain⟩ := Run.exists_of_exec_calls (storedStep sampleConfig)
    [.ledger ⟨sampleTime 0, .minePendingTransactions sampleMiner⟩] storedStart
    (fun r => r.2.bc.chain = [sampleGenesis, sampleBlock1]) (by decide +kernel)
    (P := StoredOp.Entered sampleConfig.crypto) (by simp [StoredOp.Entered, Op.Entered])
  refine ⟨tr, node, hrun, of_decide_eq_true hchain, ?_⟩
  refine (chain_sync_iff storedStart_constructed hrun hentered (if_pos rfl)).2.mpr ?_
  rw [of_decide_eq_true hchain]
  decide +kernel

end PersonalBlockchain
