import PersonalBlockchain.P2P.LedgerRuns

/-!
# Personal blockchain — what a closed network knows

A closed network: any number of nodes that take their steps in any order, and
get no message but what one of them has queued. Messages may be lost, held
back, repeated and handed to anyone.

`Origins` is what the transactions, blocks and chains in such a network may be.
When it is closed under decoding and under one block more, everything a node
does stays within it.

## Results

* `Covers.step` — one operation of the ledger stays within what is known;
* `backs_event` — so does one event of a node, with all it says;
* `Backed.step` — so does a step of the network, with whatever is still on its way.

The networks that follow differ in their origins only: blocks that were mined, parts
of one chain, chains up to a length.
-/

namespace PersonalBlockchain

open Machine Blockchain Locking Routine

/-! ## Origins -/

/-- The transactions, the single blocks and the chains that may be about. -/
structure Origins where
  txs : Set Transaction
  blocks : Set Block
  chains : Set (List Block)

namespace Origins

/-- With everything, what the decoder makes of its encoding, and with a chain
what the blocks that fit make of it. -/
structure Closed (C : Crypto) (K : Origins) : Prop where
  txs : ∀ tx ∈ K.txs, tx.reread C ∈ K.txs
  blocks : ∀ block ∈ K.blocks, block.reread C ∈ K.blocks
  chains : ∀ chain ∈ K.chains, chain.map (Block.reread C) ∈ K.chains
  extended : ∀ chain ∈ K.chains, ∀ block ∈ K.blocks,
    block.index = UInt64.ofNat chain.length → chain ++ [block] ∈ K.chains

/-- What is known only gets more. -/
structure GrowsTo (K K' : Origins) : Prop where
  txs : K.txs ⊆ K'.txs
  blocks : K.blocks ⊆ K'.blocks
  chains : K.chains ⊆ K'.chains

/-- A message with nothing in it but what is known. -/
structure Vouches (C : Crypto) (K : Origins) (msg : Message) : Prop where
  transaction : msg.type = .newTransaction →
    ∀ tx, Transaction.fromJson C msg.payload = .ok tx → tx ∈ K.txs
  block : msg.type = .newBlock → ∀ block, Block.fromJson C msg.payload = .ok block →
    block ∈ K.blocks
  chain : msg.type = .responseChain →
    ∀ chain, msg.payload.iterate.mapM (Block.fromJson C) = .ok chain → chain ∈ K.chains

/-- A ledger with nothing in it but what is known. -/
structure Covers (K : Origins) (bc : Blockchain) : Prop where
  mempool : ∀ tx ∈ bc.mempool, tx ∈ K.txs
  chain : bc.chain ∈ K.chains

/-- A node with nothing in its ledger or its queues but what is known. -/
structure Backs (C : Crypto) (K : Origins) (node : Node) : Prop where
  ledger : K.Covers node.blockchain
  queues : ∀ p, ∀ msg ∈ (node.connection p).writeQueue, K.Vouches C msg

variable {C : Crypto} {K K' : Origins}

theorem Vouches.mono {msg : Message} (h : K.Vouches C msg) (hK : K.GrowsTo K') :
    K'.Vouches C msg :=
  ⟨fun htype tx htx => hK.txs (h.transaction htype tx htx),
    fun htype block hblock => hK.blocks (h.block htype block hblock),
    fun htype chain hchain => hK.chains (h.chain htype chain hchain)⟩

theorem Backs.mono {node : Node} (h : K.Backs C node) (hK : K.GrowsTo K') : K'.Backs C node :=
  ⟨⟨fun tx htx => hK.txs (h.ledger.mempool tx htx), hK.chains h.ledger.chain⟩,
    fun p msg hmsg => (h.queues p msg hmsg).mono hK⟩

/-- A message without a cargo has nothing to vouch for. -/
theorem vouches_of_plain {msg : Message} (h : msg.hasCargo = false) : K.Vouches C msg := by
  refine ⟨fun htype => ?_, fun htype => ?_, fun htype => ?_⟩
  all_goals simp [Message.hasCargo, htype] at h

/-- A transaction that is known, in the form it is sent in. -/
theorem vouches_transaction (hclosed : K.Closed C) {tx : Transaction} (h : tx ∈ K.txs) :
    K.Vouches C ⟨.newTransaction, tx.toJson⟩ := by
  refine ⟨fun _ tx' htx' => ?_, nofun, nofun⟩
  obtain rfl := Except.ok.inj ((Transaction.fromJson_toJson C tx).symm.trans htx')
  exact hclosed.txs tx h

theorem vouches_block (hclosed : K.Closed C) {block : Block} (h : block ∈ K.blocks) :
    K.Vouches C ⟨.newBlock, block.toJson⟩ := by
  refine ⟨nofun, fun _ block' hblock' => ?_, nofun⟩
  obtain rfl := Except.ok.inj ((Block.fromJson_toJson C block).symm.trans hblock')
  exact hclosed.blocks block h

theorem vouches_chain (hclosed : K.Closed C) {chain : List Block} (h : chain ∈ K.chains) :
    K.Vouches C ⟨.responseChain, .array (chain.map Block.toJson)⟩ := by
  refine ⟨nofun, nofun, fun _ chain' hchain' => ?_⟩
  have hdecoded : (chain.map Block.toJson).mapM (Block.fromJson C) =
      .ok (chain.map (Block.reread C)) := mapM_encoded (Block.fromJson_toJson C) chain
  obtain rfl := Except.ok.inj (hdecoded.symm.trans hchain')
  exact hclosed.chains chain h

/-! ## One event -/

/-- An operation of the ledger with nothing in its arguments but what is known;
what it mines is known too, and the chain with it. -/
structure Allows (K : Origins) (cfg : NodeConfig) (now : TimePoint) (bc : Blockchain) (op : Op) :
    Prop where
  transaction : ∀ tx, op = .addTransaction tx → tx ∈ K.txs
  block : ∀ block, op = .acceptBlock block → block ∈ K.blocks
  chain : ∀ chain, op.offered cfg.crypto = some chain → chain ∈ K.chains
  mined : ∀ minerAddress block bc', op = .minePendingTransactions minerAddress →
    Mined cfg now minerAddress bc block bc' → bc'.chain ∈ K.chains

/-- **One operation of the ledger** with nothing in its arguments but what is
known leaves nothing else in the ledger. -/
theorem Covers.step {cfg : NodeConfig} {call : Call} {bc bc' : Blockchain} {r : Reply}
    (hclosed : K.Closed C) (h : K.Covers bc) (hop : K.Allows cfg call.now bc call.op)
    (hstep : step cfg call bc = some (r, bc')) : K.Covers bc' := by
  cases step_cases hstep with
  | unchanged => exact h
  | queued tx hcall _ =>
    refine ⟨fun tx' htx' => ?_, h.chain⟩
    rcases List.mem_append.mp htx' with hold | hnew
    · exact h.mempool tx' hold
    · rw [List.mem_singleton.mp hnew]
      exact hop.transaction tx hcall
  | mined minerAddress block _ hcall hm =>
    refine ⟨fun tx htx => ?_, hop.mined minerAddress block _ hcall hm⟩
    rw [hm.mempool] at htx
    exact h.mempool tx (List.mem_of_mem_drop htx)
  -- what comes from the network only takes out of the mempool
  | received block hcall hacc =>
    exact ⟨fun tx htx => h.mempool tx (List.mem_filter.mp htx).1,
      hclosed.extended _ h.chain block (hop.block block hcall) hacc.index⟩
  | adopted newChain _ hoffered _ =>
    exact ⟨fun tx htx => h.mempool tx (List.mem_filter.mp htx).1, hop.chain newChain hoffered⟩

/-- What a node may say keeps it backed, as long as its ledger is covered. -/
theorem Backs.utters {tells : Blockchain → Set Message} {node node' : Node} (h : K.Backs C node)
    (htells : ∀ bc, K.Covers bc → ∀ msg ∈ tells bc, K.Vouches C msg)
    (hutters : Utters tells node node') : K.Backs C node' := by
  refine ⟨hutters.blockchain.symm ▸ h.ledger, fun p msg hmsg => ?_⟩
  cases hcargo : msg.hasCargo with
  | false => exact vouches_of_plain hcargo
  | true =>
    rcases hutters.queues p msg hmsg hcargo with hold | hnew
    · exact h.queues p msg hold
    · exact htells _ h.ledger msg hnew

/-- An event that says what it may and calls the ledger for what is allowed
keeps the node backed. -/
theorem backs_around {S : NodeSetup} {now : TimePoint} {ops : Set Op}
    {tells : Blockchain → Set Message} {node node' : Node} (hclosed : K.Closed C)
    (h : K.Backs C node) (htells : ∀ bc, K.Covers bc → ∀ msg ∈ tells bc, K.Vouches C msg)
    (hops : ∀ op ∈ ops, K.Allows S.cfg now node.blockchain op)
    (haround : Around (Utters tells) (Operates S now ops) node node') : K.Backs C node' := by
  have hutters : ∀ {s s'}, K.Backs C s → Relation.ReflTransGen (Utters tells) s s' →
      K.Backs C s' := by
    intro s s' hs hsteps
    induction hsteps with
    | refl => exact hs
    | tail _ hstep ih => exact ih.utters htells hstep
  -- what is said before and after the call leaves the ledger alone
  rcases haround with hsteps | ⟨t, t', hbefore, ⟨⟨op, hop, r, hstep⟩, hsame⟩, hafter⟩
  · exact hutters h hsteps
  · have ht := hutters h hbefore
    have hallows : K.Allows S.cfg now t.blockchain op := by
      rw [utters_blockchain hbefore]
      exact hops op hop
    have hcovered : K.Covers t'.blockchain := Covers.step hclosed ht.ledger hallows hstep
    exact hutters ⟨hcovered, hsame.symm ▸ ht.queues⟩ hafter

/-- A mined block is what sealing gives. -/
theorem mined_eq {cfg : NodeConfig} {now : TimePoint} {minerAddress : String}
    {bc bc' bc'' : Blockchain} {block block' : Block}
    (h : Mined cfg now minerAddress bc block bc')
    (h' : Mined cfg now minerAddress bc block' bc'') : block = block' :=
  Option.some.inj (h.sealed.symm.trans h'.sealed)

/-- What a message asks for and may make a node say, when it is vouched for. -/
theorem backs_message {S : NodeSetup} {now : TimePoint} {msg : Message} {node node' : Node}
    (hclosed : K.Closed S.cfg.crypto) (h : K.Backs S.cfg.crypto node)
    (hmsg : K.Vouches S.cfg.crypto msg)
    (haround : Around (Utters (msg.tells S.cfg.crypto)) (Operates S now (msg.ops S.cfg.crypto))
      node node') : K.Backs S.cfg.crypto node' := by
  refine backs_around hclosed h (fun bc hbc said hsaid => ?_) (fun op hop => ?_) haround
  · unfold Message.tells at hsaid
    split at hsaid
    next htype =>
      -- passed on as it came, or encoded anew
      rcases hsaid with rfl | ⟨tx, htx, rfl⟩
      · exact ⟨fun _ => hmsg.transaction htype, nofun, nofun⟩
      · exact vouches_transaction hclosed (hmsg.transaction htype tx htx)
    next htype =>
      obtain rfl := hsaid
      exact ⟨nofun, fun _ => hmsg.block htype, nofun⟩
    next =>
      obtain rfl := hsaid
      exact vouches_chain hclosed hbc.chain
    next => exact absurd hsaid (Set.notMem_empty _)
  · unfold Message.ops at hop
    split at hop
    next htype =>
      obtain ⟨tx, htx, rfl⟩ := hop
      refine ⟨fun tx' heq => ?_, nofun, nofun, nofun⟩
      obtain rfl := Op.addTransaction.inj heq
      exact hmsg.transaction htype tx htx
    next htype =>
      obtain ⟨block, hblock, rfl⟩ := hop
      refine ⟨nofun, fun block' heq => ?_, nofun, nofun⟩
      obtain rfl := Op.acceptBlock.inj heq
      exact hmsg.block htype block hblock
    next htype =>
      obtain ⟨chain, hchain, rfl⟩ := hop
      refine ⟨nofun, nofun, fun chain' heq => ?_, nofun⟩
      obtain rfl : chain = chain' := Option.some.inj heq
      exact hmsg.chain htype chain hchain
    next => exact absurd hop (Set.notMem_empty _)

end Origins

/-- The message an event brings. -/
def NodeEvent.message : NodeEvent → Option Message
  | input _ (.message _ msg) => some msg
  | _ => none

namespace Origins

variable {C : Crypto} {K K' : Origins}

/-- **One event** keeps a node backed, when what it brings is known. -/
theorem backs_event {S : NodeSetup} {event : NodeEvent} {u : Unit} {node node' : Node}
    (hstep : nodeStep S event node = some (u, node')) (hclosed : K.Closed S.cfg.crypto)
    (h : K.Backs S.cfg.crypto node)
    (hmessage : ∀ msg ∈ event.message, K.Vouches S.cfg.crypto msg)
    (hsubmit : ∀ env tx, event = .submit env tx → tx ∈ K.txs)
    (hmine : ∀ env minerAddress, event = .mine env minerAddress → ∀ block,
      node'.blockchain.chain = node.blockchain.chain ++ [block] →
      block ∈ K.blocks ∧ node.blockchain.chain ++ [block] ∈ K.chains) :
    K.Backs S.cfg.crypto node' := by
  have haround := nodeStep_calls (event.clock.getD ⟨0, by decide⟩) hstep (by
    intro t ht
    rw [Option.mem_def.mp ht]
    rfl)
  -- a message, a submission and a mining may bring something new; the others only repeat
  cases event with
  | input env input =>
    cases input with
    | message p msg => exact backs_message hclosed h (hmessage msg rfl) haround
    | _ =>
      exact backs_around hclosed h (fun _ _ _ hsaid => absurd hsaid (Set.notMem_empty _))
        (fun _ hop => absurd hop (Set.notMem_empty _)) haround
  | submit env tx =>
    have htx := hsubmit env tx rfl
    refine backs_around hclosed h (fun bc _ said hsaid => ?_) (fun op hop => ?_) haround
    · obtain rfl := hsaid
      exact vouches_transaction hclosed htx
    · obtain rfl := hop
      refine ⟨fun tx' heq => ?_, nofun, nofun, nofun⟩
      obtain rfl := Op.addTransaction.inj heq
      exact htx
  | mine env minerAddress =>
    obtain ⟨block, hm⟩ := nodeStep_mines hstep
    obtain ⟨hblock, hchain⟩ := hmine env minerAddress rfl block hm.chain
    refine backs_around hclosed h (fun bc _ said hsaid => ?_) (fun op hop => ?_) haround
    · obtain ⟨outcome, houtcome, rfl⟩ := hsaid
      rw [← mined_eq hm (mine_spec houtcome).1]
      exact vouches_block hclosed hblock
    · obtain rfl := hop
      refine ⟨nofun, nofun, nofun, fun minerAddress' block' bc' heq hm' => ?_⟩
      obtain rfl := Op.minePendingTransactions.inj heq
      rw [hm'.chain, ← mined_eq hm hm']
      exact hchain
  | _ =>
    exact backs_around hclosed h (fun _ _ _ hsaid => absurd hsaid (Set.notMem_empty _))
      (fun _ hop => absurd hop (Set.notMem_empty _)) haround

end Origins

/-! ## The network -/

variable {ι : Type}

/-- What the network does to its nodes. -/
abbrev NetworkEntry (ι : Type) := Entry (ι → Node) (ι × NodeEvent) Unit

/-- What a node is sent has been in a queue before. -/
def Delivered (before : List (NetworkEntry ι)) (e : NetworkEntry ι) : Prop :=
  ∀ msg ∈ e.call.2.message, ∃ e' ∈ before, ∃ j q, msg ∈ ((e'.post j).connection q).writeQueue

/-- All nodes are backed, now and whenever a message was queued that may still
be on its way. -/
structure Backed (C : Crypto) (K : Origins) (tr : List (NetworkEntry ι)) (nodes : ι → Node) :
    Prop where
  nodes : ∀ i, K.Backs C (nodes i)
  before : ∀ e ∈ tr, ∀ i, K.Backs C (e.post i)

variable {C : Crypto} {K K' : Origins} {tr : List (NetworkEntry ι)} {e : NetworkEntry ι}

theorem Backed.mono {nodes : ι → Node} (h : Backed C K tr nodes) (hK : K.GrowsTo K') :
    Backed C K' tr nodes :=
  ⟨fun i => (h.nodes i).mono hK, fun e he i => (h.before e he i).mono hK⟩

/-- **One event of the network**, when what it brings from outside is known. -/
theorem Backed.step [DecidableEq ι] {S : ι → NodeSetup} (hC : ∀ i, (S i).cfg.crypto = C)
    (hclosed : K.Closed C) (h : Backed C K tr e.pre) (hdelivered : Delivered tr e)
    (hstep : each (fun i => nodeStep (S i)) e.call e.pre = some (e.ret, e.post))
    (hsubmit : ∀ env tx, e.call.2 = .submit env tx → tx ∈ K.txs)
    (hmine : ∀ env minerAddress, e.call.2 = .mine env minerAddress → ∀ block,
      (e.post e.call.1).blockchain.chain = (e.pre e.call.1).blockchain.chain ++ [block] →
      block ∈ K.blocks ∧ (e.pre e.call.1).blockchain.chain ++ [block] ∈ K.chains) :
    Backed C K (tr ++ [e]) e.post := by
  obtain ⟨hlocal, hothers⟩ := each_eq_some hstep
  have hnodes : ∀ j, K.Backs C (e.post j) := by
    intro j
    by_cases hj : j = e.call.1
    · subst hj
      have hlast := Origins.backs_event hlocal (hC e.call.1 ▸ hclosed) (hC e.call.1 ▸ h.nodes _)
      rw [hC e.call.1] at hlast
      refine hlast ?_ hsubmit hmine
      -- the message was in a queue that was backed
      intro msg hcall
      obtain ⟨e', he', k, q, hmsg⟩ := hdelivered msg hcall
      exact (h.before e' he' k).queues q msg hmsg
    · rw [hothers j hj]
      exact h.nodes j
  refine ⟨hnodes, fun e' he' j => ?_⟩
  rcases List.mem_append.mp he' with he' | he'
  · exact h.before e' he' j
  · rw [List.mem_singleton.mp he']
    exact hnodes j

/-- New nodes, with nothing queued, on ledgers that are covered. -/
theorem Backed.create {S : ι → NodeSetup} {bootstrapNodes : ι → List String}
    {start : ι → Blockchain} {storage : ι → Option DataDir} (h : ∀ i, K.Covers (start i)) :
    Backed C K [] fun i => Node.create (S i) (bootstrapNodes i) (start i) (storage i) :=
  ⟨fun i => ⟨h i, fun _ _ hmsg => absurd hmsg List.not_mem_nil⟩,
    fun _ he => absurd he List.not_mem_nil⟩

/-! ## Samples

For a run of a few nodes with a few connections it can be computed whether the
network was closed. -/

section Sample

deriving instance DecidableEq for Message

/-- What a node is sent was in the queue of one of these connections. -/
def DeliveredOver (connections : List (ι × PeerId)) (before : List (NetworkEntry ι))
    (e : NetworkEntry ι) : Prop :=
  ∀ msg ∈ e.call.2.message, ∃ e' ∈ before, ∃ c ∈ connections,
    msg ∈ ((e'.post c.1).connection c.2).writeQueue

instance {connections : List (ι × PeerId)} {before : List (NetworkEntry ι)} {e : NetworkEntry ι} :
    Decidable (DeliveredOver connections before e) := by
  unfold DeliveredOver
  infer_instance

/-- What comes over one of these connections has been in a queue. -/
theorem delivered_of_over {connections : List (ι × PeerId)}
    (h : Along (DeliveredOver connections) tr) : Along Delivered tr := by
  intro before e after heq msg hmsg
  obtain ⟨e', he', c, -, hqueue⟩ := h before e after heq msg hmsg
  exact ⟨e', he', c.1, c.2, hqueue⟩

end Sample

end PersonalBlockchain
