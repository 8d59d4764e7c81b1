import PersonalBlockchain.Ledger.Refinement
import PersonalBlockchain.Model.HttpServer
import PersonalBlockchain.Model.Validity
import PersonalBlockchain.Storage.LevelDBManager

/-!
# Personal blockchain — a restart is transparent

A node over its storage: every operation makes the calls to the storage that
its effects say, and the constructor loads what the file holds. Blocks and
transactions come in through the JSON decoders, the HTTP send handler or local
mining, and none of these leaves anything for the decoder to fill in, so what
is written is read back unchanged. Appending and saving agree because a block
is only ever put on top of the chain that is stored.

`Mirrored` is the invariant: the file holds the chain in memory, and all of it is
filled.

## Results

* `storedStep_spec` — an operation throws nothing and keeps file and memory together;
* `construct_valid` — over a valid chain the constructor rebuilds the same ledger;
* `restart_transparent` — so it is along every run from an empty data directory, and a
  restart after it gives the same chain and the same maps.
-/

namespace PersonalBlockchain

open FileSwap Machine Blockchain LevelDBManager

/-- A node and its data directory. -/
structure StoredNode where
  bc : Blockchain
  dir : DataDir

/-- The effects that go to the storage. -/
def Effect.isStorage : Effect → Bool
  | .saveChain _ | .appendBlock _ => true
  | _ => false

/-- The storage calls among the effects of an operation, in order. An
exception of `appendBlock` leaves the operation. -/
def persist (C : Crypto) : List Effect → DataDir → Option JsonError × DataDir
  | [], dir => (none, dir)
  | .saveChain chain :: effects, dir => persist C effects (run (saveChain chain) dir).2
  | .appendBlock block :: effects, dir =>
    match appendBlock C block dir with
    | .ok program => persist C effects (run program dir).2
    | .error e => (some e, dir)
  | _ :: effects, dir => persist C effects dir

/-- The effects of a completed operation and the exception that left it. -/
structure StoredReply where
  effects : List Effect
  threw : Option JsonError

/-- The end of an operation that leaves the ledger `bc`. -/
def store (C : Crypto) (effects : List Effect) (bc : Blockchain) (dir : DataDir) :
    StoredReply × StoredNode :=
  (⟨effects, (persist C effects dir).1⟩, ⟨bc, (persist C effects dir).2⟩)

/-- What the constructor of a `Blockchain` gets from the storage. -/
def persistedChain (C : Crypto) (dir : DataDir) : Option (List Block) :=
  if hasPersistedChain dir then some (loadChain C dir) else none

/-- A `LevelDBManager` and a `Blockchain` are constructed over a directory. -/
def construct (cfg : NodeConfig) (now : TimePoint) (difficulty : UInt32) (dir : DataDir) :
    Option (StoredReply × StoredNode) :=
  let dir := (run recoverTempFiles dir).2
  (Blockchain.create cfg now difficulty (persistedChain cfg.crypto dir)).map fun out =>
    store cfg.crypto out.effects out.node dir

/-- The operations of a node over its storage. -/
inductive StoredOp
  | ledger (call : Call)
  /-- `persistChain`, at shutdown -/
  | persistChain
  | restart (now : TimePoint) (difficulty : UInt32)

/-- One operation of a node over its storage. -/
def storedStep (cfg : NodeConfig) (op : StoredOp) (node : StoredNode) :
    Option (StoredReply × StoredNode) :=
  match op with
  | .ledger call =>
    (step cfg call node.bc).map fun r => store cfg.crypto r.1.effects r.2 node.dir
  | .persistChain => some (store cfg.crypto [.saveChain node.bc.chain] node.bc node.dir)
  | .restart now difficulty => construct cfg now difficulty node.dir

/-- An operation in a run. -/
abbrev StoredEntry := Entry StoredNode StoredOp StoredReply

/-- The ways a block or a transaction comes in: decoded from JSON, or checked
by the HTTP send handler in whatever state. -/
def Op.Entered (C : Crypto) : Op → Prop
  | .addTransaction tx => (∃ j, Transaction.fromJson C j = .ok tx) ∨
      ∃ now knownAddresses bc j, HttpServer.sendRequest C now knownAddresses bc j = .ok tx
  | .acceptBlock block => ∃ j, Block.fromJson C j = .ok block
  | .replaceChain newChain => ∃ items : List Json, items.mapM (Block.fromJson C) = .ok newChain
  | .minePendingTransactions _ | .chainFromJson _ => True

/-- Whatever comes in with an operation has come in one of these ways. -/
def StoredOp.Entered (C : Crypto) : StoredOp → Prop
  | .ledger call => call.op.Entered C
  | .persistChain | .restart _ _ => True

/-- What holds after every operation: no temporary file, the chain of memory in
the file, nothing in chain or mempool that the decoder would fill in, and the
maps of the chain. -/
structure Mirrored (node : StoredNode) : Prop where
  noTmp : node.dir.tmp = none
  stored : Holds node.bc.chain node.dir
  chain : ∀ block ∈ node.bc.chain, block.Filled
  pending : ∀ tx ∈ node.bc.mempool, tx.Filled
  tipIndex : node.bc.tip.index + 1 = UInt64.ofNat node.bc.chain.length
  ledger : LedgerMatches node.bc

/-! ## What comes in is filled -/

theorem coinbaseFor_filled (C : Crypto) (now : TimePoint) (minerAddress : String) :
    (coinbaseFor C now minerAddress).Filled :=
  ⟨fun _ => Or.inr rfl, fun _ => rfl, fun h => absurd (show kBlockReward = 0 from h) (by decide)⟩

theorem genesis_filled {C : Crypto} {difficulty : UInt32} {genesis : Block}
    (h : Block.createGenesis C difficulty = some genesis) : genesis.Filled := by
  intro tx htx
  rw [(Block.createGenesis_spec h).2.1, List.mem_singleton] at htx
  subst htx
  exact ⟨fun _ => Or.inr rfl, fun _ => rfl,
    fun h => absurd (show (50 : UInt64) = 0 from h) (by decide)⟩

theorem Op.Entered.transaction_filled {C : Crypto} {op : Op} {tx : Transaction}
    (h : op.Entered C) (hop : op = .addTransaction tx) : tx.Filled := by
  subst hop
  -- gossiped, or built from a request
  rcases h with ⟨j, hdecode⟩ | ⟨now, knownAddresses, bc, j, hsend⟩
  · exact Transaction.fromJson_filled hdecode
  · exact HttpServer.sendRequest_filled hsend

theorem Op.Entered.block_filled {C : Crypto} {op : Op} {block : Block} (h : op.Entered C)
    (hop : op = .acceptBlock block) : block.Filled := by
  subst hop
  obtain ⟨j, hdecode⟩ := h
  exact Block.fromJson_filled hdecode

theorem Op.Entered.chain_filled {C : Crypto} {op : Op} {newChain : List Block}
    (h : op.Entered C) (hop : op.offered C = some newChain) :
    ∀ block ∈ newChain, block.Filled := by
  -- an offered chain has been decoded, here or by the caller
  have hdecoded : ∃ items : List Json, items.mapM (Block.fromJson C) = .ok newChain := by
    cases op with
    | replaceChain chain =>
      cases hop
      exact h
    | chainFromJson j =>
      rw [Op.offered] at hop
      cases hdecode : j.iterate.mapM (Block.fromJson C) with
      | error e =>
        rw [hdecode] at hop
        cases hop
      | ok chain =>
        rw [hdecode] at hop
        cases hop
        exact ⟨_, hdecode⟩
    | _ => cases hop
  obtain ⟨items, hitems⟩ := hdecoded
  exact mapM_ok_forall (fun _ _ => Block.fromJson_filled) hitems

/-- One call keeps the chain and the mempool filled. -/
theorem filled_step {cfg : NodeConfig} {call : Call} {bc bc' : Blockchain} {r : Reply}
    (hentered : call.op.Entered cfg.crypto) (hchain : ∀ block ∈ bc.chain, block.Filled)
    (hpending : ∀ tx ∈ bc.mempool, tx.Filled) (h : step cfg call bc = some (r, bc')) :
    (∀ block ∈ bc'.chain, block.Filled) ∧ ∀ tx ∈ bc'.mempool, tx.Filled := by
  cases step_cases h with
  | unchanged => exact ⟨hchain, hpending⟩
  | queued tx hop _ =>
    refine ⟨hchain, ?_⟩
    simp only [enqueue, List.forall_mem_append, List.forall_mem_singleton]
    exact ⟨hpending, hentered.transaction_filled hop⟩
  | mined minerAddress block _ _ hm =>
    rw [hm.chain, hm.mempool, List.forall_mem_append, List.forall_mem_singleton]
    refine ⟨⟨hchain, ?_⟩, fun tx htx => hpending tx (List.mem_of_mem_drop htx)⟩
    -- the reward, then what was pending
    intro tx htx
    rw [hm.transactions] at htx
    rcases List.mem_cons.mp htx with rfl | htx
    · exact coinbaseFor_filled _ _ _
    · exact hpending tx (List.mem_of_mem_take htx)
  | received block hop _ =>
    refine ⟨?_, fun tx htx => hpending tx (List.mem_filter.mp htx).1⟩
    simp only [receive, List.forall_mem_append, List.forall_mem_singleton]
    exact ⟨hchain, hentered.block_filled hop⟩
  | adopted newChain _ hop _ =>
    exact ⟨hentered.chain_filled hop, fun tx htx => hpending tx (List.mem_filter.mp htx).1⟩

/-! ## What an operation stores -/

theorem persist_callbacks (C : Crypto) {effects : List Effect} (dir : DataDir)
    (h : ∀ effect ∈ effects, effect.isStorage = false) : persist C effects dir = (none, dir) := by
  induction effects with
  | nil => rfl
  | cons effect effects ih =>
    obtain ⟨hfirst, hrest⟩ := List.forall_mem_cons.mp h
    cases effect with
    | saveChain chain => cases hfirst
    | appendBlock block => cases hfirst
    | _ => exact ih hrest

/-- The storage calls of a completed call, and what they are about. -/
inductive Stores (bc : Blockchain) : List Effect → Blockchain → Prop
  | nothing {effects : List Effect} {bc' : Blockchain} :
      bc'.chain = bc.chain → (∀ effect ∈ effects, effect.isStorage = false) →
      Stores bc effects bc'
  | append {block : Block} {effects : List Effect} {bc' : Blockchain} :
      bc'.chain = bc.chain ++ [block] → block.index = UInt64.ofNat bc.chain.length →
      block.previousHash = bc.tip.hash → (∀ effect ∈ effects, effect.isStorage = false) →
      Stores bc (.appendBlock block :: effects) bc'
  | save {newChain : List Block} {effects : List Effect} {bc' : Blockchain} :
      bc'.chain = newChain → bc'.tip.index + 1 = UInt64.ofNat newChain.length →
      (∀ effect ∈ effects, effect.isStorage = false) →
      Stores bc (.saveChain newChain :: effects) bc'

theorem ofNat_succ (n : Nat) : UInt64.ofNat n + 1 = UInt64.ofNat (n + 1) :=
  (UInt64.ofNat_add n 1).symm

/-- The last block of a valid chain of several blocks stands where it says. -/
theorem tipIndex_of_valid {C : Crypto} {chain : List Block} (hne : chain ≠ [])
    (hlength : 1 < chain.length) (h : isChainValid C chain = true) :
    (chain.getLast hne).index + 1 = UInt64.ofNat chain.length := by
  obtain ⟨front, last, rfl⟩ := (List.eq_nil_or_concat chain).resolve_left hne
  simp only [List.concat_eq_append, List.length_append, List.length_singleton,
    List.getLast_append_singleton] at hlength h ⊢
  obtain ⟨genesis, rest, rfl⟩ := List.exists_cons_of_length_pos (l := front) (by omega)
  rw [List.cons_append] at h
  have hpairs := (isChainValid_cons.mp h).2
  rw [AdjacentPairs.allPairs_append_singleton, Bool.and_eq_true, checkBlock_iff] at hpairs
  rw [hpairs.2.index, ofNat_succ, List.length_cons, Nat.add_comm 1]

theorem tip_congr {bc bc' : Blockchain} (h : bc'.chain = bc.chain) : bc'.tip = bc.tip := by
  simp [tip, h]

theorem tip_append {bc bc' : Blockchain} {block : Block} (h : bc'.chain = bc.chain ++ [block]) :
    bc'.tip = block := by
  simp [tip, h]

/-- Every completed call stores nothing, appends a block, or saves a chain. -/
theorem stores_step {cfg : NodeConfig} {call : Call} {bc bc' : Blockchain} {r : Reply}
    (h : step cfg call bc = some (r, bc')) : Stores bc r.effects bc' := by
  obtain ⟨now, op⟩ := call
  -- `chainFromJson` ends in `replaceChain`
  have hreplace : ∀ newChain, Stores bc (bc.replaceChain cfg now newChain).effects
      (bc.replaceChain cfg now newChain).node := by
    intro newChain
    rcases replaceChain_cases cfg now newChain bc with hrej | hado
    · rw [hrej]
      exact .nothing rfl (by simp [rejected, Effect.isStorage])
    · rw [replaceChain_of hado]
      -- a chain longer than a nonempty one has several blocks
      have hlength : 1 < newChain.length := by
        have hpos := List.length_pos_of_ne_nil bc.chain_ne
        have hlonger := prefersChain_iff.mp hado.preferred
        omega
      have htip := tipIndex_of_valid (ne_nil_of_validate hado.valid) hlength
        (validate_iff.mp hado.valid).1
      exact .save rfl htip (by simp [Effect.isStorage])
  cases op with
  | addTransaction tx =>
    cases h
    show Stores bc (bc.addTransaction cfg now tx).effects _
    rcases addTransaction_cases cfg now tx bc with hrej | ⟨-, hout⟩
    · rw [hrej]
      exact .nothing rfl (by simp [rejected, Effect.isStorage])
    · rw [hout]
      exact .nothing rfl (by simp [Effect.isStorage])
  | minePendingTransactions minerAddress =>
    simp only [step, Option.map_eq_some_iff] at h
    obtain ⟨out, hout, hr⟩ := h
    cases hr
    obtain ⟨hm, heffects⟩ := mine_spec hout
    show Stores bc out.effects out.node
    rw [heffects]
    -- the engine changes nonce and hash only
    have hsealed := sealBlock_spec hm.sealed
    exact .append hm.chain hsealed.2.1 hsealed.2.2.1 (by simp [Effect.isStorage])
  | acceptBlock block =>
    cases h
    show Stores bc (bc.acceptBlock cfg now block).effects _
    rcases acceptBlock_cases cfg now block bc with hrej | hacc
    · rw [hrej]
      exact .nothing rfl (by simp [rejected, Effect.isStorage])
    · rw [acceptBlock_of hacc]
      exact .append rfl hacc.index hacc.previousHash (by simp [Effect.isStorage])
  | replaceChain newChain =>
    cases h
    exact hreplace newChain
  | chainFromJson j =>
    cases h
    show Stores bc (bc.chainFromJson cfg now j).effects (bc.chainFromJson cfg now j).node
    rcases chainFromJson_cases cfg now j bc with
      ⟨e, -, hnode, heffects⟩ | ⟨newChain, -, -, heffects, hnode⟩
    · rw [hnode, heffects]
      exact .nothing rfl (by simp [Effect.isStorage])
    · rw [hnode, heffects]
      exact hreplace newChain

/-! ## Every operation keeps file and memory together -/

/-- What a block appended to the stored chain leaves is what saving the longer
chain would leave. -/
theorem appendBlock_mirrored (C : Crypto) {node : StoredNode} (h : Mirrored node) {block : Block}
    (hindex : block.index = UInt64.ofNat node.bc.chain.length)
    (hprevious : block.previousHash = node.bc.tip.hash) :
    appendBlock C block node.dir = .ok (saveChain (node.bc.chain ++ [block])) := by
  -- the check against the stored tip passes, since the stored tip is the tip
  rw [appendBlock_of_holds C block h.stored, if_pos]
  intro tip htip
  rw [List.getLast?_eq_some_getLast node.bc.chain_ne, Option.mem_some_iff] at htip
  subst htip
  exact ⟨hindex.trans h.tipIndex.symm, hprevious⟩

/-- The directory after a chain was saved. -/
def saved (chain : List Block) : DataDir := { file := some (chainText chain) }

theorem saveChain_run (chain : List Block) (dir : DataDir) :
    (run (saveChain chain) dir).2 = saved chain := by
  rw [saveChain, atomicWrite_run]
  rfl

/-- **One call of the ledger.** Nothing is thrown, and the file is left alone
or holds the new chain. -/
theorem store_step {cfg : NodeConfig} {call : Call} {node : StoredNode} {bc' : Blockchain}
    {r : Reply} (hI : Mirrored node) (hentered : call.op.Entered cfg.crypto)
    (h : step cfg call node.bc = some (r, bc')) :
    (store cfg.crypto r.effects bc' node.dir).1.threw = none ∧
      Mirrored (store cfg.crypto r.effects bc' node.dir).2 := by
  obtain ⟨hchain, hpending⟩ := filled_step hentered hI.chain hI.pending h
  have hledger := ledgerMatches_step hI.ledger h
  unfold store
  generalize heffects : r.effects = effects
  -- storage is called first and at most once, so the callbacks find it done
  have hstores : Stores node.bc effects bc' := heffects ▸ stores_step h
  cases hstores with
  | nothing hsame hnone =>
    rw [persist_callbacks _ _ hnone]
    refine ⟨rfl, hI.noTmp, ?_, hchain, hpending, ?_, hledger⟩
    · rw [hsame]
      exact hI.stored
    · rw [tip_congr hsame, hsame]
      exact hI.tipIndex
  | append hextended hindex hprevious hnone =>
    rw [persist, appendBlock_mirrored _ hI hindex hprevious]
    simp only [persist_callbacks _ _ hnone, saveChain_run]
    refine ⟨trivial, rfl, ?_, hchain, hpending, ?_, hledger⟩
    · rw [hextended]
      rfl
    · rw [tip_append hextended, hextended, hindex, List.length_append, ofNat_succ]
      rfl
  | save hreplaced htip hnone =>
    rw [persist, persist_callbacks _ _ hnone, saveChain_run]
    refine ⟨rfl, rfl, ?_, hchain, hpending, ?_, hledger⟩
    · rw [hreplaced]
      rfl
    · rw [hreplaced]
      exact htip

/-! ## Construction -/

/-- A node that has just mined its genesis block. -/
theorem mirrored_genesis {cfg : NodeConfig} {difficulty : UInt32} {genesis : Block}
    (h : Block.createGenesis cfg.crypto difficulty = some genesis) {bc : Blockchain}
    (hchain : bc.chain = [genesis]) (hmem : bc.mempool = []) (hledger : LedgerMatches bc) :
    Mirrored ⟨bc, saved [genesis]⟩ := by
  refine ⟨rfl, ?_, ?_, by simp [hmem], ?_, hledger⟩
  · rw [hchain]
    rfl
  · rw [hchain, List.forall_mem_singleton]
    exact genesis_filled h
  · have htip : bc.tip = genesis := by simp [tip, hchain]
    rw [htip, hchain, (Block.mineBlock_spec h).index]
    rfl

/-- Over a directory without a valid chain a fresh chain is mined and saved. -/
theorem construct_fresh {cfg : NodeConfig} {now : TimePoint} {difficulty : UInt32}
    {dir : DataDir} {r : StoredReply} {node : StoredNode}
    (hinvalid : validateChainAgainstConsensus cfg now
      ((persistedChain cfg.crypto (recovered dir)).getD []) = false)
    (h : construct cfg now difficulty dir = some (r, node)) :
    r.threw = none ∧ Mirrored node := by
  simp only [construct, recoverTempFiles_run, Option.map_eq_some_iff] at h
  obtain ⟨out, hout, hr⟩ := h
  have hstart : Starts cfg now difficulty (persistedChain cfg.crypto (recovered dir)) out.node := by
    rw [Starts, hout]
    rfl
  rw [Blockchain.create, dif_neg (by simp [hinvalid])] at hout
  -- what was persisted is dropped, and a genesis block is mined and saved
  split at hout
  · cases hout
  · rename_i genesis hgenesis
    cases hout
    simp only [store, persist, saveChain_run] at hr
    cases hr
    exact ⟨rfl, mirrored_genesis hgenesis rfl rfl (ledgerMatches_start hstart)⟩

/-- **Memory and file agree**: what is stored is read back as it was. -/
theorem Mirrored.loadChain_eq (C : Crypto) {node : StoredNode} (h : Mirrored node) :
    loadChain C node.dir = node.bc.chain := by
  rw [loadChain_of_holds C h.stored]
  exact List.map_congr_left (fun block hblock => Block.reread_of_filled C (h.chain block hblock))
    |>.trans (List.map_id _)

theorem Mirrored.persistedChain_eq (C : Crypto) {node : StoredNode} (h : Mirrored node) :
    persistedChain C node.dir = some node.bc.chain := by
  rw [persistedChain, if_pos (hasPersistedChain_of_holds node.bc.chain_ne h.stored),
    h.loadChain_eq]

/-- A valid chain comes back, and with it the maps of the ledger. -/
theorem construct_valid {cfg : NodeConfig} {now : TimePoint} {difficulty : UInt32}
    {node : StoredNode} (hI : Mirrored node)
    (hvalid : validateChainAgainstConsensus cfg now node.bc.chain = true) :
    ∃ r node', construct cfg now difficulty node.dir = some (r, node') ∧ r.threw = none ∧
      Mirrored node' ∧ node'.bc.chain = node.bc.chain ∧
      node'.bc.stateManager = node.bc.stateManager := by
  have hcreated : ((persistedChain cfg.crypto node.dir).getD []) = node.bc.chain := by
    rw [hI.persistedChain_eq]
    rfl
  refine ⟨⟨[], none⟩, ⟨{ node.bc with
      difficulty := difficulty
      mempool := []
      chainUpdateVersion := 1 }, node.dir⟩, ?_, rfl, ?_, rfl, rfl⟩
  · -- the maps are rebuilt from the chain, which is what they always were
    have hledger : node.bc.stateManager = StateManager.rebuildState {} node.bc.chain := hI.ledger
    simp only [construct, recoverTempFiles_run, recovered_of_noTmp hI.noTmp]
    rw [Blockchain.create, dif_pos (by rw [hcreated, hvalid])]
    simp only [hcreated, hledger]
    rfl
  · exact ⟨hI.noTmp, hI.stored, hI.chain, by simp, hI.tipIndex, hI.ledger⟩

/-- Construction over what a node left: its chain or a fresh one. -/
theorem construct_spec {cfg : NodeConfig} {now : TimePoint} {difficulty : UInt32}
    {node node' : StoredNode} {r : StoredReply} (hI : Mirrored node)
    (h : construct cfg now difficulty node.dir = some (r, node')) :
    r.threw = none ∧ Mirrored node' := by
  cases hvalid : validateChainAgainstConsensus cfg now node.bc.chain with
  | true =>
    obtain ⟨r', again, hagain, hthrew, hmirrored, -⟩ := construct_valid hI hvalid
    rw [h] at hagain
    cases hagain
    exact ⟨hthrew, hmirrored⟩
  | false =>
    refine construct_fresh ?_ h
    rw [recovered_of_noTmp hI.noTmp, hI.persistedChain_eq]
    exact hvalid

/-! ## Whole runs -/

theorem mirrored_start {cfg : NodeConfig} {now : TimePoint} {difficulty : UInt32}
    {start : StoredNode} {r : StoredReply}
    (h : construct cfg now difficulty {} = some (r, start)) : Mirrored start :=
  (construct_fresh rfl h).2

/-- **One operation** keeps file and memory together and throws nothing. -/
theorem storedStep_spec {cfg : NodeConfig} {op : StoredOp} {node node' : StoredNode}
    {r : StoredReply} (hI : Mirrored node) (hentered : op.Entered cfg.crypto)
    (h : storedStep cfg op node = some (r, node')) : r.threw = none ∧ Mirrored node' := by
  cases op with
  | ledger call =>
    simp only [storedStep, Option.map_eq_some_iff] at h
    obtain ⟨⟨reply, bc'⟩, hstep, hr⟩ := h
    have hspec := store_step hI hentered hstep
    rw [hr] at hspec
    exact hspec
  -- the same chain is written again
  | persistChain =>
    simp only [storedStep, store, persist, saveChain_run] at h
    cases h
    exact ⟨rfl, rfl, rfl, hI.chain, hI.pending, hI.tipIndex, hI.ledger⟩
  | restart now difficulty => exact construct_spec hI h

theorem mirrored_step {cfg : NodeConfig} ⦃node : StoredNode⦄ ⦃op : StoredOp⦄ ⦃r : StoredReply⦄
    ⦃node' : StoredNode⦄ (hI : Mirrored node) (hentered : op.Entered cfg.crypto)
    (h : storedStep cfg op node = some (r, node')) : Mirrored node' :=
  (storedStep_spec hI hentered h).2

theorem mirrored_run {cfg : NodeConfig} {start node : StoredNode} {tr : List StoredEntry}
    (hstart : Mirrored start) (hrun : Run (storedStep cfg) start tr node)
    (hentered : ∀ e ∈ tr, e.call.Entered cfg.crypto) : Mirrored node :=
  hrun.invariant_of (C := fun _ op => op.Entered cfg.crypto) hstart mirrored_step hentered

/-- Only a call that extends the chain appends. -/
theorem Stores.appended {bc bc' : Blockchain} {effects : List Effect} {block : Block}
    (h : Stores bc effects bc') (hblock : .appendBlock block ∈ effects) :
    bc'.chain = bc.chain ++ [block] := by
  cases h with
  | nothing _ hnone => cases hnone _ hblock
  | append hextended _ _ hnone =>
    rcases List.mem_cons.mp hblock with heq | hrest
    · cases heq
      exact hextended
    · cases hnone _ hrest
  | save _ _ hnone =>
    rcases List.mem_cons.mp hblock with heq | hrest
    · cases heq
    · cases hnone _ hrest

/-- Appending leaves the file that saving the longer chain would leave. -/
theorem append_eq_save {cfg : NodeConfig} {op : StoredOp} {node node' : StoredNode}
    {r : StoredReply} (hI : Mirrored node) (hentered : op.Entered cfg.crypto)
    (h : storedStep cfg op node = some (r, node')) {block : Block}
    (hblock : .appendBlock block ∈ r.effects) :
    node'.dir.file = (run (saveChain (node.bc.chain ++ [block])) node.dir).2.file := by
  have hstored := (storedStep_spec hI hentered h).2.stored
  cases op with
  | ledger call =>
    simp only [storedStep, Option.map_eq_some_iff] at h
    obtain ⟨⟨reply, bc'⟩, hstep, hr⟩ := h
    cases hr
    have hextended := (stores_step hstep).appended hblock
    rw [hstored, saveChain_run, saved]
    exact congrArg (fun chain => some (chainText chain)) hextended
  | persistChain =>
    cases h
    simp at hblock
  | restart now difficulty =>
    -- a constructor saves a chain or nothing
    simp only [storedStep, construct, Option.map_eq_some_iff] at h
    obtain ⟨out, hout, hr⟩ := h
    cases hr
    rw [Blockchain.create] at hout
    split at hout
    · cases hout
      cases hblock
    · split at hout
      · cases hout
      · cases hout
        simp at hblock

/-- **A restart is transparent.** In every run of a node over its storage that
starts on an empty data directory, with what enters decoded, sent or mined:
after each operation the file decodes to the chain, nothing was thrown, and a
block that was appended left the file a full save would have left. At any time
at which the chain passes the validation, a node constructed over the same
storage has the same chain and the same ledger state. -/
theorem restart_transparent {cfg : NodeConfig} {now : TimePoint} {difficulty : UInt32}
    {r₀ : StoredReply} {start node : StoredNode} {tr : List StoredEntry}
    (hstart : construct cfg now difficulty {} = some (r₀, start))
    (hrun : Run (storedStep cfg) start tr node)
    (hentered : ∀ e ∈ tr, e.call.Entered cfg.crypto) :
    loadChain cfg.crypto node.dir = node.bc.chain ∧
      (∀ e ∈ tr, e.ret.threw = none ∧ loadChain cfg.crypto e.post.dir = e.post.bc.chain ∧
        ∀ block, .appendBlock block ∈ e.ret.effects →
          e.post.dir.file = (run (saveChain (e.pre.bc.chain ++ [block])) e.pre.dir).2.file) ∧
      ∀ later difficulty', validateChainAgainstConsensus cfg later node.bc.chain = true →
        ∃ r again, construct cfg later difficulty' node.dir = some (r, again) ∧
          again.bc.chain = node.bc.chain ∧ again.bc.stateManager = node.bc.stateManager := by
  have hnode := mirrored_run (mirrored_start hstart) hrun hentered
  have hentry := hrun.entry_of (C := fun _ op => op.Entered cfg.crypto) (mirrored_start hstart)
    mirrored_step hentered
  refine ⟨hnode.loadChain_eq _, fun e he => ?_, fun later difficulty' hvalid => ?_⟩
  · obtain ⟨hs, hpre⟩ := hentry e he
    have hspec := storedStep_spec hpre (hentered e he) hs
    exact ⟨hspec.1, hspec.2.loadChain_eq _, fun block => append_eq_save hpre (hentered e he) hs⟩
  · obtain ⟨r, again, hagain, -, -, hchain, hstate⟩ := construct_valid hnode hvalid
    exact ⟨r, again, hagain, hchain, hstate⟩

section Sample

/-- The sample node over its directory. -/
def storedStart : StoredNode := ⟨sampleStart, saved [sampleGenesis]⟩

theorem storedStart_constructed : construct sampleConfig (sampleTime 0) 0 {} =
    some (⟨[.saveChain [sampleGenesis]], none⟩, storedStart) := by
  have hfresh : persistedChain sampleConfig.crypto (run recoverTempFiles {}).2 = none := rfl
  rw [construct, hfresh, Blockchain.create, dif_neg (by simp [validateChainAgainstConsensus,
    PersonalBlockchain.isChainValid]), sampleGenesis_created]
  rfl

end Sample

/-- A block is mined, one comes in from the network, and the node is started
again over the file. -/
theorem restart_transparent_sample : ∃ (tr : List StoredEntry) (node : StoredNode),
    Run (storedStep sampleConfig) storedStart tr node ∧ tr.length = 4 ∧
      node.bc.chain = [sampleGenesis, sampleBlock1, sampleBlock2] ∧
      loadChain sampleConfig.crypto node.dir = node.bc.chain := by
  -- the received block is what its own document decodes to
  have hreceived : Block.fromJson sampleConfig.crypto sampleBlock2.toJson = .ok sampleBlock2 := by
    rw [Block.fromJson_toJson]
    exact congrArg Except.ok (by decide +kernel)
  obtain ⟨tr, node, hrun, hentered, hcheck⟩ := Run.exists_of_exec_calls (storedStep sampleConfig)
    [.ledger ⟨sampleTime 0, .minePendingTransactions sampleMiner⟩,
      .ledger ⟨sampleTime 20, .acceptBlock sampleBlock2⟩, .persistChain,
      .restart (sampleTime 30) 0] storedStart
    (fun r => r.1.length = 4 &&
      r.2.bc.chain = [sampleGenesis, sampleBlock1, sampleBlock2]) (by decide +kernel)
    (P := StoredOp.Entered sampleConfig.crypto)
    (by simp [StoredOp.Entered, Op.Entered]; exact ⟨_, hreceived⟩)
  simp only [Bool.and_eq_true, decide_eq_true_eq] at hcheck
  exact ⟨tr, node, hrun, hcheck.1, hcheck.2,
    (restart_transparent storedStart_constructed hrun hentered).1⟩

end PersonalBlockchain
