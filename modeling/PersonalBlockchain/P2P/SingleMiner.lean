import PersonalBlockchain.P2P.CatchUp
import PersonalBlockchain.P2P.Provenance

/-!
# Personal blockchain — a network with one miner

In a closed network whose nodes start on one chain and of which only one mines,
there are no forks: whatever is lost, repeated or late on its way, every node
holds a part of the chain of the miner, from its genesis block on. What a node
got through the decoder may have missing fields filled in, so chains are
compared as the decoder gives them back.

A block that is passed on by itself fits in one place only, since it carries
its index; the counter has 64 bits, and the chain stays shorter than that.

## Results

* `minerOrigins_closed` — parts of the chain of the miner, with one of its blocks
  more, are parts of it;
* `Trails.step_other`, `Trails.step_mine` — an event that mines nothing, and one that
  mines, keep the invariant;
* `single_miner_agreement` — every chain is a beginning of the miner's;
* `single_miner_catch_up` — whoever handles an answer with the chain of a node ends
  with all of it.
-/

namespace PersonalBlockchain

open Machine Blockchain

section Network

variable {ι : Type} {C : Crypto} {m : ι} {tr : List (NetworkEntry ι)} {e : NetworkEntry ι}
  {nodes : ι → Node}

/-- The chain of a node as the decoder gives it back. -/
def Node.decodedChain (C : Crypto) (node : Node) : List Block :=
  node.blockchain.chain.map (Block.reread C)

/-- What there is in a network where `m` mines: any transaction, the blocks that
were mined, and parts of the chain of `m`. -/
def minerOrigins (C : Crypto) (tr : List (NetworkEntry ι)) (miner : Node) : Origins where
  txs := Set.univ
  blocks := StemsFrom (Block.reread C) (minedBlocks tr)
  chains := {chain | chain.map (Block.reread C) <+: miner.decodedChain C}

/-- Each mined block stands on the chain of the miner, where its index says. -/
def Placed (C : Crypto) (tr : List (NetworkEntry ι)) (miner : Node) : Prop :=
  ∀ block ∈ minedBlocks tr, ∃ k, block.index = UInt64.ofNat k ∧
    (miner.decodedChain C)[k]? = some (block.reread C)

/-- The invariant of a network with one miner. -/
structure Trails (C : Crypto) (m : ι) (tr : List (NetworkEntry ι)) (nodes : ι → Node) : Prop where
  backed : Backed C (minerOrigins C tr (nodes m)) tr nodes
  placed : Placed C tr (nodes m)

theorem decoded_twice (chain : List Block) :
    (chain.map (Block.reread C)).map (Block.reread C) = chain.map (Block.reread C) := by
  rw [List.map_map]
  exact List.map_congr_left fun block _ => Block.reread_reread C block

theorem length_decodedChain (node : Node) :
    (node.decodedChain C).length = node.blockchain.chain.length := List.length_map _

/-- **A block fits in one place only**: where its index says. So a part of the
chain of the miner that is extended by one of its blocks is again a part of it. -/
theorem minerOrigins_closed {miner : Node} (hplaced : Placed C tr miner)
    (hshort : miner.blockchain.chain.length < 2 ^ 64) : (minerOrigins C tr miner).Closed C := by
  refine ⟨fun _ _ => Set.mem_univ _, fun _ => stemsFrom_decoded (Block.reread_reread C),
    fun chain hchain => ?_, fun chain hchain block hblock hindex => ?_⟩
  · show (chain.map (Block.reread C)).map (Block.reread C) <+: _
    rwa [decoded_twice]
  · obtain ⟨origin, horigin, hsame⟩ := hblock
    obtain ⟨k, hk, hat⟩ := hplaced origin horigin
    have hreread : block.reread C = origin.reread C := by
      rcases hsame with rfl | rfl
      · rfl
      · exact Block.reread_reread C origin
    have hindex' : block.index = origin.index := by
      rcases hsame with rfl | rfl
      · rfl
      · rfl
    have hlength : chain.length ≤ miner.blockchain.chain.length := by
      have hle := hchain.length_le
      rwa [List.length_map, length_decodedChain] at hle
    have hklt : k < miner.blockchain.chain.length := by
      rw [← length_decodedChain (C := C)]
      exact (List.getElem?_eq_some_iff.mp hat).1
    -- the two indices are below the size of the counter
    have hsize : UInt64.size = 2 ^ 64 := rfl
    have hplace : k = chain.length := by
      have heq := congrArg UInt64.toNat (hk.symm.trans (hindex'.symm.trans hindex))
      rwa [UInt64.toNat_ofNat_of_lt' (by omega), UInt64.toNat_ofNat_of_lt' (by omega)] at heq
    show (chain ++ [block]).map (Block.reread C) <+: miner.decodedChain C
    rw [List.map_append, List.map_singleton, hreread]
    obtain ⟨rest, hrest⟩ := hchain
    rw [← hrest, hplace, List.getElem?_append_right (by rw [List.length_map])] at hat
    simp only [List.length_map, Nat.sub_self] at hat
    cases rest with
    | nil => cases hat
    | cons next rest =>
      obtain rfl : next = origin.reread C := by simpa using hat
      exact ⟨rest, by rw [← hrest, List.append_assoc, List.singleton_append]⟩

/-- The miner's chain goes on with what it mined. -/
theorem minerOrigins_grows {miner miner' : Node}
    (h : miner.decodedChain C <+: miner'.decodedChain C) :
    (minerOrigins C tr miner).GrowsTo (minerOrigins C (tr ++ [e]) miner') :=
  ⟨fun _ _ => Set.mem_univ _, stemsFrom_mono minedBlocks_append, fun _ hchain => hchain.trans h⟩

variable [DecidableEq ι] {S : ι → NodeSetup}

/-- An event that mines nothing leaves the chain of the miner as it is. -/
theorem Trails.step_other (hC : ∀ i, (S i).cfg.crypto = C) (h : Trails C m tr e.pre)
    (hdelivered : Delivered tr e)
    (hstep : each (fun i => nodeStep (S i)) e.call e.pre = some (e.ret, e.post))
    (hno : ∀ env minerAddress, e.call.2 ≠ .mine env minerAddress)
    (hshort : (e.pre m).blockchain.chain.length < 2 ^ 64) : Trails C m (tr ++ [e]) e.post := by
  have hbacked := h.backed.step hC (minerOrigins_closed h.placed hshort) hdelivered hstep
    (fun _ _ _ => Set.mem_univ _) fun env minerAddress hcall => absurd hcall (hno env minerAddress)
  -- what the miner holds now is part of what it held, and not shorter
  have hpart : (e.post m).decodedChain C <+: (e.pre m).decodedChain C :=
    (hbacked.nodes m).ledger.chain
  have hsame : (e.post m).decodedChain C = (e.pre m).decodedChain C := by
    refine hpart.eq_of_length_le ?_
    rw [length_decodedChain, length_decodedChain]
    exact (each_givesWay hstep m).le
  refine ⟨hbacked.mono (minerOrigins_grows (hsame ▸ List.prefix_refl _)), fun block hblock => ?_⟩
  obtain ⟨e', he', env, minerAddress, hcall, hchain⟩ := hblock
  rcases List.mem_append.mp he' with he' | he'
  · rw [hsame]
    exact h.placed block ⟨e', he', env, minerAddress, hcall, hchain⟩
  · rw [List.mem_singleton.mp he'] at hcall
    exact absurd hcall (hno env minerAddress)

/-- The miner puts one more block on its chain. -/
theorem Trails.step_mine (hC : ∀ i, (S i).cfg.crypto = C) (h : Trails C m tr e.pre)
    (hdelivered : Delivered tr e)
    (hstep : each (fun i => nodeStep (S i)) e.call e.pre = some (e.ret, e.post))
    (hm : e.call.1 = m) {env : Env} {minerAddress : String}
    (hcall : e.call.2 = .mine env minerAddress)
    (hshort : (e.post m).blockchain.chain.length < 2 ^ 64) : Trails C m (tr ++ [e]) e.post := by
  obtain ⟨hlocal, -⟩ := each_eq_some hstep
  rw [hcall, hm] at hlocal
  obtain ⟨block, hmined⟩ := nodeStep_mines hlocal
  -- the miner's chain only grows at its end
  have hpart : (e.pre m).decodedChain C <+: (e.post m).decodedChain C := by
    rw [Node.decodedChain, Node.decodedChain, hmined.chain, List.map_append]
    exact List.prefix_append _ _
  have hplaced : Placed C (tr ++ [e]) (e.post m) := by
    rintro block' ⟨e', he', env', minerAddress', hcall', hchain'⟩
    rcases List.mem_append.mp he' with he' | he'
    · -- mined before, and still in its place
      obtain ⟨k, hk, hat⟩ := h.placed block' ⟨e', he', env', minerAddress', hcall', hchain'⟩
      obtain ⟨rest, hrest⟩ := hpart
      refine ⟨k, hk, ?_⟩
      rw [← hrest, List.getElem?_append_left (List.getElem?_eq_some_iff.mp hat).1, hat]
    · -- the block at the end
      rw [List.mem_singleton.mp he', hm] at hchain'
      obtain rfl : block = block' :=
        List.singleton_inj.mp (List.append_cancel_left (hmined.chain.symm.trans hchain'))
      refine ⟨(e.pre m).blockchain.chain.length, (sealBlock_spec hmined.sealed).2.1, ?_⟩
      rw [Node.decodedChain, hmined.chain, List.map_append,
        List.getElem?_append_right (by rw [List.length_map])]
      simp
  have hknown : Backed C (minerOrigins C (tr ++ [e]) (e.post m)) tr e.pre :=
    h.backed.mono (minerOrigins_grows hpart)
  refine ⟨hknown.step hC (minerOrigins_closed hplaced hshort) hdelivered hstep
    (fun _ _ _ => Set.mem_univ _) fun env' minerAddress' hcall' block' hchain' => ?_, hplaced⟩
  refine ⟨⟨block', ⟨e, List.mem_append_right _ (List.mem_singleton_self _), env', minerAddress',
    hcall', hchain'⟩, .inl rfl⟩, ?_⟩
  rw [← hchain', hm]
  exact List.prefix_refl _

/-- The invariant holds in every run. The bound on the length of the last chain
bounds all earlier ones. -/
theorem trails_run {bootstrapNodes : ι → List String} {start : ι → Blockchain}
    {storage : ι → Option DataDir} (hC : ∀ i, (S i).cfg.crypto = C)
    (hstart : ∀ i, (start i).chain = (start m).chain)
    (h : Run (each fun i => nodeStep (S i))
      (fun i => Node.create (S i) (bootstrapNodes i) (start i) (storage i)) tr nodes)
    (hclosed : Along Delivered tr)
    (hminer : ∀ e ∈ tr, ∀ env minerAddress, e.call.2 = .mine env minerAddress → e.call.1 = m)
    (hshort : (nodes m).blockchain.chain.length < 2 ^ 64) : Trails C m tr nodes := by
  induction h with
  | nil =>
    refine ⟨.create fun i => ⟨fun _ _ => Set.mem_univ _, ?_⟩, ?_⟩
    · show (start i).chain.map (Block.reread C) <+: (start m).chain.map (Block.reread C)
      rw [hstart i]
    · rintro block ⟨e, he, -⟩
      exact absurd he List.not_mem_nil
  | @snoc tr pre post call r hrun hstep ih =>
    obtain ⟨hbefore, hdelivered⟩ := along_append.mp hclosed
    have hle := (each_givesWay hstep m).le
    have htrails := ih hbefore (fun e he => hminer e (List.mem_append_left _ he))
      (Nat.lt_of_le_of_lt hle hshort)
    -- only the miner's own blocks are new on the network
    by_cases hmine : ∃ env minerAddress, call.2 = .mine env minerAddress
    · obtain ⟨env, minerAddress, hcall⟩ := hmine
      have hm := hminer ⟨pre, call, r, post⟩ (List.mem_append_right _ (List.mem_singleton_self _))
        env minerAddress hcall
      exact Trails.step_mine (e := ⟨pre, call, r, post⟩) hC htrails hdelivered hstep hm hcall
        hshort
    · exact Trails.step_other (e := ⟨pre, call, r, post⟩) hC htrails hdelivered hstep
        (fun env minerAddress hcall => hmine ⟨env, minerAddress, hcall⟩)
        (Nat.lt_of_le_of_lt hle hshort)

/-- **No forks with one miner.** In a closed network whose nodes start on one
chain and of which only `m` mines, whatever is submitted where and in whatever
order messages arrive, if they do: every node holds a part of the chain of `m`,
from the start on; so of the chains of two nodes one is a part of the other. -/
theorem single_miner_agreement (S : ι → NodeSetup) (C : Crypto) (hC : ∀ i, (S i).cfg.crypto = C)
    (bootstrapNodes : ι → List String) (start : ι → Blockchain)
    (storage : ι → Option DataDir) (m : ι) (hstart : ∀ i, (start i).chain = (start m).chain)
    (tr : List (NetworkEntry ι)) (nodes : ι → Node)
    (h : Run (each fun i => nodeStep (S i))
      (fun i => Node.create (S i) (bootstrapNodes i) (start i) (storage i)) tr nodes)
    (hclosed : Along Delivered tr)
    (hminer : ∀ e ∈ tr, ∀ env minerAddress, e.call.2 = .mine env minerAddress → e.call.1 = m)
    (hshort : (nodes m).blockchain.chain.length < 2 ^ 64) :
    (∀ i, (nodes i).decodedChain C <+: (nodes m).decodedChain C) ∧
      ∀ i j, (nodes i).decodedChain C <+: (nodes j).decodedChain C ∨
        (nodes j).decodedChain C <+: (nodes i).decodedChain C := by
  have hpart : ∀ i, (nodes i).decodedChain C <+: (nodes m).decodedChain C :=
    fun i => ((trails_run hC hstart h hclosed hminer hshort).backed.nodes i).ledger.chain
  exact ⟨hpart, fun i j => List.prefix_or_prefix_of_prefix (hpart i) (hpart j)⟩

/-- **Catching up with one miner.** In such a network, when a node handles an
answer with the chain that some node had at some time, which it admits and finds
valid: from then on it holds every block of that chain, in its place. -/
theorem single_miner_catch_up (S : ι → NodeSetup) (C : Crypto) (hC : ∀ i, (S i).cfg.crypto = C)
    (bootstrapNodes : ι → List String) (start : ι → Blockchain)
    (storage : ι → Option DataDir) (m : ι) (hstart : ∀ i, (start i).chain = (start m).chain)
    (tr : List (NetworkEntry ι)) (nodes : ι → Node)
    (h : Run (each fun i => nodeStep (S i))
      (fun i => Node.create (S i) (bootstrapNodes i) (start i) (storage i)) tr nodes)
    (hclosed : Along Delivered tr)
    (hminer : ∀ e ∈ tr, ∀ env minerAddress, e.call.2 = .mine env minerAddress → e.call.1 = m)
    (hshort : (nodes m).blockchain.chain.length < 2 ^ 64) :
    ∀ e ∈ tr, ∀ i, ∀ e' ∈ tr, CatchesUp S (e.post i).blockchain.chain e' →
      (e.post i).decodedChain C <+: (nodes e'.call.1).decodedChain C := by
  intro e he i e' he' hcatches
  have htrails := trails_run hC hstart h hclosed hminer hshort
  have hsent : (e.post i).decodedChain C <+: (nodes m).decodedChain C :=
    (htrails.backed.before e he i).ledger.chain
  have hheld : (nodes e'.call.1).decodedChain C <+: (nodes m).decodedChain C :=
    (htrails.backed.nodes e'.call.1).ledger.chain
  -- two parts of one chain, and the first is not the longer one
  refine List.prefix_of_prefix_length_le hsent hheld ?_
  rw [length_decodedChain, length_decodedChain]
  exact catchesUp_run h he' hcatches

end Network

/-! ## One node mines for two -/

theorem askedLater_miner {before after : List (NetworkEntry Bool)} {mid nodes : Bool → Node}
    (h : AskedLater before mid after nodes) : ∀ e ∈ before ++ after, ∀ env minerAddress,
      e.call.2 = .mine env minerAddress → e.call.1 = false := by
  intro e he env minerAddress hmine
  have hcalls : (before ++ after).map Entry.call = minedUnheard ++ askedLater := by
    rw [List.map_append, h.calls, h.calls']
  have hcall : e.call ∈ minedUnheard ++ askedLater := hcalls ▸ List.mem_map_of_mem he
  rcases hevent : e.call with ⟨i, event⟩
  rw [hevent] at hcall hmine
  obtain rfl : event = .mine env minerAddress := hmine
  simp only [minedUnheard, askedLater, List.cons_append, List.nil_append, List.mem_cons,
    Prod.mk.injEq, reduceCtorEq, and_false, or_false, false_or, List.not_mem_nil] at hcall
  exact hcall.1

theorem askedLater_short {before after : List (NetworkEntry Bool)} {mid nodes : Bool → Node}
    (h : AskedLater before mid after nodes) :
    (nodes false).blockchain.chain.length < 2 ^ 64 := by
  rw [h.last]
  decide

/-- The theorem at the sample. -/
theorem single_miner_agreement_asked : ∃ tr nodes,
    Run (each fun _ : Bool => nodeStep suppressionSetup) (fun _ => suppressionNode) tr nodes ∧
      (nodes false).blockchain.chain = [sampleGenesis, sampleBlock1] ∧
      (nodes true).decodedChain suppressionSetup.cfg.crypto <+:
        (nodes false).decodedChain suppressionSetup.cfg.crypto := by
  obtain ⟨before, mid, after, nodes, h⟩ := askedLater_run
  obtain ⟨hpart, -⟩ := single_miner_agreement (fun _ => suppressionSetup)
    suppressionSetup.cfg.crypto (fun _ => rfl) (fun _ => []) (fun _ => sampleStart)
    (fun _ => none) false (fun _ => rfl) (before ++ after) nodes (h.first.append h.second)
    h.closed (askedLater_miner h) (askedLater_short h)
  exact ⟨before ++ after, nodes, h.first.append h.second, h.last, hpart true⟩

/-- The theorem at the sample, where the other node asks for the chain. -/
theorem single_miner_catch_up_asked : ∃ tr nodes,
    Run (each fun _ : Bool => nodeStep suppressionSetup) (fun _ => suppressionNode) tr nodes ∧
      [sampleGenesis, sampleBlock1].map (Block.reread suppressionSetup.cfg.crypto) <+:
        (nodes true).decodedChain suppressionSetup.cfg.crypto := by
  obtain ⟨before, mid, after, nodes, h⟩ := askedLater_run
  obtain ⟨e, he, hj, hcatches⟩ := h.catchesUp
  have hheld := (h.held e he).2
  have hall : e ∈ before ++ after := List.mem_append_right _ he
  have hprefix := single_miner_catch_up (fun _ => suppressionSetup) suppressionSetup.cfg.crypto
    (fun _ => rfl) (fun _ => []) (fun _ => sampleStart) (fun _ => none) false (fun _ => rfl)
    (before ++ after) nodes (h.first.append h.second) h.closed (askedLater_miner h)
    (askedLater_short h) e hall false e hall (hheld ▸ hcatches)
  rw [hj, Node.decodedChain, hheld] at hprefix
  exact ⟨before ++ after, nodes, h.first.append h.second, hprefix⟩

end PersonalBlockchain
