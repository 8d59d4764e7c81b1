import PersonalBlockchain.P2P.Origins
import PersonalBlockchain.P2P.Suppression

/-!
# Personal blockchain — where blocks and transactions come from

In a closed network no chain holds a block that nobody mined, and no transfer is
on any chain that nobody submitted. What comes through the decoder may have its
missing fields filled in; nothing else happens to it on its way.

`Genuine` is the invariant of a run: all that nodes hold and have said stems from
what was submitted and mined so far, and what was mined held nothing but that. The
origins grow with the run and never shrink, which carries the invariant over a step.

## Results

* `Genuine.step` — a step of any node keeps the invariant;
* `nothing_counterfeit` — what stands on any chain of any node, after any run.
-/

namespace PersonalBlockchain

open Machine Blockchain

section Network

variable {ι : Type}

/-- The transactions that came from the HTTP interface of some node. -/
def submitted (tr : List (NetworkEntry ι)) : Set Transaction :=
  {tx | ∃ e ∈ tr, ∃ env, e.call.2 = .submit env tx}

/-- The blocks that some node mined. -/
def minedBlocks (tr : List (NetworkEntry ι)) : Set Block :=
  {block | ∃ e ∈ tr, ∃ env minerAddress, e.call.2 = .mine env minerAddress ∧
    (e.post e.call.1).blockchain.chain = (e.pre e.call.1).blockchain.chain ++ [block]}

/-- What there was, as it was or as the decoder gives it back. -/
def StemsFrom {α : Type} (decoded : α → α) (origin : Set α) : Set α :=
  {a | ∃ o ∈ origin, a = o ∨ a = decoded o}

/-- The blocks that were mined, or were there at the start. -/
def blockOrigins (C : Crypto) (start : ι → Blockchain) (tr : List (NetworkEntry ι)) : Set Block :=
  StemsFrom (Block.reread C) (minedBlocks tr ∪ {block | ∃ i, block ∈ (start i).chain})

/-- What has its origin in a run of the network. -/
def origins (C : Crypto) (start : ι → Blockchain) (tr : List (NetworkEntry ι)) : Origins where
  txs := StemsFrom (Transaction.reread C) (submitted tr)
  blocks := blockOrigins C start tr
  chains := {chain | ∀ block ∈ chain, block ∈ blockOrigins C start tr}

variable {C : Crypto} {start : ι → Blockchain} {tr : List (NetworkEntry ι)} {e : NetworkEntry ι}

/-- What was decoded once is not changed by decoding. -/
theorem stemsFrom_decoded {α : Type} {decoded : α → α} {origin : Set α}
    (htwice : ∀ a, decoded (decoded a) = decoded a) {a : α} (h : a ∈ StemsFrom decoded origin) :
    decoded a ∈ StemsFrom decoded origin := by
  obtain ⟨o, ho, rfl | rfl⟩ := h
  · exact ⟨a, ho, .inr rfl⟩
  · exact ⟨o, ho, .inr (htwice o)⟩

theorem stemsFrom_mono {α : Type} {decoded : α → α} {origin origin' : Set α}
    (h : origin ⊆ origin') : StemsFrom decoded origin ⊆ StemsFrom decoded origin' :=
  fun _ ⟨o, ho, heq⟩ => ⟨o, h ho, heq⟩

/-- A block that comes through the decoder keeps its origin. -/
theorem blockOrigins_decoded {block : Block} (h : block ∈ blockOrigins C start tr) :
    block.reread C ∈ blockOrigins C start tr :=
  stemsFrom_decoded (Block.reread_reread C) h

/-- The origins of a run are closed under everything that decoding does. -/
theorem origins_closed : (origins C start tr).Closed C := by
  refine ⟨fun _ => stemsFrom_decoded (Transaction.reread_reread C), fun _ => blockOrigins_decoded,
    fun chain hchain b hb => ?_, fun chain hchain block hblock _ b hb => ?_⟩
  · obtain ⟨block, hblock, rfl⟩ := List.mem_map.mp hb
    exact blockOrigins_decoded (hchain block hblock)
  · rcases List.mem_append.mp hb with hold | hnew
    · exact hchain b hold
    · rw [List.mem_singleton.mp hnew]
      exact hblock

theorem submitted_append : submitted tr ⊆ submitted (tr ++ [e]) :=
  fun _ ⟨e', he', env, hcall⟩ => ⟨e', List.mem_append_left _ he', env, hcall⟩

theorem minedBlocks_append : minedBlocks tr ⊆ minedBlocks (tr ++ [e]) :=
  fun _ ⟨e', he', env, minerAddress, hcall⟩ =>
    ⟨e', List.mem_append_left _ he', env, minerAddress, hcall⟩

theorem origins_append : (origins C start tr).GrowsTo (origins C start (tr ++ [e])) := by
  have hblocks : blockOrigins C start tr ⊆ blockOrigins C start (tr ++ [e]) :=
    stemsFrom_mono (Set.union_subset_union_left _ minedBlocks_append)
  exact ⟨stemsFrom_mono submitted_append, hblocks,
    fun chain hchain block hblock => hblocks (hchain block hblock)⟩

/-- What is known so far is all there is, and what was mined held nothing but
what was submitted. -/
structure Genuine (C : Crypto) (start : ι → Blockchain) (tr : List (NetworkEntry ι))
    (nodes : ι → Node) : Prop where
  backed : Backed C (origins C start tr) tr nodes
  mined : ∀ block ∈ minedBlocks tr, ∀ tx ∈ block.transactions, tx.isCoinbase = false →
    tx ∈ (origins C start tr).txs

variable [DecidableEq ι]

/-- A block holds the reward and what was pending when it was mined, so that
each of its transfers was in the mempool. -/
theorem transfer_of_mined {S : ι → NodeSetup}
    (hstep : each (fun i => nodeStep (S i)) e.call e.pre = some (e.ret, e.post)) {env : Env}
    {minerAddress : String} (hcall : e.call.2 = .mine env minerAddress) {block : Block}
    (hchain : (e.post e.call.1).blockchain.chain = (e.pre e.call.1).blockchain.chain ++ [block])
    {tx : Transaction} (htx : tx ∈ block.transactions) (htransfer : tx.isCoinbase = false) :
    tx ∈ (e.pre e.call.1).blockchain.mempool := by
  obtain ⟨hlocal, -⟩ := each_eq_some hstep
  rw [hcall] at hlocal
  obtain ⟨block', hm⟩ := nodeStep_mines hlocal
  obtain rfl : block' = block :=
    List.singleton_inj.mp (List.append_cancel_left (hm.chain.symm.trans hchain))
  rw [hm.transactions] at htx
  rcases List.mem_cons.mp htx with rfl | htx
  · cases htransfer
  · exact List.mem_of_mem_take htx

/-- A step keeps the invariant: what a node does with its ledger and what it
says is made of what it holds and of what has reached it, and a block that it
mines is made of its mempool. -/
theorem Genuine.step {S : ι → NodeSetup} (hC : ∀ i, (S i).cfg.crypto = C)
    (h : Genuine C start tr e.pre) (hdelivered : Delivered tr e)
    (hstep : each (fun i => nodeStep (S i)) e.call e.pre = some (e.ret, e.post)) :
    Genuine C start (tr ++ [e]) e.post := by
  have hlast : e ∈ tr ++ [e] := List.mem_append_right _ (List.mem_singleton_self _)
  have hbacked := h.backed.mono (origins_append (e := e))
  refine ⟨hbacked.step hC origins_closed hdelivered hstep ?_ ?_, fun block hblock tx htx hno => ?_⟩
  · exact fun env tx hcall => ⟨tx, ⟨e, hlast, env, hcall⟩, .inl rfl⟩
  · intro env minerAddress hcall block hchain
    have hblock : block ∈ blockOrigins C start (tr ++ [e]) :=
      ⟨block, .inl ⟨e, hlast, env, minerAddress, hcall, hchain⟩, .inl rfl⟩
    refine ⟨hblock, fun b hb => ?_⟩
    -- the blocks of the chain before, and the one just mined
    rcases List.mem_append.mp hb with hold | hnew
    · exact (hbacked.nodes e.call.1).ledger.chain b hold
    · rw [List.mem_singleton.mp hnew]
      exact hblock
  · obtain ⟨e', he', env, minerAddress, hcall, hchain⟩ := hblock
    rcases List.mem_append.mp he' with he' | he'
    · exact origins_append.txs
        (h.mined block ⟨e', he', env, minerAddress, hcall, hchain⟩ tx htx hno)
    · rw [List.mem_singleton.mp he'] at hcall hchain
      exact (hbacked.nodes e.call.1).ledger.mempool tx
        (transfer_of_mined hstep hcall hchain htx hno)

/-- **Nothing is counterfeit.** In a closed network of nodes, whatever is
submitted and mined where, and in whatever order messages arrive, if they do: a
transaction that is pending anywhere was submitted somewhere, a block on any
chain was mined by some node or was on a chain at the start, and a transfer on
any chain was submitted somewhere or was on a chain at the start. -/
theorem nothing_counterfeit (S : ι → NodeSetup) (C : Crypto) (hC : ∀ i, (S i).cfg.crypto = C)
    (bootstrapNodes : ι → List String) (start : ι → Blockchain)
    (storage : ι → Option DataDir) (hstart : ∀ i, (start i).mempool = [])
    (tr : List (NetworkEntry ι)) (nodes : ι → Node)
    (h : Run (each fun i => nodeStep (S i))
      (fun i => Node.create (S i) (bootstrapNodes i) (start i) (storage i)) tr nodes)
    (hclosed : Along Delivered tr) (i : ι) :
    (∀ tx ∈ (nodes i).blockchain.mempool, ∃ origin ∈ submitted tr,
      tx = origin ∨ tx = origin.reread C) ∧
    (∀ block ∈ (nodes i).blockchain.chain, ∃ origin,
      (origin ∈ minedBlocks tr ∨ ∃ j, origin ∈ (start j).chain) ∧
        (block = origin ∨ block = origin.reread C)) ∧
    ∀ tx ∈ chainTransactions (nodes i).blockchain.chain, tx.isCoinbase = false → ∃ origin,
      (origin ∈ submitted tr ∨ ∃ j, origin ∈ chainTransactions (start j).chain) ∧
        (tx = origin ∨ tx = origin.reread C) := by
  have hfirst : Genuine C start [] fun i =>
      Node.create (S i) (bootstrapNodes i) (start i) (storage i) := by
    refine ⟨.create fun i => ⟨?_, fun block hblock => ⟨block, .inr ⟨i, hblock⟩, .inl rfl⟩⟩, ?_⟩
    · rw [hstart i]
      exact fun tx htx => absurd htx List.not_mem_nil
    · rintro block ⟨e, he, -⟩
      exact absurd he List.not_mem_nil
  obtain ⟨hgenuine, -⟩ := h.history_of (J := Genuine C start) (C := Delivered) hfirst
    (fun _ _ hJ hdelivered hs => hJ.step hC hdelivered hs) hclosed
  have hledger := (hgenuine.backed.nodes i).ledger
  refine ⟨hledger.mempool, hledger.chain, fun tx htx htransfer => ?_⟩
  obtain ⟨block, hblock, htx⟩ := List.mem_flatMap.mp htx
  obtain ⟨origin, horigin, hsame⟩ := hledger.chain block hblock
  -- the transfer as it stood in the block that was mined or there at the start
  obtain ⟨tx', htx', hdecoded⟩ :
      ∃ tx' ∈ origin.transactions, tx = tx' ∨ tx = tx'.reread C := by
    rcases hsame with rfl | rfl
    · exact ⟨tx, htx, .inl rfl⟩
    · obtain ⟨tx', htx', rfl⟩ := List.mem_map.mp htx
      exact ⟨tx', htx', .inr rfl⟩
  rcases horigin with hmined | ⟨j, hold⟩
  · have htransfer' : tx'.isCoinbase = false := by
      rcases hdecoded with rfl | rfl
      · exact htransfer
      · rwa [Transaction.reread_isCoinbase] at htransfer
    have hknown := hgenuine.mined origin hmined tx' htx' htransfer'
    have htx : tx ∈ (origins C start tr).txs := by
      rcases hdecoded with rfl | rfl
      · exact hknown
      · exact origins_closed.txs tx' hknown
    obtain ⟨first, hfirst, heq⟩ := htx
    exact ⟨first, .inl hfirst, heq⟩
  · exact ⟨tx', .inr ⟨j, List.mem_flatMap.mpr ⟨origin, hold, htx'⟩⟩, hdecoded⟩

end Network

/-! ## Two connected nodes -/

section Sample

/-- A transfer is submitted to one node, and the other gets it from there. -/
def submittedHere : List (Bool × NodeEvent) :=
  [(false, .mine (sampleEnv 0) sampleMiner),
    (true, .mine (sampleEnv 0) sampleMiner),
    (false, .input (sampleEnv 5) (.accepted (some ("10.0.0.2", 50000)))),
    (true, .input (sampleEnv 5) (.accepted (some ("10.0.0.1", 9000)))),
    (false, .submit (sampleEnv 10) sampleTransfer),
    (true, .input (sampleEnv 11) (.message 0 ⟨.newTransaction, sampleTransfer.toJson⟩))]

theorem submittedHere_run : ∃ tr nodes,
    Run (each fun _ : Bool => nodeStep suppressionSetup) (fun _ => suppressionNode) tr nodes ∧
      Along Delivered tr ∧ (nodes true).blockchain.mempool = [sampleTransfer] := by
  obtain ⟨tr, nodes, hrun, hcheck⟩ := Run.exists_of_exec
    (each fun _ : Bool => nodeStep suppressionSetup) submittedHere (fun _ => suppressionNode)
    (fun r => decide (Along (DeliveredOver [(false, 0)]) r.1 ∧
      (r.2 true).blockchain.mempool = [sampleTransfer]))
    (by decide +kernel)
  obtain ⟨hdelivered, hmempool⟩ := of_decide_eq_true hcheck
  exact ⟨tr, nodes, hrun, delivered_of_over hdelivered, hmempool⟩

end Sample

/-- In that run the other node's mempool holds the transfer, and the theorem traces
it back to the submission. -/
theorem nothing_counterfeit_submitted : ∃ tr nodes,
    Run (each fun _ : Bool => nodeStep suppressionSetup) (fun _ => suppressionNode) tr nodes ∧
      sampleTransfer ∈ (nodes true).blockchain.mempool ∧ ∃ origin ∈ submitted tr,
        sampleTransfer = origin ∨ sampleTransfer = origin.reread suppressionSetup.cfg.crypto := by
  obtain ⟨tr, nodes, hrun, hclosed, hmempool⟩ := submittedHere_run
  have hpending : sampleTransfer ∈ (nodes true).blockchain.mempool := by
    rw [hmempool]
    exact List.mem_singleton_self _
  obtain ⟨hknown, -, -⟩ := nothing_counterfeit (fun _ => suppressionSetup)
    suppressionSetup.cfg.crypto (fun _ => rfl) (fun _ => []) (fun _ => sampleStart)
    (fun _ => none) (fun _ => rfl) tr nodes hrun hclosed true
  exact ⟨tr, nodes, hrun, hpending, hknown sampleTransfer hpending⟩

end PersonalBlockchain
