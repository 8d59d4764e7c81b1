import PersonalBlockchain.P2P.CatchUp

/-!
# Personal blockchain — the longest chain wins

Several nodes mine, and the network forks. Once nobody mines any more and one
chain is longer than all others, it is enough that each node handles one answer
with this chain: whatever is still on its way then, and however late it comes,
no node ends with another tip.

A chain of the greatest length is never given up, so what is on its way has no
more blocks than some node has, and where it has as many, the same tip. That is
`upTo`.

## Results

* `upTo_closed` — decoding and one block more stay within these bounds;
* `backed_upTo` — up to a time when all nodes are within the bounds, all was;
* `Backed.run_upTo` — without mining, all stays within them;
* `longest_chain_wins` — so every node ends with the tip of the longest chain.
-/

namespace PersonalBlockchain

open Machine Blockchain

/-- What there is when no chain has more than `length` blocks, and those that
have as many end with one block, up to decoding. -/
def Origins.upTo (C : Crypto) (length : Nat) (tip : Block) : Origins where
  txs := Set.univ
  blocks := {block | ∃ k < length, block.index = UInt64.ofNat k ∧
    (k + 1 = length → block.reread C = tip)}
  chains := {chain | chain.length ≤ length ∧
    (chain.length = length → ∀ block ∈ chain.getLast?, block.reread C = tip)}

section Network

variable {ι : Type} {C : Crypto} {length : Nat} {tip : Block} {tr : List (NetworkEntry ι)}
  {e : NetworkEntry ι} {nodes : ι → Node}

/-- What is within the bounds stays so when it is decoded, and when a chain is
extended by a block. A block fits in one place only, since it carries its index;
that is why the length has to be below 2⁶⁴. -/
theorem upTo_closed (hshort : length < 2 ^ 64) : (Origins.upTo C length tip).Closed C := by
  refine ⟨fun _ _ => Set.mem_univ _, fun block hblock => ?_, fun chain hchain => ?_,
    fun chain hchain block hblock hindex => ?_⟩
  · obtain ⟨k, hk, hat, htip⟩ := hblock
    exact ⟨k, hk, hat, fun hlast => (Block.reread_reread C block).trans (htip hlast)⟩
  · obtain ⟨hle, htip⟩ := hchain
    refine ⟨by rwa [List.length_map], fun hlast block hblock => ?_⟩
    rw [List.length_map] at hlast
    rw [List.getLast?_map] at hblock
    obtain ⟨last, hat, rfl⟩ := Option.map_eq_some_iff.mp hblock
    exact (Block.reread_reread C last).trans (htip hlast last hat)
  · obtain ⟨hle, -⟩ := hchain
    obtain ⟨k, hk, hat, htip⟩ := hblock
    -- both counters are below their size
    have hsize : UInt64.size = 2 ^ 64 := rfl
    have hplace : k = chain.length := by
      have heq := congrArg UInt64.toNat (hat.symm.trans hindex)
      rwa [UInt64.toNat_ofNat_of_lt' (by omega), UInt64.toNat_ofNat_of_lt' (by omega)] at heq
    subst hplace
    refine ⟨by rwa [List.length_append], fun hlast last hat => ?_⟩
    rw [List.length_append] at hlast
    rw [List.getLast?_concat] at hat
    obtain rfl := Option.some.inj hat
    exact htip hlast

/-- A node within the bounds. -/
theorem mem_upTo {bc : Blockchain} (hle : bc.chain.length ≤ length)
    (htip : bc.chain.length = length → bc.tip.reread C = tip) :
    bc.chain ∈ (Origins.upTo C length tip).chains := by
  refine ⟨hle, fun hlast block hblock => ?_⟩
  rw [List.getLast?_eq_some_getLast bc.chain_ne] at hblock
  obtain rfl := Option.some.inj hblock
  exact htip hlast

theorem tip_of_mem_upTo {bc : Blockchain} (h : bc.chain ∈ (Origins.upTo C length tip).chains)
    (hlength : bc.chain.length = length) : bc.tip.reread C = tip :=
  h.2 hlength _ (List.getLast?_eq_some_getLast bc.chain_ne)

/-- What has to give way to chains within the bounds is within them. -/
theorem mem_upTo_of_givesWay {chain chain' : List Block} (h : GivesWay List.length chain chain')
    (hin : chain' ∈ (Origins.upTo C length tip).chains) :
    chain ∈ (Origins.upTo C length tip).chains := by
  rcases h with rfl | hlt
  · exact hin
  · have hless : chain.length < length := hlt.trans_le hin.1
    exact ⟨hless.le, fun heq => absurd heq hless.ne⟩

variable [DecidableEq ι] {S : ι → NodeSetup}

/-- Mining keeps within the bounds when the miner does. -/
theorem Backed.step_upTo (hC : ∀ i, (S i).cfg.crypto = C) (hshort : length < 2 ^ 64)
    (h : Backed C (.upTo C length tip) tr e.pre) (hdelivered : Delivered tr e)
    (hstep : each (fun i => nodeStep (S i)) e.call e.pre = some (e.ret, e.post))
    (hpost : (e.post e.call.1).blockchain.chain ∈ (Origins.upTo C length tip).chains ∨
      ∀ env minerAddress, e.call.2 ≠ .mine env minerAddress) :
    Backed C (.upTo C length tip) (tr ++ [e]) e.post := by
  refine h.step hC (upTo_closed hshort) hdelivered hstep (fun _ _ _ => Set.mem_univ _)
    fun env minerAddress hcall block hchain => ?_
  obtain ⟨hlocal, -⟩ := each_eq_some hstep
  rw [hcall] at hlocal
  obtain ⟨block', hmined⟩ := nodeStep_mines hlocal
  -- the chain has grown by one block, which is the mined one
  obtain rfl : block = block' :=
    List.singleton_inj.mp (List.append_cancel_left (hchain.symm.trans hmined.chain))
  have hin := hpost.resolve_right fun hno => hno env minerAddress hcall
  rw [hchain] at hin
  refine ⟨⟨(e.pre e.call.1).blockchain.chain.length, ?_, (sealBlock_spec hmined.sealed).2.1,
    fun hlast => ?_⟩, hin⟩
  · have hle := hin.1
    rw [List.length_append, List.length_singleton] at hle
    exact hle
  · exact hin.2 (by rw [List.length_append, List.length_singleton, hlast]) block
      List.getLast?_concat

/-- Up to a time when all nodes are within the bounds, all was within them. -/
theorem backed_upTo {bootstrapNodes : ι → List String} {start : ι → Blockchain}
    {storage : ι → Option DataDir} (hC : ∀ i, (S i).cfg.crypto = C) (hshort : length < 2 ^ 64)
    (h : Run (each fun i => nodeStep (S i))
      (fun i => Node.create (S i) (bootstrapNodes i) (start i) (storage i)) tr nodes)
    (hclosed : Along Delivered tr)
    (hin : ∀ j, (nodes j).blockchain.chain ∈ (Origins.upTo C length tip).chains) :
    Backed C (.upTo C length tip) tr nodes := by
  induction h with
  | nil => exact .create fun j => ⟨fun _ _ => Set.mem_univ _, hin j⟩
  | @snoc tr pre post call r hrun hstep ih =>
    obtain ⟨hbefore, hdelivered⟩ := along_append.mp hclosed
    have hpre := ih hbefore fun j => mem_upTo_of_givesWay (each_givesWay hstep j) (hin j)
    exact Backed.step_upTo (e := ⟨pre, call, r, post⟩) hC hshort hpre hdelivered hstep
      (.inl (hin call.1))

/-- Without mining, all stays within the bounds. -/
theorem Backed.run_upTo {before : List (NetworkEntry ι)} {mid : ι → Node}
    (hC : ∀ i, (S i).cfg.crypto = C) (hshort : length < 2 ^ 64)
    (hmid : Backed C (.upTo C length tip) before mid)
    (h : Run (each fun i => nodeStep (S i)) mid tr nodes)
    (hclosed : Along Delivered (before ++ tr))
    (hquiet : ∀ e ∈ tr, ∀ env minerAddress, e.call.2 ≠ .mine env minerAddress) :
    Backed C (.upTo C length tip) (before ++ tr) nodes := by
  induction h with
  | nil => rwa [List.append_nil]
  | @snoc tr pre post call r hrun hstep ih =>
    rw [← List.append_assoc] at hclosed ⊢
    obtain ⟨hbefore, hdelivered⟩ := along_append.mp hclosed
    have hpre := ih hbefore fun e he => hquiet e (List.mem_append_left _ he)
    have hlast := hquiet ⟨pre, call, r, post⟩
      (List.mem_append_right _ (List.mem_singleton_self _))
    exact Backed.step_upTo (e := ⟨pre, call, r, post⟩) hC hshort hpre hdelivered hstep
      (.inr hlast)

/-- **The longest chain wins.** In a closed network of any nodes, whatever they
mined, submitted and sent each other before: from some time on nobody mines, and
the chain of node `i` is longer than every other, except those with the same tip.
When each node that is behind then handles one answer with this chain, which it
admits and finds valid, all nodes end with as many blocks and that tip, whatever
else is delivered to them, and in whatever order. -/
theorem longest_chain_wins (S : ι → NodeSetup) (C : Crypto) (hC : ∀ i, (S i).cfg.crypto = C)
    (bootstrapNodes : ι → List String) (start : ι → Blockchain)
    (storage : ι → Option DataDir) (before after : List (NetworkEntry ι)) (mid nodes : ι → Node)
    (hbefore : Run (each fun i => nodeStep (S i))
      (fun i => Node.create (S i) (bootstrapNodes i) (start i) (storage i)) before mid)
    (hafter : Run (each fun i => nodeStep (S i)) mid after nodes)
    (hclosed : Along Delivered (before ++ after))
    (hquiet : ∀ e ∈ after, ∀ env minerAddress, e.call.2 ≠ .mine env minerAddress) (i : ι)
    (hlongest : ∀ j,
      (mid j).blockchain.chain.length < (mid i).blockchain.chain.length ∨
      (mid j).blockchain.chain.length = (mid i).blockchain.chain.length ∧
        (mid j).blockchain.tip.reread C = (mid i).blockchain.tip.reread C)
    (hanswered : ∀ j,
      (mid j).blockchain.chain.length < (mid i).blockchain.chain.length →
      ∃ e ∈ after, e.call.1 = j ∧ CatchesUp S (mid i).blockchain.chain e)
    (hshort : (mid i).blockchain.chain.length < 2 ^ 64) :
    ∀ j, (nodes j).blockchain.chain.length = (mid i).blockchain.chain.length ∧
      (nodes j).blockchain.tip.reread C = (mid i).blockchain.tip.reread C := by
  -- no chain is longer, and those as long end in the same tip
  have hin : ∀ j, (mid j).blockchain.chain ∈ (Origins.upTo C
      (mid i).blockchain.chain.length ((mid i).blockchain.tip.reread C)).chains := by
    intro j
    rcases hlongest j with hbehind | ⟨hlength, htip⟩
    · exact mem_upTo hbehind.le fun hlength => absurd hlength hbehind.ne
    · exact mem_upTo hlength.le fun _ => htip
  have hbacked := (backed_upTo hC hshort hbefore (along_of_append hclosed) hin).run_upTo hC hshort
    hafter hclosed hquiet
  intro j
  have hheld := (hbacked.nodes j).ledger.chain
  have hlength : (nodes j).blockchain.chain.length = (mid i).blockchain.chain.length := by
    refine Nat.le_antisymm hheld.1 ?_
    rcases hlongest j with hbehind | ⟨hsame, -⟩
    · obtain ⟨e, he, rfl, hcatches⟩ := hanswered j hbehind
      exact catchesUp_run hafter he hcatches
    · -- its own chain has not become shorter
      rw [← hsame]
      exact (hafter.givesWay (f := fun nodes => (nodes j).blockchain.chain)
        fun _ _ _ _ hs => each_givesWay hs j).1.le
  exact ⟨hlength, tip_of_mem_upTo hheld hlength⟩

end Network

/-- The theorem at two nodes, of which one has a block more than the other and
answers it. -/
theorem longest_chain_wins_asked : ∃ mid after nodes,
    Run (each fun _ : Bool => nodeStep suppressionSetup) mid after nodes ∧
      (mid false).blockchain.chain = [sampleGenesis, sampleBlock1] ∧
      (mid true).blockchain.chain = [sampleGenesis] ∧
      (nodes true).blockchain.chain.length = 2 := by
  obtain ⟨before, mid, after, nodes, h⟩ := askedLater_run
  -- after the asking nothing is mined
  have hquiet : ∀ e ∈ after, ∀ env minerAddress, e.call.2 ≠ .mine env minerAddress := by
    intro e he env minerAddress hmine
    have hcall : e.call ∈ askedLater := h.calls' ▸ List.mem_map_of_mem he
    rcases hevent : e.call with ⟨i, event⟩
    rw [hevent] at hcall hmine
    obtain rfl : event = .mine env minerAddress := hmine
    simp [askedLater] at hcall
  have hlength : (mid false).blockchain.chain.length = 2 := congrArg List.length h.mined
  have hlength' : (mid true).blockchain.chain.length = 1 := congrArg List.length h.behind
  have hlongest : ∀ j,
      (mid j).blockchain.chain.length < (mid false).blockchain.chain.length ∨
      (mid j).blockchain.chain.length = (mid false).blockchain.chain.length ∧
        (mid j).blockchain.tip.reread suppressionSetup.cfg.crypto =
          (mid false).blockchain.tip.reread suppressionSetup.cfg.crypto := by
    intro j
    cases j with
    | false => exact .inr ⟨rfl, rfl⟩
    | true => exact .inl (by omega)
  have hanswered : ∀ j,
      (mid j).blockchain.chain.length < (mid false).blockchain.chain.length →
      ∃ e ∈ after, e.call.1 = j ∧
        CatchesUp (fun _ => suppressionSetup) (mid false).blockchain.chain e := by
    intro j hbehind
    cases j with
    | false => exact absurd hbehind (Nat.lt_irrefl _)
    | true =>
      rw [h.mined]
      exact h.catchesUp
  obtain ⟨hwins, -⟩ := longest_chain_wins (fun _ => suppressionSetup)
    suppressionSetup.cfg.crypto (fun _ => rfl) (fun _ => []) (fun _ => sampleStart)
    (fun _ => none) before after mid nodes h.first h.second h.closed hquiet false hlongest
    hanswered (by omega) true
  exact ⟨mid, after, nodes, h.second, h.mined, h.behind, hwins.trans hlength⟩

end PersonalBlockchain
