import PersonalBlockchain.P2P.ChainSync
import PersonalBlockchain.P2P.Connections
import PersonalBlockchain.P2P.Origins
import PersonalBlockchain.P2P.Suppression

/-!
# Personal blockchain — catching up

A node that is behind asks for the chain of a peer. By the time the answer is
handled both chains may have changed, and the answer may come late, or come
again; still the node is not behind the chain that it was sent. What makes this so
is that a chain gives way to longer ones only (`nodeStep_givesWay`).

## Results

* `requestChain_answered` — what a node answers;
* `catchesUp_run` — whoever has handled a valid chain is never behind it again;
* `chain_catch_up` — both together, for networks of any shape.
-/

namespace PersonalBlockchain

open Machine Blockchain Locking Routine NodeM

/-! ## A chain gives way to longer ones only -/

/-- An operation of the ledger leaves the chain, adds a block, or takes a longer
one. -/
theorem step_givesWay {cfg : NodeConfig} {call : Call} {bc bc' : Blockchain} {r : Reply}
    (h : step cfg call bc = some (r, bc')) : GivesWay List.length bc.chain bc'.chain := by
  cases step_cases h with
  | unchanged | queued => exact .refl _ _
  | mined minerAddress block _ _ hm => exact .inr (by simp [hm.chain])
  | received block _ _ => exact .inr (by simp [receive])
  | adopted newChain _ _ hado => exact .inr (prefersChain_iff.mp hado.preferred)

theorem nodeStep_givesWay {S : NodeSetup} {event : NodeEvent} {u : Unit} {node node' : Node}
    (h : nodeStep S event node = some (u, node')) :
    GivesWay List.length node.blockchain.chain node'.blockchain.chain := by
  rcases nodeStep_ledger h with hsame | ⟨call, r, -, hs⟩
  · rw [hsame]
    exact .refl _ _
  · exact step_givesWay hs

theorem each_givesWay {ι : Type} [DecidableEq ι] {S : ι → NodeSetup} {call : ι × NodeEvent}
    {u : Unit} {nodes nodes' : ι → Node}
    (h : each (fun i => nodeStep (S i)) call nodes = some (u, nodes')) (i : ι) :
    GivesWay List.length (nodes i).blockchain.chain (nodes' i).blockchain.chain := by
  obtain ⟨hlocal, hothers⟩ := each_eq_some h
  by_cases hi : i = call.1
  · subst hi
    exact nodeStep_givesWay hlocal
  · rw [hothers i hi]
    exact .refl _ _

/-! ## Question and answer -/

section OneNode

variable {S : NodeSetup} {env : Env} {p : PeerId} {payload : Json} {node node' : Node} {u : Unit}

/-- A request that is admitted is answered with the chain as it is, when there is
room in the queue. -/
theorem requestChain_answered
    (h : nodeStep S (.input env (.message p ⟨.requestChain, payload⟩)) node = some (u, node'))
    (hadmits : node.Admits S env p ⟨.requestChain, payload⟩)
    (hroom : (node.connection p).writeQueue.length < Peer.maxWriteQueue) :
    (node'.connection p).writeQueue =
      (node.connection p).writeQueue ++ [responseChain node.blockchain.chain] := by
  obtain ⟨mid, hdispatch, rfl⟩ := handleMessage_returned hadmits (handlerReturned_eq_some.mp h)
  -- counting the message leaves the queue alone
  have hcounted : ((node.counted env p).connection p).writeQueue =
      (node.connection p).writeQueue :=
    (congrArg Peer.writeQueue (updatePeer_connection.trans (if_pos rfl))).trans rfl
  have hmid : mid = (node.received S env p ⟨.requestChain, payload⟩).updatePeer p
      fun peer => peer.send (responseChain node.blockchain.chain) :=
    (congrArg Prod.snd hdispatch).symm.trans (congrArg Prod.snd (onRequestChain_run p _))
  have hqueue : (mid.connection p).writeQueue =
      (((node.counted env p).connection p).send
        (responseChain node.blockchain.chain)).writeQueue := by
    rw [hmid, updatePeer_connection, if_pos rfl]
    rfl
  show (mid.connection p).writeQueue = _
  rw [hqueue, Peer.send, if_neg (by rw [hcounted]; exact Nat.not_le.mpr hroom)]
  exact congrArg (· ++ _) hcounted

/-- The chain in an answer that is admitted is offered to the ledger. -/
theorem responseChain_replaces {newChain : List Block}
    (h : nodeStep S (.input env (.message p ⟨.responseChain, payload⟩)) node = some (u, node'))
    (hadmits : node.Admits S env p ⟨.responseChain, payload⟩)
    (hdecoded : payload.iterate.mapM (Block.fromJson S.cfg.crypto) = .ok newChain) :
    node'.blockchain = (node.blockchain.replaceChain S.cfg env.now newChain).node := by
  obtain ⟨mid, hdispatch, rfl⟩ := handleMessage_returned hadmits (handlerReturned_eq_some.mp h)
  exact (congrArg (fun r => r.2.blockchain) hdispatch).symm.trans
    (onResponseChain_replaces hdecoded)

/-- After a valid chain was offered the ledger is not behind it. -/
theorem replaceChain_length {cfg : NodeConfig} {now : TimePoint} {newChain : List Block}
    {bc : Blockchain} (hvalid : validateChainAgainstConsensus cfg now newChain = true) :
    newChain.length ≤ (bc.replaceChain cfg now newChain).node.chain.length := by
  by_cases hlonger : bc.chain.length < newChain.length
  · rw [replaceChain_of ⟨prefersChain_iff.mpr hlonger, hvalid⟩]
    exact Nat.le_refl _
  · have hstep : step cfg ⟨now, .replaceChain newChain⟩ bc = some _ := rfl
    exact (Nat.not_lt.mp hlonger).trans (step_length hstep)

end OneNode

/-! ## Networks -/

variable {ι : Type}

/-- A node handles an answer with this chain, which it admits and finds valid. -/
def CatchesUp (S : ι → NodeSetup) (chain : List Block) (e : NetworkEntry ι) : Prop :=
  match e.call.2 with
  | .input env (.message p msg) =>
    msg = responseChain chain ∧ (e.pre e.call.1).Admits (S e.call.1) env p msg ∧
      validateChainAgainstConsensus (S e.call.1).cfg env.now
        (chain.map (Block.reread (S e.call.1).cfg.crypto)) = true
  | _ => False

instance {S : ι → NodeSetup} {chain : List Block} {e : NetworkEntry ι} :
    Decidable (CatchesUp S chain e) := by
  unfold CatchesUp
  split
  · infer_instance
  · infer_instance

variable [DecidableEq ι] {S : ι → NodeSetup} {chain : List Block} {e : NetworkEntry ι}
  {start nodes : ι → Node} {tr : List (NetworkEntry ι)}

theorem CatchesUp.length_le (h : CatchesUp S chain e)
    (hstep : each (fun i => nodeStep (S i)) e.call e.pre = some (e.ret, e.post)) :
    chain.length ≤ (e.post e.call.1).blockchain.chain.length := by
  obtain ⟨hlocal, -⟩ := each_eq_some hstep
  unfold CatchesUp at h
  split at h
  case h_2 => exact h.elim
  next env p msg hcall =>
  obtain ⟨rfl, hadmits, hvalid⟩ := h
  rw [hcall] at hlocal
  -- what arrives decodes to the chain as it is read again
  have hdecoded : (responseChain chain).payload.iterate.mapM
      (Block.fromJson (S e.call.1).cfg.crypto) =
        .ok (chain.map (Block.reread (S e.call.1).cfg.crypto)) :=
    mapM_encoded (Block.fromJson_toJson _) chain
  rw [responseChain_replaces hlocal hadmits hdecoded,
    ← List.length_map (Block.reread (S e.call.1).cfg.crypto)]
  exact replaceChain_length hvalid

/-- From then on the node is not behind the chain: the step that handles it
makes its chain as long at least, and later steps keep that. -/
theorem catchesUp_run (h : Run (each fun i => nodeStep (S i)) start tr nodes) (he : e ∈ tr)
    (hcatches : CatchesUp S chain e) :
    chain.length ≤ (nodes e.call.1).blockchain.chain.length := by
  have hlater := (h.givesWay (f := fun nodes => (nodes e.call.1).blockchain.chain)
    fun _ _ _ _ hs => each_givesWay hs e.call.1).2 e he
  exact (hcatches.length_le (h.entry e he).1).trans hlater.le

/-- **Catching up.** In a network of any nodes, in whatever order they take their
steps: a node that admits a REQUEST_CHAIN puts its chain of that moment into the
queue for the peer, if there is room. And from the moment another node handles
this answer, which it admits and finds valid, its chain is at no time shorter
than the one it was sent, whatever happened to either in between. -/
theorem chain_catch_up (S : ι → NodeSetup) (start : ι → Node) (tr : List (NetworkEntry ι))
    (nodes : ι → Node) (h : Run (each fun i => nodeStep (S i)) start tr nodes) :
    ∀ e ∈ tr, ∀ env p payload, e.call.2 = .input env (.message p ⟨.requestChain, payload⟩) →
      (e.pre e.call.1).Admits (S e.call.1) env p ⟨.requestChain, payload⟩ →
      ((e.pre e.call.1).connection p).writeQueue.length < Peer.maxWriteQueue →
      ((e.post e.call.1).connection p).writeQueue = ((e.pre e.call.1).connection p).writeQueue ++
        [responseChain (e.pre e.call.1).blockchain.chain] ∧
      ∀ e' ∈ tr, CatchesUp S (e.pre e.call.1).blockchain.chain e' →
        (e.pre e.call.1).blockchain.chain.length ≤
          (nodes e'.call.1).blockchain.chain.length := by
  intro e he env p payload hcall hadmits hroom
  obtain ⟨hlocal, -⟩ := each_eq_some (h.entry e he).1
  rw [hcall] at hlocal
  exact ⟨requestChain_answered hlocal hadmits hroom, fun e' he' => catchesUp_run h he'⟩

/-! ## One node asks, and the other answers -/

section Sample

/-- One node mines, which the other does not hear of. -/
def minedUnheard : List (Bool × NodeEvent) :=
  [(false, .input (sampleEnv 0) (.accepted (some ("10.0.0.2", 50000)))),
    (true, .input (sampleEnv 0) (.accepted (some ("10.0.0.1", 9000)))),
    (false, .mine (sampleEnv 0) sampleMiner)]

/-- Later it asks for the chain. -/
def askedLater : List (Bool × NodeEvent) :=
  [(true, .input (sampleEnv 1) .requestChain),
    (false, .input (sampleEnv 1) (.message 0 { type := .requestChain })),
    (true, .input (sampleEnv 2) (.message 0 (responseChain [sampleGenesis, sampleBlock1])))]

/-- A message is admitted, and there is room for an answer. -/
def AdmitsWithRoom (S : NodeSetup) (e : NetworkEntry Bool) : Prop :=
  match e.call.2 with
  | .input env (.message p msg) =>
    (e.pre e.call.1).Admits S env p msg ∧
      ((e.pre e.call.1).connection p).writeQueue.length < Peer.maxWriteQueue
  | _ => True

instance {S : NodeSetup} {e : NetworkEntry Bool} : Decidable (AdmitsWithRoom S e) := by
  unfold AdmitsWithRoom
  split
  · infer_instance
  · infer_instance

/-- A run of these events, of which the second part starts in `mid`. -/
structure AskedLater (before : List (NetworkEntry Bool)) (mid : Bool → Node)
    (after : List (NetworkEntry Bool)) (nodes : Bool → Node) : Prop where
  first : Run (each fun _ => nodeStep suppressionSetup) (fun _ => suppressionNode) before mid
  second : Run (each fun _ => nodeStep suppressionSetup) mid after nodes
  calls : before.map Entry.call = minedUnheard
  calls' : after.map Entry.call = askedLater
  closed : Along Delivered (before ++ after)
  mined : (mid false).blockchain.chain = [sampleGenesis, sampleBlock1]
  behind : (mid true).blockchain.chain = [sampleGenesis]
  last : (nodes false).blockchain.chain = [sampleGenesis, sampleBlock1]
  held : ∀ e ∈ after, (e.pre false).blockchain.chain = [sampleGenesis, sampleBlock1] ∧
    (e.post false).blockchain.chain = [sampleGenesis, sampleBlock1]
  admits : ∀ e ∈ after, AdmitsWithRoom suppressionSetup e
  catchesUp : ∃ e ∈ after, e.call.1 = true ∧
    CatchesUp (fun _ => suppressionSetup) [sampleGenesis, sampleBlock1] e

theorem askedLater_run : ∃ before mid after nodes, AskedLater before mid after nodes := by
  -- the miner's block goes unheard; the other node asks for the chain later
  obtain ⟨before, mid, after, nodes, hbefore, hafter, hcalls, hcalls', hcheck⟩ :=
    Run.exists_of_exec_twice (each fun _ : Bool => nodeStep suppressionSetup) minedUnheard
      askedLater (fun _ => suppressionNode)
      (fun r r' => decide (Along (DeliveredOver [(false, 0), (true, 0)]) (r.1 ++ r'.1) ∧
        (r.2 false).blockchain.chain = [sampleGenesis, sampleBlock1] ∧
        (r.2 true).blockchain.chain = [sampleGenesis] ∧
        (r'.2 false).blockchain.chain = [sampleGenesis, sampleBlock1] ∧
        (∀ e ∈ r'.1, (e.pre false).blockchain.chain = [sampleGenesis, sampleBlock1] ∧
          (e.post false).blockchain.chain = [sampleGenesis, sampleBlock1]) ∧
        (∀ e ∈ r'.1, AdmitsWithRoom suppressionSetup e) ∧
        ∃ e ∈ r'.1, e.call.1 = true ∧
          CatchesUp (fun _ => suppressionSetup) [sampleGenesis, sampleBlock1] e))
      (by decide +kernel)
  obtain ⟨hdelivered, hmined, hbehind, hlast, hheld, hadmits, hcatches⟩ := of_decide_eq_true hcheck
  exact ⟨before, mid, after, nodes, hbefore, hafter, hcalls, hcalls', delivered_of_over hdelivered,
    hmined, hbehind, hlast, hheld, hadmits, hcatches⟩

end Sample

/-- The theorem at the sample: the node that did not hear of the block has two
blocks after the answer. -/
theorem chain_catch_up_asked : ∃ start tr nodes,
    Run (each fun _ : Bool => nodeStep suppressionSetup) start tr nodes ∧
      (start true).blockchain.chain = [sampleGenesis] ∧
      2 ≤ (nodes true).blockchain.chain.length := by
  obtain ⟨before, mid, after, nodes, h⟩ := askedLater_run
  obtain ⟨e', he', hj, hcatches⟩ := h.catchesUp
  -- the second entry is the question
  have hasked : (false, .input (sampleEnv 1) (.message 0 { type := .requestChain })) ∈
      after.map Entry.call := by
    rw [h.calls']
    exact .tail _ (.head _)
  obtain ⟨e, he, hcall⟩ := List.mem_map.mp hasked
  have hroom := h.admits e he
  have hheld := (h.held e he).1
  rw [AdmitsWithRoom, hcall] at hroom
  have hall := (chain_catch_up (fun _ => suppressionSetup) mid after nodes h.second e he
    (sampleEnv 1) 0 (.object []) (by rw [hcall]) (by rw [hcall]; exact hroom.1)
    (by rw [hcall]; exact hroom.2)).2 e' he'
  rw [hcall, hheld, hj] at hall
  exact ⟨mid, after, nodes, h.second, h.behind, hall hcatches⟩

end PersonalBlockchain
