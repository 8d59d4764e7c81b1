import PersonalBlockchain.Lib.Portions
import PersonalBlockchain.Network.Replay
import PersonalBlockchain.P2P.LedgerRuns
import PersonalBlockchain.P2P.Suppression

/-!
# Personal blockchain — how long a transaction waits

A pending transaction is served in its turn: a block takes the first hundred of
the mempool, and whatever peers send, nothing is put ahead of it. It leaves the
mempool only when its identifier is on the chain. That need not be the transaction
itself: a block or a chain from a peer clears the mempool of every identifier in it,
and nobody checks the identifier that a coinbase bears.

Main result: `pending_confirmed` — a pending transaction stays pending until its
identifier is on the chain, and a block mined by the node brings it a hundred places
forward.
-/

namespace PersonalBlockchain

open Machine Blockchain Portions

/-- The identifier is on the chain: some transaction there bears it. -/
def IdConfirmed (txID : String) (bc : Blockchain) : Prop :=
  ∃ confirmed ∈ chainTransactions bc.chain, confirmed.txID = txID

instance {txID : String} {bc : Blockchain} : Decidable (IdConfirmed txID bc) :=
  inferInstanceAs (Decidable (∃ confirmed ∈ chainTransactions bc.chain, _))

variable {cfg : NodeConfig} {now : TimePoint} {bc bc' : Blockchain} {tx : Transaction} {n : Nat}

/-- A mined block takes the transaction, or a hundred of those ahead of it. -/
theorem ahead_mined {minerAddress : String} {block : Block}
    (h : Ahead tx n bc.mempool) (hm : Mined cfg now minerAddress bc block bc') :
    IdConfirmed tx.txID bc' ∨ Ahead tx (n - maxTxsPerBlock) bc'.mempool := by
  rw [hm.mempool]
  refine (h.serve maxTxsPerBlock).imp (fun htaken => ⟨tx, ?_, rfl⟩) id
  rw [hm.chain, chainTransactions_append]
  simp [hm.transactions, htaken]

/-- **One call of the ledger** confirms the identifier, or leaves no more ahead
of the transaction than were there: new transactions come after it. -/
theorem ahead_step {call : Call} {r : Reply} (h : Ahead tx n bc.mempool)
    (hs : step cfg call bc = some (r, bc')) : IdConfirmed tx.txID bc' ∨ Ahead tx n bc'.mempool := by
  cases step_cases hs with
  | unchanged => exact .inr h
  | queued tx' _ _ => exact .inr (h.append [tx'])
  | mined minerAddress block _ _ hm =>
    exact (ahead_mined h hm).imp id fun hless => hless.mono (Nat.sub_le _ _)
  -- who is taken out is in the block, or on the chain
  | received block _ _ =>
    by_cases hin : ∃ confirmed ∈ block.transactions, confirmed.txID = tx.txID
    · obtain ⟨confirmed, hmem, heq⟩ := hin
      refine .inl ⟨confirmed, ?_, heq⟩
      rw [receive, chainTransactions_append]
      simp [hmem]
    · exact .inr (h.filter (by simpa using hin))
  | adopted newChain hne _ _ =>
    by_cases hin : IdConfirmed tx.txID (bc.adopt newChain hne)
    · exact .inl hin
    · refine .inr (h.filter (mem_kept_adopt.mpr fun confirmed hmem _ heq => ?_))
      exact hin ⟨confirmed, hmem, heq⟩

/-- Whether an event is a mining request. -/
def NodeEvent.isMine : NodeEvent → Bool
  | .mine _ _ => true
  | _ => false

/-- **A pending transaction is served in its turn.** Along every run of a node,
from any state and whatever its peers send it: the identifier of a pending
transaction has been on the chain at some time of the run, or the transaction is
pending still. In the second case the node has mined fewer blocks than it takes to
serve those ahead of it. -/
theorem pending_confirmed (S : NodeSetup) (start node : Node)
    (tr : List (Entry Node NodeEvent Unit)) (h : NodeRun S start tr node)
    (front back : List Transaction) (tx : Transaction)
    (hpending : start.blockchain.mempool = front ++ tx :: back) :
    (∃ e ∈ tr, IdConfirmed tx.txID e.post.blockchain) ∨
      tx ∈ node.blockchain.mempool ∧
        (tr.filter fun e => e.call.isMine).length ≤ front.length / maxTxsPerBlock := by
  have hfirst : Ahead tx (maxTxsPerBlock * (front.length / maxTxsPerBlock + 1))
      start.blockchain.mempool :=
    ⟨front, back, hpending, Nat.lt_mul_div_succ _ (by decide)⟩
  have hcount := h.countdown (P := fun node => IdConfirmed tx.txID node.blockchain)
    (J := fun n node => Ahead tx (maxTxsPerBlock * (n + 1)) node.blockchain.mempool)
    (K := NodeEvent.isMine) ?_ hfirst
  · refine hcount.imp id fun ⟨k, hk, hahead⟩ => ⟨hahead.mem, ?_⟩
    omega
  · intro n node event u node' hahead hstep
    cases hkind : event.isMine with
    | false =>
      rcases nodeStep_ledger hstep with hsame | ⟨call, r, -, hs⟩
      · exact .inr ⟨hsame ▸ hahead, nofun⟩
      · exact (ahead_step hahead hs).imp id fun hahead => ⟨hahead, nofun⟩
    | true =>
      obtain ⟨env, minerAddress, rfl⟩ : ∃ env minerAddress, event = .mine env minerAddress := by
        cases event with
        | mine env minerAddress => exact ⟨env, minerAddress, rfl⟩
        | _ => cases hkind
      obtain ⟨block, hm⟩ := nodeStep_mines hstep
      refine (ahead_mined hahead hm).imp id fun hless => ?_
      have hroom := hless.pos
      rw [Nat.mul_succ, Nat.add_sub_cancel] at hless hroom
      refine ⟨hless.mono (Nat.mul_le_mul_left _ (Nat.le_succ n)), fun _ => ?_⟩
      -- a full portion less
      obtain ⟨n, rfl⟩ := Nat.exists_eq_succ_of_ne_zero (Nat.pos_of_mul_pos_left hroom).ne'
      exact ⟨n, Nat.lt_succ_self n, hless⟩

/-- The sample transfer waits, and a block is mined. -/
theorem pending_confirmed_mined : ∃ start tr node, NodeRun suppressionSetup start tr node ∧
    start.blockchain.mempool = [sampleTransfer] ∧
    (∃ e ∈ tr, IdConfirmed sampleTransfer.txID e.post.blockchain) := by
  obtain ⟨before, start, tr, node, -, hrun, -, -, hcheck⟩ := Run.exists_of_exec_twice
    (nodeStep suppressionSetup)
    [.mine (sampleEnv 0) sampleMiner,
      .input (sampleEnv 5) (.accepted (some ("10.0.0.2", 50000))),
      .input (sampleEnv 10) (.message 0 ⟨.newTransaction, sampleTransfer.toJson⟩)]
    [.mine (sampleEnv 20) sampleMiner] suppressionNode
    (fun r r' => decide (r.2.blockchain.mempool = [sampleTransfer] ∧
      r'.2.blockchain.mempool = []))
    (by decide +kernel)
  obtain ⟨hpending, hempty⟩ := of_decide_eq_true hcheck
  refine ⟨start, tr, node, hrun, hpending, ?_⟩
  -- it no longer waits, since the mempool is empty
  refine (pending_confirmed suppressionSetup start node tr hrun [] [] sampleTransfer
    hpending).resolve_right fun hwaits => ?_
  rw [hempty] at hwaits
  exact absurd hwaits.1 (List.not_mem_nil)

end PersonalBlockchain
