import PersonalBlockchain.Ledger.Refinement

/-!
# Personal blockchain — the genesis block

A new node mines the genesis block every node of its difficulty mines. Mining
and `acceptBlock` build on it, but `replaceChain` validates the first block of
an offered chain on its own terms only (hash, Merkle root, zero
`previousHash`) and never compares it with the node's. The genesis block stays
in place exactly when every chain the node adopts begins with it.

## Results

* `beginsWith_step` — one call keeps the genesis block exactly when the chain it
  makes the node adopt, if any, begins with it;
* `genesis_immutable_iff` — the same along every history;
* `genesis_immutable_counterexample` — a chain with a genesis block of its own.
-/

namespace PersonalBlockchain

open Machine Blockchain

/-- The first block of the chain is `genesis`. -/
def BeginsWith (genesis : Block) (chain : List Block) : Prop :=
  chain.head? = some genesis

/-- Whatever chain the call makes the node adopt begins with `genesis`. -/
def OffersGenesis (cfg : NodeConfig) (genesis : Block) (bc : Blockchain) (call : Call) : Prop :=
  ∀ newChain, call.op.offered cfg.crypto = some newChain → Adopts cfg call.now newChain bc →
    BeginsWith genesis newChain

/-- What comes behind does not change what a chain begins with. -/
theorem beginsWith_append {genesis : Block} {chain : List Block} (hne : chain ≠ [])
    (rest : List Block) : BeginsWith genesis (chain ++ rest) ↔ BeginsWith genesis chain := by
  unfold BeginsWith
  rw [List.head?_append_of_ne_nil _ hne]

/-- One call keeps the genesis block exactly when it offers it. -/
theorem beginsWith_step {cfg : NodeConfig} {genesis : Block} {call : Call} {bc bc' : Blockchain}
    {r : Reply} (hP : BeginsWith genesis bc.chain) (h : step cfg call bc = some (r, bc')) :
    BeginsWith genesis bc'.chain ↔ OffersGenesis cfg genesis bc call := by
  cases step_cases h with
  | unchanged _ _ hchain =>
    exact iff_of_true hP fun newChain hoffer hado => absurd hado (hchain newChain hoffer)
  | queued tx hop _ => exact iff_of_true hP (by simp [OffersGenesis, hop, Op.offered])
  -- a block on top leaves the first one where it is
  | mined minerAddress block _ hop hm =>
    rw [hm.chain, beginsWith_append bc.chain_ne]
    exact iff_of_true hP (by simp [OffersGenesis, hop, Op.offered])
  | received block hop _ =>
    rw [receive, beginsWith_append bc.chain_ne]
    exact iff_of_true hP (by simp [OffersGenesis, hop, Op.offered])
  | adopted newChain _ hop hado =>
    constructor
    · intro hbegins chain' hoffer _
      obtain rfl : newChain = chain' := Option.some.inj (hop.symm.trans hoffer)
      exact hbegins
    · exact fun hoffers => hoffers newChain hop hado

/-- **When the genesis block stays.** In every history of a node started on a
fresh data directory, the chain begins with the genesis block mined at
construction after every call, if and only if each chain that a call makes the
node adopt begins with that block. -/
theorem genesis_immutable_iff {cfg : NodeConfig} {now : TimePoint} {difficulty : UInt32}
    {start bc : Blockchain} {tr : List NodeEntry} (hstart : Starts cfg now difficulty none start)
    (hist : History cfg start tr bc) :
    ∃ genesis, Block.createGenesis cfg.crypto difficulty = some genesis ∧
      start.chain = [genesis] ∧
      ((∀ e ∈ tr, BeginsWith genesis e.post.chain) ↔
        ∀ e ∈ tr, OffersGenesis cfg genesis e.pre e.call) := by
  obtain ⟨-, -, genesis, hgenesis, hchain, -⟩ := start_fresh hstart
  have hbegins : BeginsWith genesis start.chain := by
    rw [BeginsWith, hchain]
    rfl
  refine ⟨genesis, hgenesis, hchain, ?_⟩
  exact hist.forall_post_iff (I := fun _ => True) (P := fun bc => BeginsWith genesis bc.chain)
    (C := OffersGenesis cfg genesis) trivial (fun _ _ _ _ _ _ => trivial) hbegins
    fun _ _ _ _ _ => beginsWith_step

/-! ## A genesis block of one's own

A chain of two blocks whose first credits a million coins to the payee. -/

section Sample

/-- A genesis reward of a million to the payee. -/
def otherCoinbase : Transaction where
  txID := "664592e93440a799a85612efab85f6ca06f16047aae524aa55455789b9c836fc"
  senderPublicKey := "COINBASE"
  fromAddress := "COINBASE"
  toAddress := samplePayee
  amount := 1000000
  payload := "Genesis Block"
  timestamp := "2026-01-01T00:00:00Z"

/-- The genesis block with this reward. -/
def otherGenesis : Block where
  index := 0
  timestamp := "2026-01-01T00:00:00Z"
  previousHash := "0000000000000000000000000000000000000000000000000000000000000000"
  transactions := [otherCoinbase]
  merkleRoot := otherCoinbase.txID
  nonce := 0
  difficulty := 0
  hash := "8fa83a572ab7538f12cad15dfb2facd84508993957c5bf3c5f474dc600be8b42"

/-- An empty block on top of it, so that the chain is longer than the node's. -/
def otherBlock1 : Block where
  index := 1
  timestamp := "2026-03-14T12:00:00Z"
  previousHash := otherGenesis.hash
  transactions := []
  merkleRoot := "e3b0c44298fc1c149afbf4c8996fb92427ae41e4649b934ca495991b7852b855"
  nonce := 0
  difficulty := 0
  hash := "529a2fcd34b844ec2b57aa34c8de0b305456ff002b0deb3e3e0af334f29f31e2"

/-- The digests of both chains, without an engine. -/
def otherConfig : NodeConfig where
  crypto := .ofTable (sampleDigests ++
    [(buildTxCore otherCoinbase, otherCoinbase.txID),
      (otherGenesis.headerString, otherGenesis.hash), ("", otherBlock1.merkleRoot),
      (otherBlock1.headerString, otherBlock1.hash)]) []
  consensusEngine := none

theorem otherChain_start : Block.createGenesis otherConfig.crypto 0 = some sampleGenesis := by
  decide +kernel

/-- The node adopts the chain, and the payee has its million. -/
theorem otherChain_history : ∃ tr bc, History otherConfig sampleStart tr bc ∧
    (∃ e ∈ tr, e.post.chain = [otherGenesis, otherBlock1]) ∧
      bc.getBalanceForAddress samplePayee = 1000000 := by
  obtain ⟨tr, bc, hist, hcheck⟩ := Run.exists_of_exec (step otherConfig)
    [⟨sampleTime 0, .replaceChain [otherGenesis, otherBlock1]⟩] sampleStart
    (fun r => (r.1.any fun e => e.post.chain = [otherGenesis, otherBlock1]) &&
      r.2.getBalanceForAddress samplePayee = 1000000) (by decide +kernel)
  simp only [Bool.and_eq_true, List.any_eq_true, decide_eq_true_eq] at hcheck
  exact ⟨tr, bc, hist, hcheck⟩

end Sample

/-- A new node exchanges its genesis block for the offered one. -/
theorem genesis_immutable_counterexample :
    ¬ ∀ (cfg : NodeConfig) (now : TimePoint) (difficulty : UInt32) (start bc : Blockchain)
      (tr : List NodeEntry) (genesis : Block), Starts cfg now difficulty none start →
      History cfg start tr bc → Block.createGenesis cfg.crypto difficulty = some genesis →
      ∀ e ∈ tr, BeginsWith genesis e.post.chain := by
  intro h
  obtain ⟨tr, bc, hist, ⟨e, he, hpost⟩, -⟩ := otherChain_history
  have hstart := starts_freshNode otherChain_start (sampleTime 0)
  have hbegins := h _ _ _ _ _ _ _ hstart hist otherChain_start e he
  rw [hpost, BeginsWith] at hbegins
  revert hbegins
  decide

/-- The theorem on the run that adopts the other chain. -/
theorem genesis_immutable_iff_sample :
    ∃ (tr : List NodeEntry) (bc : Blockchain), History otherConfig sampleStart tr bc ∧
      ¬ ∀ e ∈ tr, OffersGenesis otherConfig sampleGenesis e.pre e.call := by
  obtain ⟨tr, bc, hist, ⟨e, he, hpost⟩, -⟩ := otherChain_history
  obtain ⟨genesis, hgenesis, -, hiff⟩ :=
    genesis_immutable_iff (starts_freshNode otherChain_start (sampleTime 0)) hist
  obtain rfl : sampleGenesis = genesis := Option.some.inj (otherChain_start.symm.trans hgenesis)
  refine ⟨tr, bc, hist, fun hoffers => ?_⟩
  have hbegins := hiff.mpr hoffers e he
  rw [hpost, BeginsWith] at hbegins
  revert hbegins
  decide

end PersonalBlockchain
