import PersonalBlockchain.Ledger.Refinement

/-!
# Personal blockchain — all-or-nothing calls and the change stamp

Every rejection of the five operations comes before the first mutation, so a
call either leaves the node as it was and calls nobody, or goes through and
raises `chainUpdateVersion_` by one. The stamp is a `uint64_t`: it tells two
points of a history apart as long as fewer than `2 ^ 64` calls succeeded in
between, and comes back to an old value after exactly that many.

## Results

* `allOrNothing_step` — one call is all or nothing;
* `stamp_counts` — the stamp counts the calls that succeeded, in 64 bits;
* `stamp_eq_iff` — when two points of a history have one stamp;
* `change_stamp` — with fewer than `2 ^ 64` successes in between, only when
  nothing changed.
-/

namespace PersonalBlockchain

open Machine Blockchain

/-- Whether a completed call succeeded: mining always does, the three answering
operations say so, and `chainFromJson` drops the answer of `replaceChain`. -/
def succeeded (cfg : NodeConfig) (e : NodeEntry) : Bool :=
  match e.call.op, e.ret.answer with
  | .chainFromJson j, _ =>
    match j.iterate.mapM (Block.fromJson cfg.crypto) with
    -- decoding threw
    | .error _ => false
    | .ok newChain => (e.pre.replaceChain cfg e.call.now newChain).ret
  | _, .bool accepted => accepted
  | _, _ => true

/-- The number of calls of a run that succeeded. -/
def successes (cfg : NodeConfig) (tr : List NodeEntry) : Nat :=
  (tr.filter (succeeded cfg)).length

/-- A call that fails changes nothing and calls nobody; one that succeeds raises
the stamp by one. The chain never gets shorter, and an adopted chain is strictly
longer. -/
structure AllOrNothing (cfg : NodeConfig) (e : NodeEntry) : Prop where
  failed : succeeded cfg e = false → e.post = e.pre ∧ e.ret.effects = []
  stamped : succeeded cfg e = true →
    e.post.chainUpdateVersion = e.pre.chainUpdateVersion + 1
  length_le : e.pre.chain.length ≤ e.post.chain.length
  longer : ∀ newChain, e.call.op.offered cfg.crypto = some newChain →
    succeeded cfg e = true → e.pre.chain.length < e.post.chain.length

/-! ## One call -/

/-- The node and the calls to its collaborators after an offer of a chain. -/
theorem replaceChain_allOrNothing (cfg : NodeConfig) (now : TimePoint) (newChain : List Block)
    (bc : Blockchain) :
    ((bc.replaceChain cfg now newChain).ret = false →
        (bc.replaceChain cfg now newChain).node = bc ∧
          (bc.replaceChain cfg now newChain).effects = []) ∧
      ((bc.replaceChain cfg now newChain).ret = true →
        (bc.replaceChain cfg now newChain).node.chainUpdateVersion =
            bc.chainUpdateVersion + 1 ∧
          bc.chain.length < (bc.replaceChain cfg now newChain).node.chain.length) := by
  rcases replaceChain_cases cfg now newChain bc with hrej | hado
  · rw [hrej]
    exact ⟨fun _ => ⟨rfl, rfl⟩, by simp [rejected]⟩
  · rw [replaceChain_of hado]
    exact ⟨by simp, fun _ => ⟨rfl, prefersChain_iff.mp hado.preferred⟩⟩

/-- **One call is all or nothing**, whatever the operation and the state. -/
theorem allOrNothing_step {cfg : NodeConfig} {call : Call} {bc bc' : Blockchain} {r : Reply}
    (h : step cfg call bc = some (r, bc')) : AllOrNothing cfg ⟨bc, call, r, bc'⟩ := by
  have hlength := step_length h
  obtain ⟨now, op⟩ := call
  cases op with
  | addTransaction tx =>
    cases h
    -- the answer is that of the operation
    rcases addTransaction_cases cfg now tx bc with hrej | ⟨-, hout⟩
    · simp only [hrej] at hlength ⊢
      exact ⟨fun _ => ⟨rfl, rfl⟩, fun hs => (Bool.false_ne_true hs).elim, hlength,
        fun _ hoffer => by cases hoffer⟩
    · simp only [hout] at hlength ⊢
      exact ⟨fun hs => (Bool.noConfusion hs), fun _ => rfl, hlength,
        fun _ hoffer => by cases hoffer⟩
  | minePendingTransactions minerAddress =>
    simp only [step, Option.map_eq_some_iff] at h
    obtain ⟨out, hout, hr⟩ := h
    cases hr
    have hmined := (mine_spec hout).1
    exact ⟨fun hs => (Bool.noConfusion hs), fun _ => hmined.version, hlength,
      fun _ hoffer => by cases hoffer⟩
  | acceptBlock block =>
    cases h
    by_cases hacc : Accepts cfg now block bc
    · simp only [acceptBlock_of hacc] at hlength ⊢
      exact ⟨fun hs => (Bool.noConfusion hs), fun _ => rfl, hlength,
        fun _ hoffer => by cases hoffer⟩
    · simp only [(acceptBlock_cases cfg now block bc).resolve_right hacc] at hlength ⊢
      exact ⟨fun _ => ⟨rfl, rfl⟩, fun hs => (Bool.false_ne_true hs).elim, hlength,
        fun _ hoffer => by cases hoffer⟩
  | replaceChain newChain =>
    cases h
    obtain ⟨hfail, hsucc⟩ := replaceChain_allOrNothing cfg now newChain bc
    exact ⟨hfail, fun hs => (hsucc hs).1, hlength, fun _ _ hs => (hsucc hs).2⟩
  | chainFromJson j =>
    cases h
    rcases chainFromJson_cases cfg now j bc with
      ⟨e, hdecode, hnode, heffects⟩ | ⟨newChain, hdecode, -, heffects, hnode⟩
    · -- decoding threw before the chain was offered
      have hs : succeeded cfg ⟨bc, ⟨now, .chainFromJson j⟩,
          ⟨.imported (bc.chainFromJson cfg now j).ret, (bc.chainFromJson cfg now j).effects⟩,
          (bc.chainFromJson cfg now j).node⟩ = false := by
        simp [succeeded, hdecode]
      exact ⟨fun _ => ⟨hnode, heffects⟩, fun h => (Bool.false_ne_true (hs.symm.trans h)).elim,
        hlength, fun _ _ h => (Bool.false_ne_true (hs.symm.trans h)).elim⟩
    · have hs : succeeded cfg ⟨bc, ⟨now, .chainFromJson j⟩,
          ⟨.imported (bc.chainFromJson cfg now j).ret, (bc.chainFromJson cfg now j).effects⟩,
          (bc.chainFromJson cfg now j).node⟩ = (bc.replaceChain cfg now newChain).ret := by
        simp [succeeded, hdecode]
      obtain ⟨hfail, hsucc⟩ := replaceChain_allOrNothing cfg now newChain bc
      refine ⟨fun h => ?_, fun h => ?_, hlength, fun _ _ h => ?_⟩
      · obtain ⟨hsame, hquiet⟩ := hfail (hs.symm.trans h)
        exact ⟨hnode.trans hsame, heffects.trans hquiet⟩
      · show (bc.chainFromJson cfg now j).node.chainUpdateVersion = _
        rw [hnode]
        exact (hsucc (hs.symm.trans h)).1
      · show _ < (bc.chainFromJson cfg now j).node.chain.length
        rw [hnode]
        exact (hsucc (hs.symm.trans h)).2

/-! ## Histories -/

theorem successes_snoc (cfg : NodeConfig) (tr : List NodeEntry) (e : NodeEntry) :
    successes cfg (tr ++ [e]) = successes cfg tr + if succeeded cfg e then 1 else 0 := by
  unfold successes
  rw [List.filter_append, List.length_append, List.filter_singleton]
  cases succeeded cfg e <;> rfl

/-- The stamp counts the calls that succeeded, in 64 bits: at the end of a run
it is what it was, plus their number. -/
theorem stamp_counts {cfg : NodeConfig} {start bc : Blockchain} {tr : List NodeEntry}
    (hist : History cfg start tr bc) :
    bc.chainUpdateVersion = start.chainUpdateVersion + UInt64.ofNat (successes cfg tr) := by
  induction hist with
  | nil => exact (UInt64.add_zero _).symm
  | @snoc tr bc bc' call r _ hs ih =>
    have hcall := allOrNothing_step hs
    rw [successes_snoc]
    -- a failed call leaves the state alone, a successful one adds one to the stamp
    cases hsucc : succeeded cfg ⟨bc, call, r, bc'⟩ with
    | false =>
      have hsame : bc' = bc := (hcall.failed hsucc).1
      simpa [hsame] using ih
    | true =>
      have hstamped : bc'.chainUpdateVersion = bc.chainUpdateVersion + 1 := hcall.stamped hsucc
      rw [hstamped, ih]
      simp [UInt64.ofNat_add, UInt64.add_assoc]

/-- As long as nothing succeeds nothing changes. -/
theorem unchanged_of_no_success {cfg : NodeConfig} {start bc : Blockchain} {tr : List NodeEntry}
    (hist : History cfg start tr bc) (hnone : successes cfg tr = 0) : bc = start := by
  induction hist with
  | nil => rfl
  | @snoc tr bc bc' call r _ hs ih =>
    rw [successes_snoc] at hnone
    have hfail : succeeded cfg ⟨bc, call, r, bc'⟩ = false := by
      cases hsucc : succeeded cfg ⟨bc, call, r, bc'⟩ with
      | false => rfl
      | true =>
        rw [hsucc, if_pos rfl] at hnone
        omega
    -- the last call failed, and so did all before it
    have hsame : bc' = bc := ((allOrNothing_step hs).failed hfail).1
    rw [hsame]
    exact ih (by omega)

/-- Equal stamps are a whole number of rounds of the counter apart, and so also
those of two points between which everything changed. -/
theorem stamp_eq_iff {cfg : NodeConfig} {start bc : Blockchain} {tr : List NodeEntry}
    (hist : History cfg start tr bc) :
    bc.chainUpdateVersion = start.chainUpdateVersion ↔ successes cfg tr % 2 ^ 64 = 0 := by
  rw [stamp_counts hist, ← UInt64.toNat_inj, UInt64.toNat_add, UInt64.toNat_ofNat']
  have hlt : start.chainUpdateVersion.toNat < 2 ^ 64 := start.chainUpdateVersion.toNat_lt
  omega

/-- **Calls are all or nothing, and the stamp shows every change.** In every
history of every node, from any point of it on, each call is all or nothing;
and two points with fewer than `2 ^ 64` successful calls in between carry the
same stamp only if nothing changed from the one to the other. -/
theorem change_stamp {cfg : NodeConfig} {bc bc' : Blockchain} {tr : List NodeEntry}
    (hist : History cfg bc tr bc') :
    (∀ e ∈ tr, AllOrNothing cfg e) ∧
      (successes cfg tr < 2 ^ 64 → bc'.chainUpdateVersion = bc.chainUpdateVersion →
        bc' = bc) := by
  refine ⟨fun e he => allOrNothing_step (hist.entry e he).1, fun hfew hstamp => ?_⟩
  have hrounds := (stamp_eq_iff hist).mp hstamp
  rw [Nat.mod_eq_of_lt hfew] at hrounds
  exact unchanged_of_no_success hist hrounds

/-! ## The stamp comes back

A node without an engine at difficulty 0 mines whenever it is asked. -/

/-- At difficulty 0 the first nonce will do. -/
theorem mineBlock_zero (C : Crypto) {b : Block} (h : b.difficulty = 0) :
    ∃ b', b.mineBlock C = some b' := by
  refine ⟨_, if_pos ?_⟩
  simp [Block.meetsTarget, h, substr0]

/-- One more block is mined on such a node. -/
theorem exists_mining {cfg : NodeConfig} (hcfg : cfg.consensusEngine = none) {bc : Blockchain}
    (hdiff : bc.difficulty = 0) :
    ∃ block r bc', step cfg ⟨sampleTime 0, .minePendingTransactions sampleMiner⟩ bc =
        some (r, bc') ∧ r.answer = .block block ∧ bc'.difficulty = 0 ∧
      bc'.chain = bc.chain ++ [block] := by
  have hnext : bc.blockDifficulty cfg = 0 := by
    rw [blockDifficulty, hcfg]
    exact hdiff
  obtain ⟨block, hblock⟩ := mineBlock_zero cfg.crypto
    (b := bc.candidateBlock cfg (sampleTime 0) sampleMiner) hnext
  have hsealed : sealBlock cfg (bc.candidateBlock cfg (sampleTime 0) sampleMiner) = some block := by
    rw [sealBlock, hcfg]
    exact hblock
  obtain ⟨r, bc', hstep, -⟩ := exists_step_of_sealed hsealed
  obtain ⟨mined, hanswer, hmined⟩ := step_mines rfl hstep
  exact ⟨mined, r, bc', hstep, hanswer, hmined.difficulty.trans hnext, hmined.chain⟩

/-- Any number of blocks can be mined on such a node. -/
theorem exists_minings (cfg : NodeConfig) (hcfg : cfg.consensusEngine = none)
    (start : Blockchain) (hdiff : start.difficulty = 0) (n : Nat) :
    ∃ tr bc, History cfg start tr bc ∧ bc.difficulty = 0 ∧ successes cfg tr = n ∧
      bc.chain.length = start.chain.length + n := by
  induction n with
  | zero => exact ⟨[], start, Run.nil, hdiff, rfl, rfl⟩
  | succ n ih =>
    -- at difficulty zero every hash meets the target, so each further mining finds its block at
    -- once
    obtain ⟨tr, bc, hist, hd, hn, hlen⟩ := ih
    obtain ⟨block, r, bc', hstep, hanswer, hd', hchain⟩ := exists_mining hcfg hd
    have hsucc : succeeded cfg ⟨bc, ⟨sampleTime 0, .minePendingTransactions sampleMiner⟩, r,
        bc'⟩ = true := by simp [succeeded, hanswer]
    refine ⟨_, bc', hist.snoc hstep, hd', ?_, ?_⟩
    · rw [successes_snoc, hsucc, hn]
      rfl
    · rw [hchain, List.length_append, hlen]
      rfl

/-- After `2 ^ 64` mined blocks the stamp is back at 1, on a longer chain. -/
theorem change_stamp_counterexample :
    ¬ ∀ (cfg : NodeConfig) (now : TimePoint) (difficulty : UInt32)
      (persisted : Option (List Block)) (start bc bc' : Blockchain) (tr tr' : List NodeEntry),
      Starts cfg now difficulty persisted start → History cfg start tr bc →
      History cfg bc tr' bc' → bc'.chainUpdateVersion = bc.chainUpdateVersion →
      bc'.chain = bc.chain := by
  intro h
  obtain ⟨tr, bc, hist, -, hn, hlen⟩ :=
    exists_minings sampleConfig rfl sampleStart rfl (2 ^ 64)
  have hstart := starts_freshNode sampleGenesis_created (sampleTime 0)
  have hstamp : bc.chainUpdateVersion = sampleStart.chainUpdateVersion :=
    (stamp_eq_iff hist).mpr (by rw [hn]; rfl)
  have hsame : bc.chain = sampleStart.chain :=
    h _ _ _ _ _ _ _ [] tr hstart Run.nil hist hstamp
  rw [hsame] at hlen
  simp at hlen

/-- The entry of a call that offers a block once more. -/
def offeredAgain (bc : Blockchain) : NodeEntry :=
  ⟨bc, ⟨sampleTime 20, .acceptBlock sampleBlock1⟩, ⟨.bool false, []⟩, bc⟩

/-- One block mined, one rejected: the rejection keeps the stamp and the node. -/
theorem change_stamp_sample : ∃ (tr tr' : List NodeEntry) (bc bc' : Blockchain),
    tr.length = 1 ∧ tr'.length = 1 ∧ History sampleConfig sampleStart tr bc ∧
      History sampleConfig bc tr' bc' ∧ (∀ e ∈ tr', AllOrNothing sampleConfig e) ∧ bc' = bc := by
  obtain ⟨tr, bc, hist, hcheck⟩ := Run.exists_of_exec (step sampleConfig)
    [⟨sampleTime 0, .minePendingTransactions sampleMiner⟩] sampleStart
    (fun r => r.1.length = 1 && r.2.chain = [sampleGenesis, sampleBlock1]) (by decide +kernel)
  simp only [Bool.and_eq_true, decide_eq_true_eq] at hcheck
  -- the block is not the next one any more
  have hrej : bc.acceptBlock sampleConfig (sampleTime 20) sampleBlock1 = bc.rejected := by
    refine (acceptBlock_cases _ _ _ _).resolve_right fun hacc => ?_
    have hindex := hacc.index
    rw [hcheck.2] at hindex
    revert hindex
    decide
  have hstep : step sampleConfig ⟨sampleTime 20, .acceptBlock sampleBlock1⟩ bc =
      some (⟨.bool false, []⟩, bc) := by
    show some ((bc.acceptBlock sampleConfig (sampleTime 20) sampleBlock1).reply .bool) = _
    rw [hrej]
    rfl
  have hlast : History sampleConfig bc [offeredAgain bc] bc := Run.snoc Run.nil hstep
  obtain ⟨hcalls, hsame⟩ := change_stamp hlast
  have hnone : successes sampleConfig [offeredAgain bc] < 2 ^ 64 := by
    simp [successes, succeeded, offeredAgain]
  exact ⟨tr, _, bc, bc, hcheck.1, rfl, hist, hlast, hcalls, hsame hnone rfl⟩

end PersonalBlockchain
