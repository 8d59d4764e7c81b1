import PersonalBlockchain.Http.MiningCooldown
import PersonalBlockchain.Ledger.LocalBlocks

/-!
# Personal blockchain — what the mining response reports

`handleMine` counts the mempool, mines, and reports the count as the number of
transactions mined. The block takes the mempool as it is when the ledger's mutex is
held again, and at most 100 of it.

## Results

* `miningStep_moves_request` — a step moves a request by at most one stage;
* `mining_response_truthful_iff` — the report is right exactly when the block takes
  as many transactions as the request had counted;
* `mining_response_counterexample` — a transfer that comes after the count.
-/

namespace PersonalBlockchain

open Machine Blockchain

namespace HttpServer

/-- The report counts the transactions of the block other than its reward. -/
structure MineResult.Truthful (result : MineResult) : Prop where
  mined : result.mempoolTransactionsMined = (withoutCoinbases result.block.transactions).length
  rewardOnly : result.rewardOnlyBlock = true ↔
    (withoutCoinbases result.block.transactions).length = 0

/-- What a request has been answered with. -/
def MiningServer.resultOf (server : MiningServer) (i : Nat) : Option MineResult :=
  match server.requests[i]? with
  | some (.answered (.mined result)) => some result
  | _ => none

/-- What request `i` has counted, when the step mines for it. -/
def countedBy (i : Nat) (e : MiningEntry) : Option Nat :=
  match e.call.action, e.pre.requests[i]? with
  | .mine j _, some (.counted _ pendingCount) => if j = i then some pendingCount else none
  | _, _ => none

/-- If the step mines for request `i`, the block takes as many transactions as the
request had counted. -/
def TakesAsCounted (i : Nat) (e : MiningEntry) : Prop :=
  ∀ pendingCount ∈ countedBy i e, min e.pre.node.bc.mempool.length maxTxsPerBlock = pendingCount

instance (i : Nat) (e : MiningEntry) : Decidable (TakesAsCounted i e) := by
  unfold TakesAsCounted
  infer_instance

variable {cfg : NodeConfig} {parse : String → Option Json} {server : MiningServer}

/-! ## One request -/

/-- The moves of request `i`, from its stage before the step to the one after. -/
inductive RequestMove (cfg : NodeConfig) (parse : String → Option Json) (e : MiningEntry)
    (i : Nat) : Option MineStage → Option MineStage → Prop
  | rest (stage : Option MineStage) : (∀ now, e.call.action ≠ .mine i now) →
      RequestMove cfg parse e i stage stage
  | arrive (body path : String) : e.call.action = .arrive body path →
      RequestMove cfg parse e i none
        (some (MiningServer.arrival parse e.call.steady body path e.pre.lastMineAt))
  | getMempool (minerAddress : String) : e.call.action = .getMempool i →
      RequestMove cfg parse e i (some (.admitted minerAddress))
        (some (.counted minerAddress e.pre.node.bc.mempool.length))
  | mine (minerAddress : String) (pendingCount : Nat) (now : TimePoint) (outcome : Outcome Block) :
      e.call.action = .mine i now → e.pre.requests[i]? = some (.counted minerAddress pendingCount) →
      e.pre.node.bc.minePendingTransactions cfg now minerAddress = some outcome →
      RequestMove cfg parse e i (some (.counted minerAddress pendingCount))
        (some (.mined minerAddress pendingCount outcome.ret))
  | throw (minerAddress : String) (pendingCount : Nat) :
      RequestMove cfg parse e i (some (.counted minerAddress pendingCount))
        (some (.threw minerAddress))
  | record (minerAddress : String) (pendingCount : Nat) (block : Block) :
      e.call.action = .record i →
      RequestMove cfg parse e i (some (.mined minerAddress pendingCount block))
        (some (.recorded minerAddress pendingCount block))
  | respond (minerAddress : String) (pendingCount : Nat) (block : Block) (newBalance : UInt64) :
      e.call.action = .respond i →
      RequestMove cfg parse e i (some (.recorded minerAddress pendingCount block))
        (some (.answered (.mined {
          block := block
          minerAddress := minerAddress
          mempoolTransactionsMined := pendingCount
          rewardOnlyBlock := pendingCount = 0
          newBalance := newBalance })))

/-- A step that sets the stage of request `j` moves request `i` if it is the
same, and leaves it alone otherwise. -/
theorem move_of_set {e : MiningEntry} {i j : Nat} {before stage : MineStage}
    (h : e.pre.requests[j]? = some before)
    (hset : e.post.requests = e.pre.requests.set j stage)
    (hown : j = i → RequestMove cfg parse e i (some before) (some stage))
    (hother : j ≠ i → ∀ now, e.call.action ≠ .mine i now) :
    RequestMove cfg parse e i e.pre.requests[i]? e.post.requests[i]? := by
  rw [hset]
  by_cases hj : j = i
  · have hlt : j < e.pre.requests.length := (List.getElem?_eq_some_iff.mp h).1
    rw [← hj, List.getElem?_set_self hlt, h, hj]
    exact hown hj
  · rw [List.getElem?_set_ne hj]
    exact .rest _ (hother hj)

/-- **A step moves a request by at most one stage.** Requests of other threads
stay where they are, whatever this one does. -/
theorem miningStep_moves_request (e : MiningEntry)
    (h : miningStep cfg parse e.call e.pre = some (e.ret, e.post)) (i : Nat) :
    RequestMove cfg parse e i e.pre.requests[i]? e.post.requests[i]? := by
  obtain ⟨pre, call, ret, post⟩ := e
  dsimp only at h
  cases miningStep_move h with
  | arrive body path haction =>
    dsimp only
    rw [List.getElem?_append]
    -- an earlier request, the new one, or none
    rcases Nat.lt_trichotomy i pre.requests.length with hlt | rfl | hgt
    · rw [if_pos hlt]
      exact .rest _ (by simp [haction])
    · rw [if_neg (Nat.lt_irrefl _), Nat.sub_self, List.getElem?_eq_none (Nat.le_refl _)]
      exact .arrive body path haction
    · rw [if_neg (by omega), List.getElem?_eq_none hgt.le, List.getElem?_eq_none (by simp; omega)]
      exact .rest _ (by simp [haction])
  | getMempool j minerAddress haction hstage =>
    refine move_of_set hstage (by rfl) (fun hj => ?_) (by simp [haction])
    subst hj
    exact .getMempool minerAddress haction
  | mine j now minerAddress pendingCount outcome stage _ haction hstage houtcome _ hended =>
    refine move_of_set hstage (by rfl) (fun hj => ?_) fun hj => by simp [haction, hj]
    subst hj
    -- the storage may throw
    rcases hended with ⟨-, rfl⟩ | ⟨-, rfl⟩
    · exact .mine minerAddress pendingCount now outcome haction hstage houtcome
    · exact .throw minerAddress pendingCount
  | record j minerAddress pendingCount block haction hstage =>
    refine move_of_set hstage (by rfl) (fun hj => ?_) (by simp [haction])
    subst hj
    exact .record minerAddress pendingCount block haction
  | respond j minerAddress pendingCount block haction hstage =>
    refine move_of_set hstage (by rfl) (fun hj => ?_) (by simp [haction])
    subst hj
    exact .respond minerAddress pendingCount block _ haction
  | ledger other r haction _ => exact .rest _ (by simp [haction])

/-! ## The ledger under the requests -/

/-- A step leaves the ledger alone or makes one call to it. -/
theorem miningStep_ledger (e : MiningEntry)
    (h : miningStep cfg parse e.call e.pre = some (e.ret, e.post)) :
    e.post.node.bc = e.pre.node.bc ∨
      ∃ call r, step cfg call e.pre.node.bc = some (r, e.post.node.bc) := by
  obtain ⟨pre, call, ret, post⟩ := e
  dsimp only at h
  cases miningStep_move h with
  | mine i now minerAddress _ outcome _ _ _ _ houtcome hstored _ =>
    subst hstored
    have hstep : step cfg ⟨now, .minePendingTransactions minerAddress⟩ pre.node.bc =
        some (outcome.reply .block) := by
      simp only [step, houtcome, Option.map_some]
    exact Or.inr ⟨_, _, hstep⟩
  | ledger other _ _ hstored =>
    obtain ⟨r, hstep, rfl⟩ := Option.map_eq_some_iff.mp hstored
    exact Or.inr ⟨other, r.1, hstep⟩
  -- the other stages only read it
  | _ => exact Or.inl rfl

theorem pending_miningStep (e : MiningEntry)
    (h : miningStep cfg parse e.call e.pre = some (e.ret, e.post))
    (hpending : ∀ tx ∈ e.pre.node.bc.mempool, Transfer tx) :
    ∀ tx ∈ e.post.node.bc.mempool, Transfer tx := by
  rcases miningStep_ledger e h with hsame | ⟨call, r, hstep⟩
  · rwa [hsame]
  · exact pending_transfer_step hpending hstep

/-- A node has nothing pending when it is constructed. -/
theorem pending_construct {now : TimePoint} {difficulty : UInt32} {dir : DataDir} {r : StoredReply}
    {node : StoredNode} (h : construct cfg now difficulty dir = some (r, node)) :
    ∀ tx ∈ node.bc.mempool, Transfer tx := by
  obtain ⟨out, hout, hr⟩ := Option.map_eq_some_iff.mp h
  cases hr
  have hstart : Starts cfg now difficulty _ out.node := congrArg (Option.map Outcome.node) hout
  show ∀ tx ∈ out.node.mempool, Transfer tx
  rw [(start_cases hstart).2.1]
  simp

/-! ## The report -/

/-- What a stage says about the request, `asCounted` being that its block took
what had been counted. Before the block is mined this is still open; after that
the stage carries the block, and the count is right exactly if it was. -/
def Accounted (asCounted : Prop) : Option MineStage → Prop
  | none | some (.admitted _) | some (.counted _ _) => asCounted
  | some (.mined _ pendingCount block) | some (.recorded _ pendingCount block) =>
    pendingCount = (withoutCoinbases block.transactions).length ↔ asCounted
  | some (.answered (.mined result)) => result.Truthful ↔ asCounted
  | some (.answered _) | some (.threw _) => True

theorem accounted_arrival {asCounted : Prop} (h : asCounted) (now : Instant) (body path : String)
    (lastMineAt : Std.ExtTreeMap String Instant) :
    Accounted asCounted (some (MiningServer.arrival parse now body path lastMineAt)) := by
  unfold MiningServer.arrival
  split
  · trivial
  · split_ifs
    · trivial
    · split
      · trivial
      · exact h

theorem takesAsCounted_of_ne {i : Nat} {e : MiningEntry}
    (h : ∀ now, e.call.action ≠ .mine i now) : TakesAsCounted i e := by
  have hnone : countedBy i e = none := by
    -- only the request's own mining takes what was counted
    unfold countedBy
    split
    next j now _ _ haction _ =>
      have hother : j ≠ i := by
        rintro rfl
        exact h now haction
      exact if_neg hother
    next => rfl
  intro pendingCount hcounted
  rw [hnone] at hcounted
  cases hcounted

theorem takesAsCounted_append {i : Nat} {tr : List MiningEntry} {e : MiningEntry} :
    (∀ e' ∈ tr ++ [e], TakesAsCounted i e') ↔
      (∀ e' ∈ tr, TakesAsCounted i e') ∧ TakesAsCounted i e := by
  simp only [List.mem_append, List.mem_singleton, or_imp, forall_and, forall_eq]

/-- The report is right when its number is, since `rewardOnlyBlock` is computed
from it. -/
theorem truthful_iff {result : MineResult}
    (h : result.rewardOnlyBlock = (result.mempoolTransactionsMined = 0 : Bool)) :
    result.Truthful ↔ result.mempoolTransactionsMined =
      (withoutCoinbases result.block.transactions).length := by
  refine ⟨MineResult.Truthful.mined, fun hmined => ⟨hmined, ?_⟩⟩
  rw [h, decide_eq_true_eq, hmined]

/-- The account is kept: the step that mines settles it, and the later stages
only carry the block and the count on. -/
theorem accounted_move {e : MiningEntry} (hpending : ∀ tx ∈ e.pre.node.bc.mempool, Transfer tx)
    {i : Nat} {before after : Option MineStage} (hmove : RequestMove cfg parse e i before after)
    {tr : List MiningEntry} (h : Accounted (∀ e' ∈ tr, TakesAsCounted i e') before) :
    Accounted (∀ e' ∈ tr ++ [e], TakesAsCounted i e') after := by
  rw [takesAsCounted_append]
  cases hmove with
  | rest _ hidle => rwa [and_iff_left (takesAsCounted_of_ne hidle)]
  | arrive body path haction =>
    have hidle := takesAsCounted_of_ne (i := i) (e := e) (by simp [haction])
    exact accounted_arrival ⟨h, hidle⟩ _ _ _ _
  | getMempool minerAddress haction =>
    exact ⟨h, takesAsCounted_of_ne (by simp [haction])⟩
  | mine minerAddress pendingCount now outcome haction hstage houtcome =>
    -- the one step of the request that the count has to stand until
    have hbefore : ∀ e' ∈ tr, TakesAsCounted i e' := h
    have hblock := (mine_spec houtcome).1.withoutCoinbases hpending
    have htakes : TakesAsCounted i e ↔
        min e.pre.node.bc.mempool.length maxTxsPerBlock = pendingCount := by
      simp only [TakesAsCounted, countedBy, haction, hstage, if_true, Option.mem_some_iff,
        forall_eq']
    show _ = (withoutCoinbases outcome.ret.transactions).length ↔ _
    rw [hblock, List.length_take, Nat.min_comm, htakes, and_iff_right hbefore, eq_comm]
  | throw minerAddress pendingCount => trivial
  | record minerAddress pendingCount block haction =>
    rwa [and_iff_left (takesAsCounted_of_ne (by simp [haction]))]
  | respond minerAddress pendingCount block newBalance haction =>
    rw [and_iff_left (takesAsCounted_of_ne (by simp [haction]))]
    exact (truthful_iff rfl).trans h

/-- **When the mining response tells the truth.** In every run of requests and ledger
calls in any order, the response to a request is right exactly when the mempool,
capped at 100, had the size at the mining call that the request had read before. -/
theorem mining_response_truthful_iff {now : TimePoint} {difficulty : UInt32} {dir : DataDir}
    {r : StoredReply} {start : MiningServer} {tr : List MiningEntry}
    (hstart : construct cfg now difficulty dir = some (r, start.node))
    (hrequests : start.requests = []) (hrun : Run (miningStep cfg parse) start tr server)
    (i : Nat) (result : MineResult) (hresult : server.resultOf i = some result) :
    result.Truthful ↔ ∀ e ∈ tr, TakesAsCounted i e := by
  have hall := (hrun.history_of
    (J := fun tr server => (∀ tx ∈ server.node.bc.mempool, Transfer tx) ∧
      Accounted (∀ e ∈ tr, TakesAsCounted i e) server.requests[i]?)
    (C := fun _ _ => True) ⟨pending_construct hstart, by simp [hrequests, Accounted]⟩
    (fun tr e hJ _ hstep => ⟨pending_miningStep e hstep hJ.1,
      accounted_move hJ.1 (miningStep_moves_request e hstep i) hJ.2⟩)
    fun _ _ _ _ => trivial).1.2
  -- a result is there once the request is answered
  unfold MiningServer.resultOf at hresult
  split at hresult
  next hanswered =>
    cases hresult
    rwa [hanswered] at hall
  next => cases hresult

/-! ## A transfer that comes after the count -/

section Sample

/-- The first request mines a reward. A transfer is queued after the second has
counted an empty mempool. -/
def countedTooSoon : List MiningCall :=
  [miningRequest 0, miningCall 0 (.getMempool 0), miningCall 1 (.mine 0 (sampleTime 0)),
    miningCall 1 (.record 0), miningCall 1 (.respond 0),
    miningRequest 40, miningCall 40 (.getMempool 1),
    miningCall 40 (.ledger ⟨sampleTime 10, .addTransaction sampleTransfer⟩),
    miningCall 41 (.mine 1 (sampleTime 20)), miningCall 41 (.record 1),
    miningCall 41 (.respond 1)]

end Sample

/-- The second block contains the transfer, and is reported as one without any. -/
theorem mining_response_counterexample : ∃ tr server result,
    construct sampleConfig (sampleTime 0) 0 {} =
      some (⟨[.saveChain [sampleGenesis]], none⟩, miningStart.node) ∧
    Run (miningStep sampleConfig fun _ => none) miningStart tr server ∧
    server.resultOf 1 = some result ∧
    withoutCoinbases result.block.transactions = [sampleTransfer] ∧
    result.mempoolTransactionsMined = 0 ∧ result.rewardOnlyBlock = true := by
  obtain ⟨tr, server, hrun, hcheck⟩ := Run.exists_of_exec (miningStep sampleConfig fun _ => none)
    countedTooSoon miningStart
    (fun r => (r.2.resultOf 1).any fun result =>
      withoutCoinbases result.block.transactions = [sampleTransfer] &&
        result.mempoolTransactionsMined = 0 && result.rewardOnlyBlock)
    (by decide +kernel)
  obtain ⟨result, hresult, hcheck⟩ := (Option.any_eq_true _ _).mp hcheck
  simp only [Bool.and_eq_true, decide_eq_true_eq, and_assoc] at hcheck
  exact ⟨tr, server, result, storedStart_constructed, hrun, hresult, hcheck⟩

/-- The first response of the same run is right. -/
theorem mining_response_truthful_first : ∃ tr server result,
    Run (miningStep sampleConfig fun _ => none) miningStart tr server ∧
    server.resultOf 0 = some result ∧ result.Truthful := by
  obtain ⟨tr, server, hrun, hcheck⟩ := Run.exists_of_exec (miningStep sampleConfig fun _ => none)
    countedTooSoon miningStart
    (fun r => (r.2.resultOf 0).isSome && r.1.all fun e => TakesAsCounted 0 e) (by decide +kernel)
  simp only [Bool.and_eq_true, List.all_eq_true, decide_eq_true_eq] at hcheck
  obtain ⟨result, hresult⟩ := Option.isSome_iff_exists.mp hcheck.1
  exact ⟨tr, server, result, hrun, hresult,
    (mining_response_truthful_iff storedStart_constructed rfl hrun 0 result hresult).mpr hcheck.2⟩

end HttpServer

end PersonalBlockchain
