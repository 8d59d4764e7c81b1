import PersonalBlockchain.Lib.Cooldown
import PersonalBlockchain.Lib.FiniteMap
import PersonalBlockchain.P2P.Peer
import PersonalBlockchain.Storage.Restart

/-!
# Personal blockchain — the mining cooldown

`POST /mine` refuses a miner whose last block is less than 30 seconds old. Several
threads run `handleMine`; it looks at `lastMineAt_` under `miningMutex_`, mines
under the mutex of the ledger, and takes `miningMutex_` again to enter the time.
A request is a chain of stages, and requests take turns between them in any order.

The check and the entry are two critical sections. Requests for one miner that pass
the check before either has entered its time mine one right after the other.

## Results

* `miningStep_move` — what one step of one thread can do;
* `miningStep_moves` — every step is a move of the gate of `Lib.Cooldown`;
* `mining_cooldown_exclusive` — two blocks for one miner are thirty seconds apart
  along every run in which no request for a miner comes while another one for him is
  between its check and its entry;
* `mining_cooldown_counterexample` — two requests at once, two blocks a second apart.
-/

namespace PersonalBlockchain

open Std Machine Cooldown FiniteMap

namespace HttpServer

/-! ## The request -/

/-- `queryParam`: the value of the first pair with this key behind the question
mark, or the empty string. -/
def queryParam (path key : String) : String :=
  let qs := (path.toList.dropWhile (· ≠ '?')).tail
  let value := (qs.splitOn '&').findSome? fun pair =>
    if '=' ∈ pair ∧ pair.takeWhile (· ≠ '=') = key.toList then
      some (String.ofList (pair.dropWhile (· ≠ '=')).tail)
    else none
  value.getD ""

/-- The address a request names; `none` when an exception is thrown. -/
def requestedAddress (parse : String → Option Json) (body path : String) : Option String :=
  if body.toList.head? = some '\x7b' then
    match parse body with
    | none => none
    | some j => (j.value Json.getString "minerAddress" "").toOption
  else some (queryParam path "minerAddress")

/-- The address that is mined for. -/
def requestedMiner (parse : String → Option Json) (body path : String) : Option String :=
  (requestedAddress parse body path).map fun address =>
    if address = "" then "GENESIS" else address

/-- `kMiningCooldownSeconds`. -/
def kMiningCooldownSeconds : Int := 30

/-- `cooldownRemainingSeconds`, while the cooldown is active. -/
def cooldownRemaining (lastMineAt : ExtTreeMap String Instant) (minerAddress : String)
    (now : Instant) : Option Int :=
  match lastMineAt[minerAddress]? with
  | some last =>
    let elapsed := inSeconds (now - last)
    if elapsed < kMiningCooldownSeconds then some (kMiningCooldownSeconds - elapsed) else none
  | none => none

/-- The body of a successful response. -/
structure MineResult where
  block : Block
  minerAddress : String
  reward : Nat := 50
  cooldownSeconds : Int := kMiningCooldownSeconds
  mempoolTransactionsMined : Nat
  rewardOnlyBlock : Bool
  newBalance : UInt64

/-- The answers of `handleMine`. -/
inductive MineResponse
  | mined (result : MineResult)
  | refused (error : ErrorResponse)
  /-- 429 `MINING_COOLDOWN_ACTIVE` -/
  | cooldown (cooldownRemainingSeconds : Int)
  /-- 500 `MINE_FAILED` -/
  | failed

/-! ## The stages of `handleMine` -/

/-- How far a request has got, with what the thread remembers of it. -/
inductive MineStage
  /-- past the cooldown check -/
  | admitted (minerAddress : String)
  /-- `pendingCountBeforeMine` is read -/
  | counted (minerAddress : String) (pendingCount : Nat)
  | mined (minerAddress : String) (pendingCount : Nat) (block : Block)
  /-- an exception has left `minePendingTransactions`; it is answered with 500
  `MINE_FAILED`, and no time is entered -/
  | threw (minerAddress : String)
  /-- the time is entered -/
  | recorded (minerAddress : String) (pendingCount : Nat) (block : Block)
  | answered (response : MineResponse)

/-- The state that `handleMine` works on: the node, the times of the last
blocks, the known addresses, and the requests under way. -/
structure MiningServer where
  node : StoredNode
  lastMineAt : ExtTreeMap String Instant := ∅
  knownAddresses : List String := []
  /-- the requests that have come, in order -/
  requests : List MineStage := []

namespace MiningServer

/-- Request `i` is at another stage. -/
def setStage (i : Nat) (stage : MineStage) (server : MiningServer) : MiningServer :=
  { server with requests := server.requests.set i stage }

/-- `handleMine` up to the end of its first critical section. -/
def arrival (parse : String → Option Json) (now : Instant) (body path : String)
    (lastMineAt : ExtTreeMap String Instant) : MineStage :=
  match requestedMiner parse body path with
  | none => .answered .failed
  | some minerAddress =>
    if minerAddress ≠ "GENESIS" ∧ !isValidAddress minerAddress then
      .answered (.refused
        ⟨400, "Bad Request", "INVALID_ADDRESS", "Miner address format is invalid"⟩)
    else
      match cooldownRemaining lastMineAt minerAddress now with
      | some remaining => .answered (.cooldown remaining)
      | none => .admitted minerAddress

end MiningServer

/-- The steps of the threads that serve requests. Other threads call the ledger.
-/
inductive MiningAction
  /-- a request comes and goes through the cooldown check -/
  | arrive (body path : String)
  | getMempool (i : Nat)
  /-- `minePendingTransactions`, at the time of its end -/
  | mine (i : Nat) (now : TimePoint)
  /-- the second critical section -/
  | record (i : Nat)
  | respond (i : Nat)
  /-- whatever else happens to the ledger and its storage -/
  | ledger (call : Call)

/-- A step of some thread, and the steady clock at it. -/
structure MiningCall where
  steady : Instant
  action : MiningAction

open MiningServer

/-- One step of one thread: what it does under one mutex. A step for a request
that is at another stage is none, so that runs contain only steps that a thread
can take. -/
def miningStep (cfg : NodeConfig) (parse : String → Option Json) (call : MiningCall)
    (server : MiningServer) : Option (Unit × MiningServer) :=
  match call.action with
  | .arrive body path =>
    some ((), { server with
      requests := server.requests ++ [arrival parse call.steady body path server.lastMineAt] })
  | .getMempool i =>
    match server.requests[i]? with
    | some (.admitted minerAddress) =>
      some ((), server.setStage i (.counted minerAddress server.node.bc.mempool.length))
    | _ => none
  | .mine i now =>
    match server.requests[i]? with
    | some (.counted minerAddress pendingCount) =>
      match server.node.bc.minePendingTransactions cfg now minerAddress with
      -- no nonce is found
      | none => none
      | some outcome =>
        let stored := store cfg.crypto outcome.effects outcome.node server.node.dir
        let stage : MineStage := match stored.1.threw with
          | none => .mined minerAddress pendingCount outcome.ret
          | some _ => .threw minerAddress
        some ((), { server with node := stored.2 }.setStage i stage)
    | _ => none
  | .record i =>
    match server.requests[i]? with
    | some (.mined minerAddress pendingCount block) =>
      some ((), { server with lastMineAt := server.lastMineAt.insert minerAddress call.steady
        }.setStage i (.recorded minerAddress pendingCount block))
    | _ => none
  | .respond i =>
    match server.requests[i]? with
    | some (.recorded minerAddress pendingCount block) =>
      some ((), { server with knownAddresses := minerAddress :: server.knownAddresses }.setStage i
        (.answered (.mined {
          block := block
          minerAddress := minerAddress
          mempoolTransactionsMined := pendingCount
          rewardOnlyBlock := pendingCount = 0
          newBalance := server.node.bc.getBalanceForAddress minerAddress })))
    | _ => none
  | .ledger other =>
    (storedStep cfg (.ledger other) server.node).map fun r => ((), { server with node := r.2 })

/-- A step in a run of the server. -/
abbrev MiningEntry := Entry MiningServer MiningCall Unit

/-- Whom a step has mined a block for. -/
def minedFor (e : MiningEntry) : Option String :=
  match e.call.action with
  | .mine i _ =>
    match e.pre.requests[i]? with
    | some (.counted minerAddress _) => some minerAddress
    | _ => none
  | _ => none

/-- Thirty seconds lie between the block and every earlier one for the same miner. -/
def MinedApart (before : List MiningEntry) (e : MiningEntry) : Prop :=
  ∀ e' ∈ before, ∀ minerAddress ∈ minedFor e', minedFor e = some minerAddress →
    e'.call.steady + 30000000000 ≤ e.call.steady

instance (before : List MiningEntry) (e : MiningEntry) : Decidable (MinedApart before e) := by
  unfold MinedApart
  infer_instance

/-! ## One step -/

/-- What a step can do. -/
inductive MiningMove (cfg : NodeConfig) (parse : String → Option Json) (call : MiningCall)
    (pre : MiningServer) : MiningServer → Prop
  | arrive (body path : String) : call.action = .arrive body path →
      MiningMove cfg parse call pre { pre with
        requests := pre.requests ++ [arrival parse call.steady body path pre.lastMineAt] }
  | getMempool (i : Nat) (minerAddress : String) : call.action = .getMempool i →
      pre.requests[i]? = some (.admitted minerAddress) →
      MiningMove cfg parse call pre
        (pre.setStage i (.counted minerAddress pre.node.bc.mempool.length))
  | mine (i : Nat) (now : TimePoint) (minerAddress : String) (pendingCount : Nat)
      (outcome : Outcome Block) (stage : MineStage) (stored : StoredReply × StoredNode) :
      call.action = .mine i now → pre.requests[i]? = some (.counted minerAddress pendingCount) →
      pre.node.bc.minePendingTransactions cfg now minerAddress = some outcome →
      stored = store cfg.crypto outcome.effects outcome.node pre.node.dir →
      stored.1.threw = none ∧ stage = .mined minerAddress pendingCount outcome.ret ∨
        stored.1.threw ≠ none ∧ stage = .threw minerAddress →
      MiningMove cfg parse call pre ({ pre with node := stored.2 }.setStage i stage)
  | record (i : Nat) (minerAddress : String) (pendingCount : Nat) (block : Block) :
      call.action = .record i → pre.requests[i]? = some (.mined minerAddress pendingCount block) →
      MiningMove cfg parse call pre
        ({ pre with lastMineAt := pre.lastMineAt.insert minerAddress call.steady }.setStage i
          (.recorded minerAddress pendingCount block))
  | respond (i : Nat) (minerAddress : String) (pendingCount : Nat) (block : Block) :
      call.action = .respond i →
      pre.requests[i]? = some (.recorded minerAddress pendingCount block) →
      MiningMove cfg parse call pre
        ({ pre with knownAddresses := minerAddress :: pre.knownAddresses }.setStage i
          (.answered (.mined {
            block := block
            minerAddress := minerAddress
            mempoolTransactionsMined := pendingCount
            rewardOnlyBlock := pendingCount = 0
            newBalance := pre.node.bc.getBalanceForAddress minerAddress })))
  | ledger (other : Call) (r : StoredReply × StoredNode) : call.action = .ledger other →
      storedStep cfg (.ledger other) pre.node = some r →
      MiningMove cfg parse call pre { pre with node := r.2 }

theorem eq_of_step {server' post : MiningServer} {ret : Unit}
    (h : some ((), server') = some (ret, post)) : server' = post :=
  congrArg Prod.snd (Option.some.inj h)

/-- **Step inversion.** Every step that is taken is one of these moves, with the
stage that it found and the one that it left. -/
theorem miningStep_move {cfg : NodeConfig} {parse : String → Option Json} {call : MiningCall}
    {pre post : MiningServer} {ret : Unit}
    (h : miningStep cfg parse call pre = some (ret, post)) :
    MiningMove cfg parse call pre post := by
  obtain ⟨now, action⟩ := call
  -- each action needs its request in the stage before
  cases action with
  | arrive body path =>
    obtain rfl := eq_of_step h
    exact .arrive body path rfl
  | getMempool i =>
    simp only [miningStep] at h
    split at h
    next minerAddress hstage =>
      obtain rfl := eq_of_step h
      exact .getMempool i minerAddress rfl hstage
    next => cases h
  | mine i wall =>
    simp only [miningStep] at h
    split at h
    next minerAddress pendingCount hstage =>
      split at h
      · cases h
      next outcome houtcome =>
        obtain rfl := eq_of_step h
        refine .mine i wall minerAddress pendingCount outcome _ _ rfl hstage houtcome rfl ?_
        split
        -- the storage keeps the block, or throws
        next hkept => exact .inl ⟨hkept, rfl⟩
        next e hthrew => exact .inr ⟨by simp [hthrew], rfl⟩
    next => cases h
  | record i =>
    simp only [miningStep] at h
    split at h
    next minerAddress pendingCount block hstage =>
      obtain rfl := eq_of_step h
      exact .record i minerAddress pendingCount block rfl hstage
    next => cases h
  | respond i =>
    simp only [miningStep] at h
    split at h
    next minerAddress pendingCount block hstage =>
      obtain rfl := eq_of_step h
      exact .respond i minerAddress pendingCount block rfl hstage
    next => cases h
  | ledger other =>
    simp only [miningStep, Option.map_eq_some_iff] at h
    obtain ⟨r, hstep, hpost⟩ := h
    cases hpost
    exact .ledger other r rfl hstep

/-! ## The server as a gate -/

/-- Where a request stands between its check and its entry. -/
def MineStage.phase : MineStage → Option (String × Phase)
  | .admitted minerAddress | .counted minerAddress _ => some (minerAddress, .passed)
  | .mined minerAddress _ _ | .threw minerAddress => some (minerAddress, .acted)
  | .recorded _ _ _ | .answered _ => none

/-- What the cooldown looks at: who is between check and entry, and the entered
times. -/
def MiningServer.gate (server : MiningServer) : Gate Nat String where
  stage i := server.requests[i]?.bind MineStage.phase
  last minerAddress := server.lastMineAt[minerAddress]?

variable {cfg : NodeConfig} {parse : String → Option Json} {server : MiningServer}

/-- One request is at another stage. -/
theorem gate_of_set {server' : MiningServer} {i : Nat} {before stage : MineStage}
    (h : server.requests[i]? = some before)
    (hset : server'.requests = server.requests.set i stage) :
    server'.gate = ⟨Function.update server.gate.stage i stage.phase, server'.gate.last⟩ := by
  have hi : i < server.requests.length := (List.getElem?_eq_some_iff.mp h).1
  refine Gate.ext (funext fun j => ?_) rfl
  simp only [gate, hset, Function.update_apply, List.getElem?_set, if_pos hi, eq_comm]
  split
  · rfl
  · rfl

/-- A stage that is as far from check and entry as the one before. -/
theorem gate_of_set_same {server' : MiningServer} {i : Nat} {before stage : MineStage}
    (h : server.requests[i]? = some before)
    (hset : server'.requests = server.requests.set i stage) (hphase : before.phase = stage.phase)
    (hlast : server'.lastMineAt = server.lastMineAt) : server'.gate = server.gate := by
  have hsame : server.gate.stage i = stage.phase := by
    simp only [gate, h, Option.bind_some, hphase]
  rw [gate_of_set h hset, ← hsame, Function.update_eq_self]
  simp only [gate, hlast]

/-- The time is entered. -/
theorem gate_record {i : Nat} {minerAddress : String} {pendingCount : Nat} {block : Block}
    {now : Instant} (h : server.requests[i]? = some (.mined minerAddress pendingCount block)) :
    ({ server with lastMineAt := server.lastMineAt.insert minerAddress now }.setStage i
      (.recorded minerAddress pendingCount block)).gate =
      ⟨Function.update server.gate.stage i none,
        Function.update server.gate.last minerAddress (some now)⟩ := by
  refine (gate_of_set h (by rfl)).trans (congrArg (Gate.mk _) (funext fun other => ?_))
  show (server.lastMineAt.insert minerAddress now)[other]? = _
  simp only [getElem?_insert_eq, Function.update_apply, eq_comm]
  rfl

/-- A request that comes adds its own phase and changes no other. -/
theorem gate_arrive (stage : MineStage) :
    ({ server with requests := server.requests ++ [stage] } : MiningServer).gate =
      ⟨Function.update server.gate.stage server.requests.length stage.phase,
        server.gate.last⟩ := by
  refine Gate.ext (funext fun j => ?_) rfl
  simp only [gate, Function.update_apply, List.getElem?_append, List.getElem?_singleton]
  -- an earlier request, the new one, or none
  rcases Nat.lt_trichotomy j server.requests.length with hlt | rfl | hgt
  · rw [if_pos hlt, if_neg hlt.ne]
  · simp
  · rw [if_neg hgt.not_gt, if_neg (by omega), if_neg hgt.ne', List.getElem?_eq_none hgt.le]

/-- The next request has no stage yet. -/
theorem gate_new (server : MiningServer) : server.gate.stage server.requests.length = none := by
  simp [gate]

/-- Thirty seconds are 30000000000 nanoseconds. -/
theorem waited_of_cooldown {lastMineAt : ExtTreeMap String Instant} {minerAddress : String}
    {now last : Instant} (h : cooldownRemaining lastMineAt minerAddress now = none)
    (hlast : lastMineAt[minerAddress]? = some last) : last + 30000000000 ≤ now := by
  rw [cooldownRemaining, hlast] at h
  dsimp only at h
  split_ifs at h with hactive
  have hseconds : 30 ≤ (now - last).tdiv 1000000000 := Int.not_lt.mp hactive
  exact Int.add_le_of_le_sub_left ((le_tdiv_iff (by decide) (by decide)).mp hseconds)

/-- A request is past the check only after the cooldown. -/
theorem arrival_cases (now : Instant) (body path : String)
    (lastMineAt : ExtTreeMap String Instant) :
    (arrival parse now body path lastMineAt).phase = none ∨
      ∃ minerAddress, requestedMiner parse body path = some minerAddress ∧
        (arrival parse now body path lastMineAt).phase = some (minerAddress, .passed) ∧
        cooldownRemaining lastMineAt minerAddress now = none := by
  unfold arrival
  split
  · exact .inl rfl
  next minerAddress hminer =>
    split_ifs
    · exact .inl rfl
    · cases hcooldown : cooldownRemaining lastMineAt minerAddress now with
      | some remaining => exact .inl rfl
      | none => exact .inr ⟨minerAddress, hminer, rfl, hcooldown⟩

/-- What a step does to the gate. -/
theorem miningStep_cases (e : MiningEntry)
    (h : miningStep cfg parse e.call e.pre = some (e.ret, e.post)) :
    (∃ body path, e.call.action = .arrive body path ∧ minedFor e = none ∧
      e.post.gate = ⟨Function.update e.pre.gate.stage e.pre.requests.length
        (arrival parse e.call.steady body path e.pre.lastMineAt).phase, e.pre.gate.last⟩) ∨
    (minedFor e = none ∧ e.post.gate = e.pre.gate) ∨
    (∃ i minerAddress, e.pre.gate.stage i = some (minerAddress, .passed) ∧
      minedFor e = some minerAddress ∧ e.post.gate =
        ⟨Function.update e.pre.gate.stage i (some (minerAddress, .acted)), e.pre.gate.last⟩) ∨
    ∃ i minerAddress, e.pre.gate.stage i = some (minerAddress, .acted) ∧ minedFor e = none ∧
      e.post.gate = ⟨Function.update e.pre.gate.stage i none,
        Function.update e.pre.gate.last minerAddress (some e.call.steady)⟩ := by
  obtain ⟨pre, call, ret, post⟩ := e
  dsimp only at h ⊢
  cases miningStep_move h with
  | arrive body path haction =>
    exact .inl ⟨body, path, haction, by simp only [minedFor, haction], gate_arrive _⟩
  | getMempool i minerAddress haction hstage =>
    refine .inr (.inl ⟨?_, gate_of_set_same hstage (by rfl) (by rfl) rfl⟩)
    simp only [minedFor, haction]
  | mine i now minerAddress pendingCount outcome stage stored haction hstage _ _ hended =>
    have hphase : stage.phase = some (minerAddress, .acted) := by
      -- no matter whether an exception is thrown
      rcases hended with ⟨-, rfl⟩ | ⟨-, rfl⟩ <;> rfl
    refine .inr (.inr (.inl ⟨i, minerAddress, ?_, ?_, ?_⟩))
    · simp only [gate, hstage, Option.bind_some, MineStage.phase]
    · simp only [minedFor, haction, hstage]
    · rw [← hphase]
      exact gate_of_set hstage (by rfl)
  | record i minerAddress pendingCount block haction hstage =>
    refine .inr (.inr (.inr ⟨i, minerAddress, ?_, ?_, gate_record hstage⟩))
    · simp only [gate, hstage, Option.bind_some, MineStage.phase]
    · simp only [minedFor, haction]
  | respond i minerAddress pendingCount block haction hstage =>
    refine .inr (.inl ⟨?_, gate_of_set_same hstage (by rfl) (by rfl) rfl⟩)
    simp only [minedFor, haction]
  | ledger other r haction _ =>
    exact .inr (.inl ⟨by simp only [minedFor, haction], rfl⟩)

/-- **Each step is a move of the gate.** Requests come in, pass the check after
the cooldown, mine, and enter their time; everything else leaves the gate alone.
-/
theorem miningStep_moves (e : MiningEntry)
    (h : miningStep cfg parse e.call e.pre = some (e.ret, e.post)) :
    Move 30000000000 e.call.steady e.pre.gate (minedFor e) e.post.gate := by
  obtain ⟨body, path, -, hmined, hgate⟩ | ⟨hmined, hgate⟩ |
    ⟨i, minerAddress, hstage, hmined, hgate⟩ | ⟨i, minerAddress, hstage, hmined, hgate⟩ :=
    miningStep_cases e h
  · -- a request that is refused leaves the gate as it is
    rw [hmined, hgate]
    rcases @arrival_cases parse e.call.steady body path e.pre.lastMineAt with
      hphase | ⟨minerAddress, -, hphase, hcooldown⟩
    · rw [hphase, ← gate_new e.pre, Function.update_eq_self]
      exact .rest
    · rw [hphase]
      exact .pass _ minerAddress (gate_new e.pre) fun last hlast =>
        waited_of_cooldown hcooldown hlast
  · rw [hmined, hgate]
    exact .rest
  · rw [hmined, hgate]
    exact .act i minerAddress hstage
  · rw [hmined, hgate]
    exact .record i minerAddress hstage

/-- Some request for the address has passed the check and has not entered its time. -/
def MiningServer.underway (server : MiningServer) (minerAddress : String) : Bool :=
  server.requests.any fun stage => (stage.phase.map Prod.fst) = some minerAddress

/-- If the step is a request, none for the same address is under way. -/
def OneAtATime (parse : String → Option Json) (e : MiningEntry) : Prop :=
  match e.call.action with
  | .arrive body path => ∀ minerAddress ∈ requestedMiner parse body path,
      e.pre.underway minerAddress = false
  | _ => True

instance (e : MiningEntry) : Decidable (OneAtATime parse e) := by
  unfold OneAtATime
  split <;> infer_instance

/-- Where no request for the address is under way, no phase of one is open. -/
theorem not_open_of_underway {minerAddress : String} (h : server.underway minerAddress = false)
    (i : Nat) : ¬ server.gate.Open i minerAddress := by
  rintro ⟨phase, hphase⟩
  obtain ⟨stage, hstage, hopen⟩ := Option.bind_eq_some_iff.mp hphase
  have hnone := List.any_eq_false.mp h stage (List.mem_of_getElem? hstage)
  rw [hopen] at hnone
  simp at hnone

/-- A step that lets a request in while none for the same miner is under way
keeps the gate exclusive. -/
theorem exclusive_of_oneAtATime (e : MiningEntry)
    (h : miningStep cfg parse e.call e.pre = some (e.ret, e.post)) (hone : OneAtATime parse e) :
    Exclusive e.pre.gate e.post.gate := by
  intro i minerAddress hnone hpassed
  obtain ⟨body, path, haction, -, hgate⟩ | ⟨-, hgate⟩ | ⟨j, other, hstage, -, hgate⟩ |
    ⟨j, other, hstage, -, hgate⟩ := miningStep_cases e h
  · -- a request has come, and is past the check at once
    rw [hgate] at hpassed
    have hphase := passed_of_update hnone hpassed
    obtain hphase' | ⟨requested, hrequested, hphase', -⟩ :=
      @arrival_cases parse e.call.steady body path e.pre.lastMineAt
    · rw [hphase'] at hphase
      cases hphase
    · rw [hphase'] at hphase
      cases hphase
      simp only [OneAtATime, haction] at hone
      exact not_open_of_underway (hone minerAddress hrequested)
  -- the other stages let nobody past the check
  · rw [hgate, hnone] at hpassed
    cases hpassed
  · rw [hgate] at hpassed
    cases passed_of_update hnone hpassed
  · rw [hgate] at hpassed
    cases passed_of_update hnone hpassed

/-- **The mining cooldown.** In every run of the requests in any order, on a
clock that never goes back, two blocks for one miner are thirty seconds apart,
if no request for a miner comes while another one for him is past the check and
has not entered its time. -/
theorem mining_cooldown_exclusive {cfg : NodeConfig} {parse : String → Option Json}
    {start server : MiningServer} {tr : List MiningEntry} (hstart : start.requests = [])
    (hrun : Run (miningStep cfg parse) start tr server)
    (hclock : ClockForward MiningCall.steady tr) (hone : ∀ e ∈ tr, OneAtATime parse e) :
    Along MinedApart tr :=
  acts_apart miningStep_moves (by simp [gate, hstart]) hrun hclock fun e he =>
    exclusive_of_oneAtATime e (hrun.entry e he).1 (hone e he)

/-! ## Two requests at once -/

section Sample

/-- The sample node, with no request yet. -/
def miningStart : MiningServer := { node := storedStart }

/-- A step of a client of `sampleMiner`, so many seconds after the start. -/
def miningCall (seconds : Int) (action : MiningAction) : MiningCall :=
  ⟨seconds * 1000000000, action⟩

/-- A request to mine for `sampleMiner`. -/
def miningRequest (seconds : Int) : MiningCall :=
  miningCall seconds (.arrive "" ("/mine?minerAddress=" ++ sampleMiner))

/-- Both requests pass the check before either mines. -/
def overlapping : List MiningCall :=
  [miningRequest 0, miningRequest 0, miningCall 0 (.getMempool 0), miningCall 0 (.getMempool 1),
    miningCall 1 (.mine 0 (sampleTime 0)), miningCall 2 (.mine 1 (sampleTime 20))]

/-- The second request comes after the cooldown, and one in between is refused. -/
def oneByOne : List MiningCall :=
  [miningRequest 0, miningCall 0 (.getMempool 0), miningCall 1 (.mine 0 (sampleTime 0)),
    miningCall 1 (.record 0), miningCall 1 (.respond 0), miningRequest 10, miningRequest 31,
    miningCall 31 (.getMempool 2), miningCall 32 (.mine 2 (sampleTime 20))]

end Sample

/-- Two blocks for one miner, one second apart. -/
theorem mining_cooldown_counterexample :
    ¬ ∀ (cfg : NodeConfig) (parse : String → Option Json) (start server : MiningServer)
      (tr : List MiningEntry), start.requests = [] → Run (miningStep cfg parse) start tr server →
      ClockForward MiningCall.steady tr → Along MinedApart tr := by
  intro h
  obtain ⟨tr, server, hrun, hcheck⟩ := Run.exists_of_exec (miningStep sampleConfig fun _ => none)
    overlapping miningStart
    (fun r => ClockForward MiningCall.steady r.1 && !decide (Along MinedApart r.1))
    (by decide +kernel)
  simp only [Bool.and_eq_true, Bool.not_eq_true', decide_eq_true_eq, decide_eq_false_iff_not]
    at hcheck
  exact hcheck.2 (h _ _ miningStart server tr rfl hrun hcheck.1)

/-- The first and the third request mine. -/
theorem mining_cooldown_one_by_one : ∃ tr server,
    Run (miningStep sampleConfig fun _ => none) miningStart tr server ∧
      tr.filterMap minedFor = [sampleMiner, sampleMiner] ∧ Along MinedApart tr := by
  obtain ⟨tr, server, hrun, hcheck⟩ := Run.exists_of_exec (miningStep sampleConfig fun _ => none)
    oneByOne miningStart
    (fun r => r.1.filterMap minedFor = [sampleMiner, sampleMiner] &&
      ClockForward MiningCall.steady r.1 &&
      r.1.all fun e => OneAtATime (fun _ => none) e) (by decide +kernel)
  simp only [Bool.and_eq_true, decide_eq_true_eq, List.all_eq_true] at hcheck
  obtain ⟨⟨hmined, hclock⟩, hone⟩ := hcheck
  exact ⟨tr, server, hrun, hmined, mining_cooldown_exclusive rfl hrun hclock hone⟩

end HttpServer

end PersonalBlockchain
