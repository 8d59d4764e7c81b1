import PersonalBlockchain.Ledger.Refinement
import PersonalBlockchain.P2P.LockOrder

/-!
# Personal blockchain — messages that crash the node

`handleMessage` catches what the decoders of transactions, blocks and chains
throw. It does not catch what `value()` throws on the payload of an
announcement or a registration: a payload that is no object, or a member of
the wrong type, ends the thread of the `io_context`.

## Results

* `value_ok_iff` — when `value()` does not throw;
* `dispatch_returns_iff` — the `switch` returns exactly when the payload fits;
* `message_handled_iff` — `handleMessage` returns exactly when the sender is not
  banned, and the message is dropped or its payload fits;
* `message_handled_counterexample` — an announcement whose payload is `null`.
-/

namespace PersonalBlockchain

open Locking Routine NodeM

variable {S : NodeSetup} {env : Env} {p : PeerId} {msg : Message} {node : Node}

/-! ## What is checked before the payload -/

/-- The endpoint of the sender is banned. -/
def Node.senderBanned (p : PeerId) (node : Node) : Bool :=
  node.peerScorer.isBanned (node.connection p).getEndpoint

/-- The sender is over its limit of messages. -/
def Node.senderLimited (env : Env) (p : PeerId) (node : Node) : Bool :=
  ((node.connection p).isRateLimited env.steady 100).1

/-- The message is dropped as a repetition. -/
def Node.repeated (S : NodeSetup) (env : Env) (msg : Message) (node : Node) : Prop :=
  msg.type ≠ .ping ∧ msg.type ≠ .pong ∧ inDedupWindow S env msg node = true

/-- The node after the rate limiter has counted the message. -/
def Node.counted (env : Env) (p : PeerId) (node : Node) : Node :=
  node.updatePeer p fun _ => ((node.connection p).isRateLimited env.steady 100).2

/-! ## What the payload has to be -/

/-- `is_string`. -/
def Json.isString : Json → Bool
  | .string _ => true
  | _ => false

/-- `is_number() || is_boolean()`, what `get<int>()` converts. -/
def Json.isIntegral : Json → Bool
  | .numberUnsigned _ | .numberInteger _ | .numberFloat _ | .boolean _ => true
  | _ => false

/-- An object whose member under this key, if it has one, is of this kind. -/
def Json.memberIs (kind : Json → Bool) (key : String) : Json → Bool
  | .object members =>
    match find members key with
    | some v => kind v
    | none => true
  | _ => false

/-- The payload has the shape its type of message reads without a `try`. -/
def Message.payloadFits (msg : Message) : Bool :=
  match msg.type with
  | .nodeAnnounce =>
    msg.payload.memberIs Json.isString "publicIp" && msg.payload.memberIs Json.isIntegral "port" &&
      msg.payload.memberIs Json.isString "endpoint"
  | .registerNode => msg.payload.memberIs Json.isString "endpoint"
  | _ => true

theorem getString_ok_iff {v : Json} : (∃ s, v.getString = .ok s) ↔ v.isString = true := by
  cases v <;> simp [Json.getString, Json.isString]

theorem getInt_ok_iff {v : Json} : (∃ n, v.getInt = .ok n) ↔ v.isIntegral = true := by
  cases v <;> simp [Json.getInt, Json.isIntegral]

/-- When `value()` does not throw. -/
theorem value_ok_iff {α : Type} {get : Json → Except JsonError α} {kind : Json → Bool}
    (hget : ∀ {v : Json}, (∃ a, get v = .ok a) ↔ kind v = true) {j : Json} {key : String}
    (dflt : α) : (∃ a, j.value get key dflt = .ok a) ↔ j.memberIs kind key = true := by
  cases j with
  | object members =>
    -- only a member that is there is decoded
    simp only [Json.value, Json.memberIs]
    cases Json.find members key with
    | some v => exact hget
    | none => exact ⟨fun _ => rfl, fun _ => ⟨dflt, rfl⟩⟩
  | _ => simp [Json.value, Json.memberIs]

/-! ## Running the checks -/

theorem getEndpoint_run :
    NodeM.getEndpoint p [] node = (.returned (node.connection p).getEndpoint, node) := rfl

theorem askScorer_run {α : Type} (f : PeerScorer → α) :
    askScorer f [] node = (.returned (f node.peerScorer), node) := rfl

theorem isRateLimited_run :
    NodeM.isRateLimited env p 100 [] node =
      (.returned (node.senderLimited env p), node.counted env p) := rfl

theorem isDuplicate_of_repeated (h : node.repeated S env msg) :
    isDuplicate S env msg [] node = (.returned true, node) := by
  obtain ⟨hping, hpong, hwindow⟩ := h
  rw [isDuplicate, if_neg (not_or.mpr ⟨hping, hpong⟩), withLock_run List.not_mem_nil]
  simp only [act, if_pos hwindow]

theorem isDuplicate_of_new (h : ¬ node.repeated S env msg) :
    ∃ node', isDuplicate S env msg [] node = (.returned false, node') := by
  rw [isDuplicate]
  split
  · exact ⟨node, rfl⟩
  · next hother =>
    obtain ⟨hping, hpong⟩ := not_or.mp hother
    have hwindow : ¬ inDedupWindow S env msg node = true := fun hwindow =>
      h ⟨hping, hpong, hwindow⟩
    rw [withLock_run List.not_mem_nil]
    simp only [act, if_neg hwindow]
    exact ⟨_, rfl⟩

/-- A sender that is banned or over its limit gets no further. -/
theorem handleMessage_checks :
    handleMessage S env p msg [] node =
      if node.senderBanned p = true then removePeer S env p true [] node
      else if node.senderLimited env p = true then
        penalizePeerByEndpoint S env (node.connection p).getEndpoint PeerScorer.penaltyInvalidTx []
          (node.counted env p)
      else handleAdmitted S env p (node.connection p).getEndpoint msg [] (node.counted env p) := by
  rw [handleMessage, bind_run getEndpoint_run, bind_run (askScorer_run _), ite_run,
    bind_run isRateLimited_run, ite_run]
  rfl

/-! ## Whether the handler returns -/

/-- Nothing is held when a handler starts. -/
theorem returns_of_obeys {α : Type} {x : NodeM α} (h : Obeys Mutex.rank False 0 x) :
    Returns x [] node :=
  h.returns (fun _ hmem => absurd hmem List.not_mem_nil) node

/-- After its three reads an announcement throws nothing. -/
theorem onNodeAnnounce_returns_iff {payload : Json} :
    Returns (onNodeAnnounce env p payload) [] node ↔
      payload.memberIs Json.isString "publicIp" = true ∧
        payload.memberIs Json.isIntegral "port" = true ∧
          payload.memberIs Json.isString "endpoint" = true := by
  rw [← value_ok_iff getString_ok_iff "", ← value_ok_iff getInt_ok_iff 0,
    ← value_ok_iff getString_ok_iff "", onNodeAnnounce, returns_liftExcept_bind]
  constructor
  · rintro ⟨publicIp, hip, h⟩
    obtain ⟨port, hport, h⟩ := returns_liftExcept_bind.mp h
    obtain ⟨endpoint, hendpoint, -⟩ := returns_liftExcept_bind.mp h
    exact ⟨⟨publicIp, hip⟩, ⟨port, hport⟩, ⟨endpoint, hendpoint⟩⟩
  · rintro ⟨⟨publicIp, hip⟩, ⟨port, hport⟩, ⟨endpoint, hendpoint⟩⟩
    refine ⟨publicIp, hip, returns_liftExcept_bind.mpr ⟨port, hport, ?_⟩⟩
    refine returns_liftExcept_bind.mpr ⟨endpoint, hendpoint, ?_⟩
    exact returns_of_obeys (announced_obeys (Nat.zero_le _))

theorem onRegisterNode_returns_iff {payload : Json} :
    Returns (onRegisterNode env p payload) [] node ↔
      payload.memberIs Json.isString "endpoint" = true := by
  rw [← value_ok_iff getString_ok_iff "", onRegisterNode, returns_liftExcept_bind]
  constructor
  · rintro ⟨endpoint, hendpoint, -⟩
    exact ⟨endpoint, hendpoint⟩
  · rintro ⟨endpoint, hendpoint⟩
    exact ⟨endpoint, hendpoint, returns_of_obeys (registered_obeys (Nat.zero_le _))⟩

/-- The other types of message are read under a `try` or without `value()`. -/
theorem dispatch_returns_iff {peerKey : String} :
    Returns (dispatch S env p peerKey msg) [] node ↔ msg.payloadFits = true := by
  -- the two cases without a `try`
  by_cases hannounce : msg.type = .nodeAnnounce
  · simp only [dispatch, Message.payloadFits, hannounce, onNodeAnnounce_returns_iff,
      Bool.and_eq_true, and_assoc]
  by_cases hregister : msg.type = .registerNode
  · simp only [dispatch, Message.payloadFits, hregister, onRegisterNode_returns_iff]
  have hfits : msg.payloadFits = true := by
    unfold Message.payloadFits
    split
    next h => exact absurd h hannounce
    next h => exact absurd h hregister
    next => rfl
  exact iff_of_true (returns_of_obeys (dispatch_obeys_of_guarded hannounce hregister)) hfits

/-- The counters are refreshed after the handler, which throws nothing. -/
theorem returns_then_refreshMetrics {x : NodeM Unit} :
    Returns (do x; refreshMetrics) [] node ↔ Returns x [] node := by
  rw [returns_bind]
  constructor
  · rintro ⟨u, node', hrun, -⟩
    exact ⟨u, congrArg Prod.fst hrun⟩
  · rintro ⟨u, hu⟩
    exact ⟨u, _, Prod.ext hu rfl, returns_of_obeys (refreshMetrics_obeys (Nat.zero_le _))⟩

/-- **Which messages a node survives**: `handleMessage` returns exactly when the
sender is not banned, and the message is dropped for its rate or as a repetition
or has a payload of the shape that its type reads without a `try`. A banned
sender ends in `removePeer`, which blocks itself. -/
theorem message_handled_iff (S : NodeSetup) (env : Env) (p : PeerId) (msg : Message)
    (node : Node) :
    Returns (handleMessage S env p msg) [] node ↔
      node.senderBanned p = false ∧
        (node.senderLimited env p = true ∨ node.repeated S env msg ∨ msg.payloadFits = true) := by
  rw [Returns, handleMessage_checks]
  by_cases hbanned : node.senderBanned p = true
  · -- the same defect keeps the handler from returning in another way
    obtain ⟨node', hdeadlock⟩ := removePeer_deadlocks
    rw [if_pos hbanned, hdeadlock]
    simp [hbanned]
  have hnotBanned : node.senderBanned p = false := Bool.not_eq_true _ ▸ hbanned
  rw [if_neg hbanned]
  by_cases hlimited : node.senderLimited env p = true
  · rw [if_pos hlimited]
    exact iff_of_true (returns_of_obeys (penalizePeerByEndpoint_obeys (Nat.zero_le _)))
      ⟨hnotBanned, .inl hlimited⟩
  rw [if_neg hlimited, handleAdmitted]
  by_cases hrepeated : (node.counted env p).repeated S env msg
  · rw [bind_run (isDuplicate_of_repeated hrepeated), if_pos rfl]
    exact iff_of_true ⟨(), rfl⟩ ⟨hnotBanned, .inr (.inl hrepeated)⟩
  obtain ⟨node', hnew⟩ := isDuplicate_of_new hrepeated
  rw [bind_run hnew, if_neg Bool.false_ne_true, bind_run rfl]
  -- what is left is the `switch`
  refine (returns_then_refreshMetrics.trans dispatch_returns_iff).trans ?_
  constructor
  · exact fun hfits => ⟨hnotBanned, .inr (.inr hfits)⟩
  · rintro ⟨-, hl | hr | hfits⟩
    · exact absurd hl hlimited
    · exact absurd hr hrepeated
    · exact hfits

/-! ## An announcement without an object -/

section Sample

/-- `nlohmann::json::dump` on flat values of the kinds the samples send. -/
def sampleDump : Json → String
  | .object members =>
    "\x7b" ++ ",".intercalate (members.map fun m => "\"" ++ m.1 ++ "\":" ++ scalar m.2) ++ "\x7d"
  | j => scalar j
where
  scalar : Json → String
    | .numberUnsigned n => toString n.toNat
    | .string s => "\"" ++ s ++ "\""
    | _ => "null"

/-- The identity of the sample node. -/
def sampleIdentity : NodeIdentityRecord := ⟨"node", "key", "10.0.0.1", 8333⟩

/-- A node whose hashes are looked up in a table. -/
def setupOf (digests : List (String × String)) : NodeSetup where
  cfg := ⟨.ofTable digests [], none⟩
  dump := sampleDump
  port := 8333
  identity := sampleIdentity

/-- Seconds on both clocks. -/
def sampleEnv (seconds : Fin 1000) : Env where
  now := sampleTime seconds
  steady := seconds.val * 1000000000
  shuffle := id
  order := id
  jitter := 0

/-- The inputs of a run, with their times; each handler must have returned. -/
def exec (S : NodeSetup) : List (Fin 1000 × NodeInput) → Node → Option Node
  | [], node => some node
  | (seconds, input) :: rest, node =>
    match react S (sampleEnv seconds) input [] node with
    | (.returned (), node') => exec S rest node'
    | _ => none

/-- A setup that knows the digest of `null`. -/
def nullSetup : NodeSetup :=
  setupOf [("null", "74234e98afe7498fb5daf1f36ac2d78acc339464f950703b8c019892f982b90b")]

end Sample

/-- A node that has just accepted its first connection gets an announcement
whose payload is `null`. -/
theorem message_handled_counterexample :
    ∃ node,
      exec nullSetup [(0, .accepted (some ("10.0.0.2", 50000)))]
        (Node.create nullSetup [] sampleStart none) = some node ∧
      ¬ Returns (handleMessage nullSetup (sampleEnv 1) 0 ⟨.nodeAnnounce, .null⟩) [] node ∧
      (handleMessage nullSetup (sampleEnv 1) 0 ⟨.nodeAnnounce, .null⟩ [] node).1 =
        .threw .typeError306 := by
  have hrun : (exec nullSetup [(0, .accepted (some ("10.0.0.2", 50000)))]
      (Node.create nullSetup [] sampleStart none)).map
        (fun node => (handleMessage nullSetup (sampleEnv 1) 0 ⟨.nodeAnnounce, .null⟩ [] node).1) =
      some (.threw .typeError306) := by
    decide +kernel
  obtain ⟨node, hnode, hthrew⟩ := Option.map_eq_some_iff.mp hrun
  refine ⟨node, hnode, ?_, hthrew⟩
  -- what is thrown is not returned
  rintro ⟨u, hreturned⟩
  rw [hthrew] at hreturned
  cases hreturned

end PersonalBlockchain
