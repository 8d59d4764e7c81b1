import PersonalBlockchain.P2P.Crash

/-!
# Personal blockchain — a banned sender stops the node

`removePeer` holds `peersMutex_` to its end and refreshes the metrics there,
which takes `peersMutex_` again. Only `handleMessage` calls it, for a sender
whose endpoint is banned; everything else keeps the order of the mutexes.

## Results

* `deadlock_free_iff` — an input makes a chain of calls take a mutex that it holds
  already exactly when it is a message of a banned sender;
* `deadlock_free_counterexample` — a banned peer that comes back and pings.
-/

namespace PersonalBlockchain

open Locking Routine NodeM

variable {S : NodeSetup} {env : Env} {p : PeerId} {msg : Message} {node : Node}

/-- A message whose sender is banned when it comes. -/
def NodeInput.fromBanned (node : Node) : NodeInput → Bool
  | .message p _ => node.senderBanned p
  | _ => false

/-- `handleMessage` after its first check keeps the order. -/
theorem handleMessage_no_selfDeadlock (hbanned : ¬ node.senderBanned p = true) (m : Mutex) :
    (handleMessage S env p msg [] node).1 ≠ .selfDeadlock m := by
  -- no mutex is held when a handler starts
  have hnone : ∀ m ∈ ([] : List Mutex), m.rank < 0 := fun _ hmem =>
    absurd hmem List.not_mem_nil
  rw [handleMessage_checks, if_neg hbanned]
  split
  · have hpenalize : Obeys Mutex.rank True 0 (penalizePeerByEndpoint S env
        (node.connection p).getEndpoint PeerScorer.penaltyInvalidTx) :=
      penalizePeerByEndpoint_obeys (Nat.zero_le _)
    exact hpenalize.no_selfDeadlock hnone _ m
  · exact handleAdmitted_obeys.no_selfDeadlock hnone _ m

/-- **Which inputs the mutexes of a node allow**: a chain of calls takes no
mutex it holds already, exactly when the input is no message of a banned
sender. -/
theorem deadlock_free_iff (S : NodeSetup) (env : Env) (input : NodeInput) (node : Node) :
    (∀ m, (react S env input [] node).1 ≠ .selfDeadlock m) ↔ input.fromBanned node = false := by
  constructor
  · intro hfree
    cases input with
    | message p msg =>
      -- a banned sender would have stopped the node
      rw [NodeInput.fromBanned]
      by_contra hbanned
      have hbanned' : node.senderBanned p = true := by simpa using hbanned
      obtain ⟨node', hdeadlock⟩ := removePeer_deadlocks
      refine hfree .peers ?_
      rw [react, handleMessage_checks, if_pos hbanned', hdeadlock]
    | _ => rfl
  · intro hbanned m
    by_cases hmessage : ∃ p msg, input = .message p msg
    · obtain ⟨p, msg, rfl⟩ := hmessage
      exact handleMessage_no_selfDeadlock (Bool.eq_false_iff.mp hbanned) m
    · have hother : ∀ p msg, input ≠ .message p msg := fun p msg heq => hmessage ⟨p, msg, heq⟩
      have hobeys : Obeys Mutex.rank True 0 (react S env input) := react_obeys hother
      exact hobeys.no_selfDeadlock (fun _ hmem => absurd hmem List.not_mem_nil) node m

/-! ## A peer that comes back -/

section Sample

/-- The announcement of a listen port, with what else it says. -/
def announcement (more : List (String × Json)) : Message where
  type := .nodeAnnounce
  payload := .object (more ++ [("port", .numberUnsigned 8334), ("publicIp", .string "10.0.0.2")])

/-- A block that does not decode. -/
def notABlock (n : UInt64) : Message := ⟨.newBlock, .numberUnsigned n⟩

/-- A setup that knows the digests of the payloads. -/
def bannedSetup : NodeSetup :=
  setupOf [
    ("\x7b\"port\":8334,\"publicIp\":\"10.0.0.2\"\x7d",
      "d2dfd20946bca2de3bddfe233cbf22496ace1afaa9cdebc0b8b0cf60957a0564"),
    ("\x7b\"nodeId\":\"again\",\"port\":8334,\"publicIp\":\"10.0.0.2\"\x7d",
      "9384f76f2149a44673cabdb7e7a65996ea4ffd09a7287a36a03cf72623439dfe"),
    ("0", "5feceb66ffc86f38d952786c6d696c79c2dbc239dd4e91b46729d73a27fb57e9"),
    ("1", "6b86b273ff34fce19d6b804eff5a3f5747ada4eaa22f1d49c01e52ddb7875b4b"),
    ("2", "d4735e3a265e16eee03f59718b9b5d03019c07d8b6c51f90da3a666eec13ab35"),
    ("3", "4e07408562bedb8b60ce05c1decfe3ad16b72230967de01f640b7e4729b49fce"),
    ("4", "4b227777d4dd1fc61c6f884f48641d02b4d121d3fd328cb08b5531fcacdabf8a"),
    ("5", "ef2d127de37b942baad06145e54b0c619a1f22327b2ebbcfbec78f5564afe39d"),
    ("6", "e7f6c011776e8db7cd330b54174fd76f7d0216b612387a5ffcfb81e6f0919683"),
    ("7", "7902699be42c8a8e46fbbb4501726517e86b22c56a189f7625a6da49081b2451")]

/-- A peer announces its port, sends eight blocks that do not decode, which
gets it banned and closed, connects again and announces the port again. -/
def comesBack : List (Fin 1000 × NodeInput) :=
  [(0, .accepted (some ("10.0.0.2", 50000))),
    (1, .message 0 (announcement [])),
    (2, .message 0 (notABlock 0)), (2, .message 0 (notABlock 1)),
    (2, .message 0 (notABlock 2)), (2, .message 0 (notABlock 3)),
    (2, .message 0 (notABlock 4)), (2, .message 0 (notABlock 5)),
    (2, .message 0 (notABlock 6)), (2, .message 0 (notABlock 7)),
    (10, .accepted (some ("10.0.0.2", 50001))),
    (11, .message 1 (announcement [("nodeId", .string "again")]))]

end Sample

/-- Its next message stops the node. -/
theorem deadlock_free_counterexample :
    ∃ node,
      exec bannedSetup comesBack (Node.create bannedSetup [] sampleStart none) = some node ∧
      (react bannedSetup (sampleEnv 12) (.message 1 ⟨.ping, .object []⟩) [] node).1 =
        .selfDeadlock .peers := by
  have hrun : (exec bannedSetup comesBack (Node.create bannedSetup [] sampleStart none)).map
      (fun node => (react bannedSetup (sampleEnv 12) (.message 1 ⟨.ping, .object []⟩) [] node).1) =
      some (.selfDeadlock .peers) := by
    decide +kernel
  exact Option.map_eq_some_iff.mp hrun

end PersonalBlockchain
