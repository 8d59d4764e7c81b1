import PersonalBlockchain.Model.Json

/-!
# Personal blockchain — messages and connections

`struct Message` and the part of `class Peer` the node works with: the
endpoint of a connection, its rate limiter and its write queue. Readings of
the steady clock are in nanoseconds. A queue holds the messages themselves; their
bytes are the subject of `P2P/Wire.lean`.
-/

namespace PersonalBlockchain

/-- A reading of `std::chrono::steady_clock`. -/
abbrev Instant := Int

/-- `duration_cast<seconds>`. -/
def inSeconds (duration : Int) : Int := duration.tdiv 1000000000

/-- A duration has as many whole units as fit into it. -/
theorem le_tdiv_iff {c d k : Int} (hc : 0 < c) (hk : 0 < k) : c ≤ d.tdiv k ↔ c * k ≤ d := by
  rcases Int.le_total 0 d with hd | hd
  · rw [Int.tdiv_eq_ediv_of_nonneg hd, Int.le_ediv_iff_mul_le hk]
  · have hneg : d.tdiv k ≤ 0 := by
      have h := Int.tdiv_nonneg (Int.neg_nonneg.mpr hd) hk.le
      rwa [Int.neg_tdiv, Int.neg_nonneg] at h
    have hpos := Int.mul_pos hc hk
    exact iff_of_false (by omega) fun h => by omega

/-- `MessageType`. -/
inductive MessageType
  | newTransaction
  | newBlock
  | requestChain
  | responseChain
  | ping
  | pong
  | peerList
  | requestPeers
  | responsePeers
  | nodeAnnounce
  | registerNode
  | requestBootstrap
  | responseBootstrap
  | unknown
  deriving DecidableEq, Repr

/-- `static_cast<int>`. -/
def MessageType.number : MessageType → Nat
  | newTransaction => 0
  | newBlock => 1
  | requestChain => 2
  | responseChain => 3
  | ping => 4
  | pong => 5
  | peerList => 6
  | requestPeers => 7
  | responsePeers => 8
  | nodeAnnounce => 9
  | registerNode => 10
  | requestBootstrap => 11
  | responseBootstrap => 12
  | unknown => 13

/-- `struct Message`. -/
structure Message where
  type : MessageType
  payload : Json := .object []

/-- `makeEndpoint`, and the key of a peer. -/
def makeEndpoint (host : String) (port : UInt16) : String :=
  host ++ ":" ++ toString port.toNat

/-- The part of `class Peer` that the node works with. -/
structure Peer where
  /-- what `remote_endpoint()` gives while the connection stands; `none` when
  it throws on an open socket -/
  remote : Option (String × UInt16)
  isOpen : Bool := true
  knownListenPort : UInt16 := 0
  messageTimes : List Instant := []
  writeQueue : List Message := []
  writing : Bool := false

namespace Peer

/-- `socket_.remote_endpoint()`; a closed socket has none. -/
def remoteEndpoint (p : Peer) : Option (String × UInt16) :=
  if p.isOpen then p.remote else none

/-- `getEndpoint`: the listen port of the peer, once it is known, stands for
the port it connected from. -/
def getEndpoint (p : Peer) : String :=
  match p.remoteEndpoint with
  | some (address, port) =>
    makeEndpoint address (if p.knownListenPort > 0 then p.knownListenPort else port)
  | none => "unknown"

/-- `getPort`. -/
def getPort (p : Peer) : UInt16 :=
  match p.remoteEndpoint with
  | some (_, port) => port
  | none => 0

/-- `close`. -/
def close (p : Peer) : Peer := { p with isOpen := false }

/-- `MAX_WRITE_QUEUE`. -/
def maxWriteQueue : Nat := 1000

/-- `send`: a message that finds the queue full is dropped. -/
def send (p : Peer) (msg : Message) : Peer :=
  if p.writeQueue.length ≥ maxWriteQueue then p
  else { p with writeQueue := p.writeQueue ++ [msg], writing := true }

/-- The end of a `doWrite`: the first message is out. -/
def written (p : Peer) : Peer :=
  { p with writeQueue := p.writeQueue.tail, writing := !p.writeQueue.tail.isEmpty }

/-- The end of a `doWrite` that failed. -/
def writeFailed (p : Peer) : Peer := { p with writeQueue := [], writing := false }

/-- The times `isRateLimited` keeps: this call and those of the second before. -/
def recentTimes (p : Peer) (now : Instant) : List Instant :=
  (p.messageTimes ++ [now]).dropWhile fun t => t < now - 1000000000

/-- `isRateLimited`, which compares the number of the times as an `int`. -/
def isRateLimited (p : Peer) (now : Instant) (maxPerSecond : Int32) : Bool × Peer :=
  (maxPerSecond < Int32.ofNat (p.recentTimes now).length,
    { p with messageTimes := p.recentTimes now })

end Peer

end PersonalBlockchain
