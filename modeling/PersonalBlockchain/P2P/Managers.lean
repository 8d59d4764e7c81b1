import PersonalBlockchain.P2P.Peer
import Std.Data.ExtTreeMap

/-!
# Personal blockchain — what a node knows about peers

`PeerManager`, `BootstrapManager`, `ConnectionManager` and `NetworkMetrics`.
A `std::unordered_set` is iterated in an order of its own: `knownTopology`
takes that order as an argument, and the shuffle of `getRandomPeers` too.
-/

namespace PersonalBlockchain

open Std

/-! ## `PeerManager` -/

/-- `PeerManager`: the endpoints that are known, when each was dialled last, and
how long it is quarantined. -/
structure PeerManager where
  knownPeers : List String := []
  lastDialAttempt : ExtTreeMap String Instant := ∅
  quarantinedUntil : ExtTreeMap String Instant := ∅

namespace PeerManager

/-- `addKnownPeer`. -/
def addKnownPeer (endpoint : String) (pm : PeerManager) : PeerManager :=
  if endpoint = "" ∨ endpoint ∈ pm.knownPeers then pm
  else { pm with knownPeers := pm.knownPeers ++ [endpoint] }

/-- `mergeKnownPeers`. -/
def mergeKnownPeers (peers : List String) (pm : PeerManager) : PeerManager :=
  peers.foldl (fun pm peer => pm.addKnownPeer peer) pm

/-- `isQuarantined`. -/
def isQuarantined (now : Instant) (endpoint : String) (pm : PeerManager) : Bool :=
  match pm.quarantinedUntil[endpoint]? with
  | some deadline => now < deadline
  | none => false

/-- `getRandomPeers`. -/
def getRandomPeers (now : Instant) (shuffle : List String → List String) (maxCount : Nat)
    (exclude : List String) (pm : PeerManager) : List String :=
  (shuffle (pm.knownPeers.filter fun peer =>
    !exclude.contains peer && !pm.isQuarantined now peer)).take maxCount

/-- `shouldAttemptConnection`. -/
def shouldAttemptConnection (now : Instant) (endpoint : String) (cooldownMs : Int)
    (pm : PeerManager) : Bool :=
  if pm.isQuarantined now endpoint then false
  else
    match pm.lastDialAttempt[endpoint]? with
    | some last => cooldownMs ≤ (now - last).tdiv 1000000
    | none => true

/-- `markDialAttempt`. -/
def markDialAttempt (now : Instant) (endpoint : String) (pm : PeerManager) : PeerManager :=
  { pm with lastDialAttempt := pm.lastDialAttempt.insert endpoint now }

/-- `quarantinePeer`. -/
def quarantinePeer (now : Instant) (endpoint : String) (quarantineSeconds : Int)
    (pm : PeerManager) : PeerManager :=
  { pm with quarantinedUntil :=
      pm.quarantinedUntil.insert endpoint (now + quarantineSeconds * 1000000000) }

/-- `std::isspace` before the digits of `std::stoi`. -/
def isStoiSpace (c : Char) : Bool := c = ' ' || ('\t' ≤ c && c ≤ '\r')

/-- `std::stoi`: blanks, a sign, digits, and whatever follows them; no digits
or a value that is no `int` throw. -/
def stoi (s : String) : Option Int :=
  let chars := s.toList.dropWhile isStoiSpace
  let (negative, digits) := match chars with
    | '-' :: rest => (true, rest.takeWhile Char.isDigit)
    | '+' :: rest => (false, rest.takeWhile Char.isDigit)
    | _ => (false, chars.takeWhile Char.isDigit)
  if digits = [] then none
  else
    let magnitude : Int := digits.foldl (fun n c => n * 10 + ((c.toNat : Int) - 48)) 0
    let value := if negative then -magnitude else magnitude
    if -2147483648 ≤ value ∧ value ≤ 2147483647 then some value else none

/-- `parseEndpoint`: the host and the port, when it succeeds. It splits at the
last colon; a port of 0 after the cut to 16 bits fails. -/
def parseEndpoint (endpoint : String) : Option (String × UInt16) :=
  let chars := endpoint.toList
  let after := (chars.reverse.takeWhile fun c => c ≠ ':').reverse
  let host := chars.take (chars.length - after.length - 1)
  -- no colon, or nothing before the last one
  if ¬ ':' ∈ chars ∨ host = [] then none
  else
    match stoi (String.ofList after) with
    | none => none
    | some n =>
      -- `static_cast<uint16_t>`
      let port := UInt16.ofNat (n % 65536).toNat
      if port > 0 then some (String.ofList host, port) else none

end PeerManager

/-! ## `BootstrapManager` -/

/-- `BootstrapManager`: the configured peers, and the topology that is told to
others. -/
structure BootstrapManager where
  bootstrapPeers : List String := []
  /-- without repetition -/
  topologyPeers : List String := []

namespace BootstrapManager

/-- `registerPeer`. -/
def registerPeer (endpoint : String) (bm : BootstrapManager) : BootstrapManager :=
  if endpoint = "" ∨ endpoint ∈ bm.topologyPeers then bm
  else { bm with topologyPeers := bm.topologyPeers ++ [endpoint] }

/-- What `setBootstrapPeers` does with one of the peers it is given. -/
def configure (bm : BootstrapManager) (peer : String) : BootstrapManager :=
  if peer = "" then bm
  else if peer ∈ bm.bootstrapPeers then bm.registerPeer peer
  else { bm.registerPeer peer with bootstrapPeers := bm.bootstrapPeers ++ [peer] }

/-- `setBootstrapPeers`, which clears what was there. -/
def setBootstrapPeers (peers : List String) : BootstrapManager := peers.foldl configure {}

/-- `knownTopology`. -/
def knownTopology (order : List String → List String) (maxCount : Nat) (bm : BootstrapManager) :
    List String :=
  (order bm.topologyPeers).take maxCount

end BootstrapManager

/-! ## `ConnectionManager` -/

/-- Whether a connection was accepted or dialled. -/
inductive ConnectionDirection
  | inbound
  | outbound
  deriving DecidableEq, Repr

/-- `ConnectionManager`: the registered connections by endpoint, with their
limits. -/
structure ConnectionManager where
  peers : ExtTreeMap String ConnectionDirection := ∅
  maxOutboundPeers : Nat
  maxInboundPeers : Nat

namespace ConnectionManager

/-- `inboundCount` and `outboundCount`. -/
def count (direction : ConnectionDirection) (cm : ConnectionManager) : Nat :=
  (cm.peers.toList.filter fun entry => entry.2 = direction).length

/-- `canAccept`. -/
def canAccept (direction : ConnectionDirection) (cm : ConnectionManager) : Bool :=
  match direction with
  | .inbound => cm.count .inbound < cm.maxInboundPeers
  | .outbound => cm.count .outbound < cm.maxOutboundPeers

/-- `registerConnection`: a second connection of an endpoint takes the entry of
the first. -/
def registerConnection (endpoint : String) (direction : ConnectionDirection)
    (cm : ConnectionManager) : ConnectionManager :=
  { cm with peers := cm.peers.insert endpoint direction }

/-- `unregisterConnection`. -/
def unregisterConnection (endpoint : String) (cm : ConnectionManager) : ConnectionManager :=
  { cm with peers := cm.peers.erase endpoint }

/-- `selectLowestScorePeerToDrop`: the first of the lowest, `""` when there is
none. -/
def selectLowestScorePeerToDrop : List (String × Int) → String
  | [] => ""
  | first :: rest =>
    (rest.foldl (fun lowest entry => if entry.2 < lowest.2 then entry else lowest) first).1

end ConnectionManager

/-! ## `NetworkMetrics` -/

/-- The counters of `NetworkMetrics`. -/
structure NetworkMetrics where
  connectedPeers : Nat := 0
  knownPeers : Nat := 0
  rejectedPeers : Nat := 0
  bannedPeers : Nat := 0

end PersonalBlockchain
