import PersonalBlockchain.Lib.FiniteMap
import PersonalBlockchain.P2P.Peer

/-!
# Personal blockchain — peer scores

`class PeerScorer`: the reputation of the peers whose listen address is known.
Scores are `int32_t` in the source and unbounded here. The map is read in two ways,
and each operation has a lemma for both:

* `awaitsSince` — since when the pong of an endpoint is awaited, which is what the
  heartbeat looks at;
* `standing` — the score of an endpoint and whether it is banned; `PeerScorer.Sound`
  is the invariant that ties the two together.
-/

namespace PersonalBlockchain

open Std FiniteMap

/-- `PeerInfo`, with its defaults. -/
structure PeerInfo where
  host : String := ""
  port : UInt16 := 0
  score : Int := 100
  banned : Bool := false
  invalidBlockCount : Int := 0
  lastSeen : Instant := 0
  lastPingSent : Instant := 0
  pendingPong : Bool := false

/-- The scorer: what it has on record, by endpoint. -/
structure PeerScorer where
  peers : ExtTreeMap String PeerInfo := ∅

namespace PeerScorer

def initialScore : Int := 100
def banThreshold : Int := 0
def rewardValidBlock : Int := 1
def rewardValidTx : Int := 1
def penaltyInvalidBlock : Int := -10
def penaltyInvalidTx : Int := -5
def penaltyRapidMisbehavior : Int := -20

/-- `addPeer`: nothing changes for a known peer. -/
def addPeer (now : Instant) (host : String) (port : UInt16) (ps : PeerScorer) : PeerScorer :=
  if ps.peers.contains (makeEndpoint host port) then ps
  else
    let info := { host := host, port := port, score := initialScore, lastSeen := now }
    { peers := ps.peers.insert (makeEndpoint host port) info }

/-- What a reward makes of a peer. Scores end at 200, and a banned peer is
forgiven once its score is more than 20 above the threshold. -/
def PeerInfo.reward (amount : Int) (info : PeerInfo) : PeerInfo :=
  let score := min (info.score + amount) 200
  if info.banned ∧ score > banThreshold + 20 then
    { info with score := score, banned := false, invalidBlockCount := 0 }
  else { info with score := score }

/-- `rewardPeer`. -/
def rewardPeer (key : String) (amount : Int) (ps : PeerScorer) : PeerScorer :=
  match ps.peers[key]? with
  | some info => { peers := ps.peers.insert key (PeerInfo.reward amount info) }
  | none => ps

/-- What a penalty makes of a peer, the ban included. -/
def PeerInfo.penalize (penalty : Int) (info : PeerInfo) : PeerInfo :=
  let info := { info with score := info.score + penalty }
  let info := if penalty = penaltyInvalidBlock then
      let count := info.invalidBlockCount + 1
      -- the third invalid block costs extra, once
      { info with
        invalidBlockCount := count
        score := if count = 3 then info.score + penaltyRapidMisbehavior else info.score }
    else info
  if info.score ≤ banThreshold then { info with banned := true } else info

/-- `penalizePeer`; the answer is whether the peer is banned by this. -/
def penalizePeer (key : String) (penalty : Int) (ps : PeerScorer) : Bool × PeerScorer :=
  match ps.peers[key]? with
  | some info =>
    let info := PeerInfo.penalize penalty info
    (info.score ≤ banThreshold, { peers := ps.peers.insert key info })
  | none => (false, ps)

/-- `isBanned`. -/
def isBanned (key : String) (ps : PeerScorer) : Bool :=
  match ps.peers[key]? with
  | some info => info.banned
  | none => false

/-- `getScore`. -/
def getScore (key : String) (ps : PeerScorer) : Int :=
  match ps.peers[key]? with
  | some info => info.score
  | none => 0

/-- `markSeen`. -/
def markSeen (now : Instant) (key : String) (ps : PeerScorer) : PeerScorer :=
  match ps.peers[key]? with
  | some info => { peers := ps.peers.insert key { info with lastSeen := now } }
  | none => ps

/-- `markPingSent`: a ping that waits for its pong stays the one on record. -/
def markPingSent (now : Instant) (key : String) (ps : PeerScorer) : PeerScorer :=
  match ps.peers[key]? with
  | some info =>
    if info.pendingPong then ps
    else { peers := ps.peers.insert key { info with lastPingSent := now, pendingPong := true } }
  | none => ps

/-- `markPongReceived`. -/
def markPongReceived (now : Instant) (key : String) (ps : PeerScorer) : PeerScorer :=
  match ps.peers[key]? with
  | some info =>
    { peers := ps.peers.insert key { info with pendingPong := false, lastSeen := now } }
  | none => ps

/-- `getHeartbeatTimeoutPeers`, in the order of the map. -/
def getHeartbeatTimeoutPeers (now : Instant) (timeoutSeconds : Int) (ps : PeerScorer) :
    List String :=
  (ps.peers.toList.filter fun entry =>
    entry.2.pendingPong && decide (now - entry.2.lastPingSent > timeoutSeconds * 1000000000)).map
      Prod.fst

/-- The banned among `getAllPeers`; the node's metrics count them. -/
def bannedCount (ps : PeerScorer) : Nat :=
  (ps.peers.toList.filter fun entry => entry.2.banned).length

/-- `evictStalePeers`. A ban does not keep an entry, so that a banned endpoint
which is silent for long enough starts afresh. -/
def evictStalePeers (now : Instant) (staleSeconds : Int) (ps : PeerScorer) : PeerScorer :=
  { peers := ps.peers.filter fun _ info =>
      !decide (now - info.lastSeen > staleSeconds * 1000000000) }

/-! ## Pongs that are awaited -/

/-- Since when the pong of an endpoint is awaited. -/
def awaitsSince (key : String) (ps : PeerScorer) : Option Instant :=
  match ps.peers[key]? with
  | some info => if info.pendingPong then some info.lastPingSent else none
  | none => none

variable {ps : PeerScorer} {now : Instant} {key other : String}

/-- An entry that is replaced counts for its own endpoint only. -/
theorem awaitsSince_insert {info : PeerInfo} :
    awaitsSince key { peers := ps.peers.insert other info } =
      if other = key then (if info.pendingPong then some info.lastPingSent else none)
      else ps.awaitsSince key := by
  unfold awaitsSince
  rw [getElem?_insert_eq]
  by_cases heq : other = key
  · simp only [if_pos heq]
  · simp only [if_neg heq]

/-- Another entry for the same endpoint, with the same ping. -/
theorem awaitsSince_update {info info' : PeerInfo} (h : ps.peers[other]? = some info)
    (hpending : info'.pendingPong = info.pendingPong)
    (hsent : info'.lastPingSent = info.lastPingSent) :
    awaitsSince key { peers := ps.peers.insert other info' } = ps.awaitsSince key := by
  rw [awaitsSince_insert]
  split
  next heq =>
    subst heq
    simp only [awaitsSince, h, hpending, hsent]
  next => rfl

/-- A peer that is new has no ping to answer. -/
theorem awaitsSince_addPeer {host : String} {port : UInt16} :
    (ps.addPeer now host port).awaitsSince key = ps.awaitsSince key := by
  unfold addPeer
  split
  · rfl
  next hnew =>
    rw [awaitsSince_insert]
    split
    next heq =>
      subst heq
      rw [awaitsSince,
        ExtTreeMap.getElem?_eq_none_of_contains_eq_false (Bool.eq_false_of_not_eq_true hnew)]
      rfl
    next => rfl

theorem awaitsSince_rewardPeer {amount : Int} :
    (ps.rewardPeer other amount).awaitsSince key = ps.awaitsSince key := by
  unfold rewardPeer
  split
  next info hinfo =>
    refine awaitsSince_update hinfo ?_ ?_
    all_goals
      unfold PeerInfo.reward
      dsimp only
      split
      · rfl
      · rfl
  next => rfl

theorem awaitsSince_penalizePeer {penalty : Int} :
    (ps.penalizePeer other penalty).2.awaitsSince key = ps.awaitsSince key := by
  unfold penalizePeer
  split
  next info hinfo =>
    refine awaitsSince_update hinfo ?_ ?_
    all_goals
      unfold PeerInfo.penalize
      dsimp only
      split_ifs <;> rfl
  next => rfl

theorem awaitsSince_markSeen : (ps.markSeen now other).awaitsSince key = ps.awaitsSince key := by
  unfold markSeen
  split
  next info hinfo => exact awaitsSince_update hinfo rfl rfl
  next => rfl

/-- An eviction forgets the ping with the peer. -/
theorem awaitsSince_of_evictStalePeers {staleSeconds : Int} {t : Instant}
    (h : (ps.evictStalePeers now staleSeconds).awaitsSince key = some t) :
    ps.awaitsSince key = some t := by
  unfold awaitsSince at h ⊢
  cases hkept : (ps.evictStalePeers now staleSeconds).peers[key]? with
  | none => simp [hkept] at h
  | some info =>
    rw [(getElem?_filter_eq_some.mp hkept).1]
    rwa [hkept] at h

/-- A pong answers the ping of its own endpoint. -/
theorem awaitsSince_markPongReceived :
    (ps.markPongReceived now other).awaitsSince key =
      if other = key then none else ps.awaitsSince key := by
  unfold markPongReceived
  split
  next info hinfo =>
    rw [awaitsSince_insert]
    rfl
  next hnone =>
    split
    next heq => rw [awaitsSince, ← heq, hnone]
    next => rfl

/-- A ping is on record from now on, if none was before. -/
theorem awaitsSince_markPingSent :
    (ps.markPingSent now other).awaitsSince key = ps.awaitsSince key ∨
      ps.awaitsSince key = none ∧ (ps.markPingSent now other).awaitsSince key = some now := by
  unfold markPingSent
  split
  next info hinfo =>
    split
    next => exact .inl rfl
    next hpending =>
      rw [awaitsSince_insert]
      split
      next heq =>
        subst heq
        refine .inr ⟨?_, rfl⟩
        simp only [awaitsSince, hinfo, if_neg hpending]
      next => exact .inl rfl
  next => exact .inl rfl

/-- Whose pong is overdue: those who have been awaited for longer than the
timeout. -/
theorem mem_getHeartbeatTimeoutPeers {timeoutSeconds : Int} :
    key ∈ ps.getHeartbeatTimeoutPeers now timeoutSeconds ↔
      ∃ t, ps.awaitsSince key = some t ∧ now - t > timeoutSeconds * 1000000000 := by
  simp only [getHeartbeatTimeoutPeers, List.mem_map, List.mem_filter, Prod.exists,
    ExtTreeMap.mem_toList_iff_getElem?_eq_some, exists_and_right, exists_eq_right,
    Bool.and_eq_true, decide_eq_true_eq, awaitsSince]
  constructor
  · rintro ⟨info, hinfo, hpending, hlate⟩
    exact ⟨info.lastPingSent, by rw [hinfo]; exact if_pos hpending, hlate⟩
  -- the time of a ping only counts while its pong is pending
  · rintro ⟨t, ht, hlate⟩
    split at ht
    next info hinfo =>
      split at ht
      next hpending =>
        cases ht
        exact ⟨info, hinfo, hpending, hlate⟩
      next => cases ht
    next => cases ht

/-! ## Standing -/

/-- The score of an endpoint, and whether it is banned. -/
def standing (key : String) (ps : PeerScorer) : Option (Int × Bool) :=
  ps.peers[key]?.map fun info => (info.score, info.banned)

theorem standing_insert {info : PeerInfo} :
    standing key { peers := ps.peers.insert other info } =
      if other = key then some (info.score, info.banned) else ps.standing key := by
  unfold standing
  rw [getElem?_insert_eq]
  split
  · rfl
  · rfl

/-- Another entry for the same endpoint, with the same score. -/
theorem standing_update {info info' : PeerInfo} (h : ps.peers[other]? = some info)
    (hscore : info'.score = info.score) (hbanned : info'.banned = info.banned) :
    standing key { peers := ps.peers.insert other info' } = ps.standing key := by
  rw [standing_insert]
  split
  next heq =>
    subst heq
    rw [standing, h, hscore, hbanned]
    rfl
  next => rfl

theorem standing_markSeen : (ps.markSeen now other).standing key = ps.standing key := by
  unfold markSeen
  split
  next info hinfo => exact standing_update hinfo rfl rfl
  next => rfl

theorem standing_markPingSent : (ps.markPingSent now other).standing key = ps.standing key := by
  unfold markPingSent
  split
  next info hinfo =>
    split
    · rfl
    · exact standing_update hinfo rfl rfl
  next => rfl

theorem standing_markPongReceived :
    (ps.markPongReceived now other).standing key = ps.standing key := by
  unfold markPongReceived
  split
  next info hinfo => exact standing_update hinfo rfl rfl
  next => rfl

/-- What is new starts with the initial score. -/
theorem standing_addPeer {host : String} {port : UInt16} :
    (ps.addPeer now host port).standing key = ps.standing key ∨
      ps.standing key = none ∧
        (ps.addPeer now host port).standing key = some (initialScore, false) := by
  unfold addPeer
  split
  · exact .inl rfl
  next hnew =>
    rw [standing_insert]
    split
    next heq =>
      subst heq
      refine .inr ⟨?_, rfl⟩
      rw [standing,
        ExtTreeMap.getElem?_eq_none_of_contains_eq_false (Bool.eq_false_of_not_eq_true hnew)]
      rfl
    next => exact .inl rfl

theorem standing_evictStalePeers {staleSeconds : Int} :
    (ps.evictStalePeers now staleSeconds).standing key = ps.standing key ∨
      (ps.evictStalePeers now staleSeconds).standing key = none := by
  unfold standing
  cases hkept : (ps.evictStalePeers now staleSeconds).peers[key]? with
  | none => exact .inr rfl
  | some info => exact .inl (by rw [(getElem?_filter_eq_some.mp hkept).1])

theorem standing_rewardPeer_of_ne {amount : Int} (h : other ≠ key) :
    (ps.rewardPeer other amount).standing key = ps.standing key := by
  unfold rewardPeer
  split
  · rw [standing_insert, if_neg h]
  · rfl

theorem standing_penalizePeer_of_ne {penalty : Int} (h : other ≠ key) :
    (ps.penalizePeer other penalty).2.standing key = ps.standing key := by
  unfold penalizePeer
  split
  · rw [standing_insert, if_neg h]
  · rfl

/-- A penalty for anything but a block is the whole of the loss. -/
def charged (penalty : Int) (standing : Int × Bool) : Int × Bool :=
  (standing.1 + penalty, standing.2 || decide (standing.1 + penalty ≤ banThreshold))

/-- A penalty for anything but a block is the whole of the loss, and bans where
the score comes down to the threshold. -/
theorem standing_penalizePeer {penalty : Int} (h : penalty ≠ penaltyInvalidBlock) :
    (ps.penalizePeer key penalty).2.standing key = (ps.standing key).map (charged penalty) := by
  unfold penalizePeer
  split
  next info hinfo =>
    rw [standing_insert, if_pos rfl, standing, hinfo]
    simp only [PeerInfo.penalize, if_neg h, Option.map_some, charged]
    split
    next hlow => simp [hlow]
    next hhigh => simp [hhigh]
  next hnone =>
    rw [standing, hnone]
    rfl

/-- Whatever a penalty is for, the score falls by it at least, and the answer is
whether it has come down to the threshold. -/
theorem penalizePeer_standing {penalty : Int} {before : Int × Bool} (hpenalty : penalty ≤ 0)
    (h : ps.standing key = some before) :
    ∃ score ≤ before.1,
      (ps.penalizePeer key penalty).2.standing key =
        some (score, before.2 || decide (score ≤ banThreshold)) ∧
      (ps.penalizePeer key penalty).1 = decide (score ≤ banThreshold) := by
  unfold penalizePeer
  split
  next info hinfo =>
    obtain rfl : (info.score, info.banned) = before := by
      rw [standing, hinfo] at h
      exact Option.some.inj h
    -- the third invalid block adds its own penalty, which only lowers the score
    refine ⟨(PeerInfo.penalize penalty info).score, ?_, ?_, rfl⟩
    · unfold PeerInfo.penalize penaltyRapidMisbehavior
      dsimp only
      split_ifs <;> dsimp only <;> omega
    · rw [standing_insert, if_pos rfl]
      unfold PeerInfo.penalize
      dsimp only
      split_ifs <;> simp_all
  next hnone =>
    rw [standing, hnone] at h
    cases h

theorem isBanned_eq : ps.isBanned key = (ps.standing key).any Prod.snd := by
  unfold isBanned standing
  cases ps.peers[key]? <;> rfl

/-- `getScore` reads the standing, and an endpoint that nobody knows has score
0. -/
theorem getScore_eq : ps.getScore key = ((ps.standing key).map Prod.fst).getD 0 := by
  unfold getScore standing
  cases ps.peers[key]? <;> rfl

theorem contains_eq : ps.peers.contains key = (ps.standing key).isSome := by
  rw [ExtTreeMap.contains_eq_isSome_getElem?, standing, Option.isSome_map]

/-- Scores are bounded, and whoever is not banned has one above the threshold. A
banned peer may have any score: it is climbing back. -/
def Sound (ps : PeerScorer) : Prop :=
  ∀ key score banned, ps.standing key = some (score, banned) →
    score ≤ 200 ∧ (banned = false → banThreshold < score)

theorem Sound.insert (h : ps.Sound) {info : PeerInfo}
    (hinfo : info.score ≤ 200 ∧ (info.banned = false → banThreshold < info.score)) :
    Sound { peers := ps.peers.insert other info } := by
  intro key score banned hkey
  rw [standing_insert] at hkey
  split at hkey
  · cases hkey
    exact hinfo
  · exact h key score banned hkey

theorem Sound.of_standing {info : PeerInfo} (h : ps.Sound) (hinfo : ps.peers[key]? = some info) :
    info.score ≤ 200 ∧ (info.banned = false → banThreshold < info.score) :=
  h key _ _ (by rw [standing, hinfo]; rfl)

/-- A reward keeps the invariant: it ends at 200, and it lifts a ban only high
above the threshold. -/
theorem Sound.rewardPeer {amount : Int} (h : ps.Sound) (hamount : 0 ≤ amount) :
    (ps.rewardPeer key amount).Sound := by
  unfold PeerScorer.rewardPeer
  split
  next info hinfo =>
    obtain ⟨hscore, hbanned⟩ := h.of_standing hinfo
    refine h.insert ?_
    unfold PeerInfo.reward
    dsimp only
    split
    -- a pardon needs a score above the threshold
    next hpardon =>
      refine ⟨Int.min_le_right _ _, fun _ => ?_⟩
      exact Int.lt_trans (Int.lt_add_of_pos_right _ (by decide)) hpardon.2
    next =>
      refine ⟨Int.min_le_right _ _, fun hno => ?_⟩
      have hpositive := hbanned hno
      unfold banThreshold at hpositive ⊢
      dsimp only
      omega
  next => exact h

/-- A penalty keeps the invariant: at the threshold it bans. -/
theorem Sound.penalizePeer {penalty : Int} (h : ps.Sound) (hpenalty : penalty ≤ 0) :
    (ps.penalizePeer key penalty).2.Sound := by
  unfold PeerScorer.penalizePeer
  split
  next info hinfo =>
    obtain ⟨hscore, -⟩ := h.of_standing hinfo
    refine h.insert ?_
    unfold PeerInfo.penalize penaltyRapidMisbehavior
    dsimp only
    split_ifs <;> (refine ⟨?_, fun hno => ?_⟩) <;> simp_all <;> omega
  next => exact h

end PeerScorer

end PersonalBlockchain
