import PersonalBlockchain.Lib.Machine
import PersonalBlockchain.P2P.PeerScorer

/-!
# Personal blockchain — reputation over time

The methods of `PeerScorer` that change something, in any order, with any
arguments and at any times. What a call does to the entry of one endpoint is a
function of that entry (`apply_entry`), so that each endpoint can be followed
by itself; `onEntry_cases` says in which ways an entry comes about.

## Results

* `accounted_step` — one call keeps the bounds of an entry and its count of invalid
  blocks;
* `reputation_hysteresis` — bans begin at one threshold and end at another, and the
  third invalid block costs more;
* `banned_step`, `ban_lasts` — what ends a ban: a reward that brings the score above
  20, or the eviction of the entry;
* `ban_lasts_counterexample` — a banned peer that nobody rewards is evicted, and comes
  back in good standing.
-/

namespace PersonalBlockchain

open Std FiniteMap PeerScorer Machine

/-! ## Calls -/

/-- The methods that change something, with their arguments and the time they
see. -/
inductive ScorerCall
  | addPeer (now : Instant) (host : String) (port : UInt16)
  | rewardPeer (key : String) (amount : Int)
  | penalizePeer (key : String) (penalty : Int)
  | markSeen (now : Instant) (key : String)
  | markPingSent (now : Instant) (key : String)
  | markPongReceived (now : Instant) (key : String)
  | evictStalePeers (now : Instant) (staleSeconds : Int)

namespace ScorerCall

/-- The state after a call. -/
def apply : ScorerCall → PeerScorer → PeerScorer
  | addPeer now host port, ps => ps.addPeer now host port
  | rewardPeer key amount, ps => ps.rewardPeer key amount
  | penalizePeer key penalty, ps => (ps.penalizePeer key penalty).2
  | markSeen now key, ps => ps.markSeen now key
  | markPingSent now key, ps => ps.markPingSent now key
  | markPongReceived now key, ps => ps.markPongReceived now key
  | evictStalePeers now staleSeconds, ps => ps.evictStalePeers now staleSeconds

/-- Rewards are not negative and penalties are. -/
def Proper : ScorerCall → Prop
  | rewardPeer _ amount => 0 ≤ amount
  | penalizePeer _ penalty => penalty < 0
  | _ => True

/-- What a call makes of the entry of `key`. An entry comes into being with
`addPeer` and goes with `evictStalePeers`; in between the calls for this key
change it. -/
def onEntry (key : String) : ScorerCall → Option PeerInfo → Option PeerInfo
  | addPeer now host port, entry =>
    if makeEndpoint host port = key then
      entry <|> some { host := host, port := port, score := initialScore, lastSeen := now }
    else entry
  | rewardPeer other amount, entry =>
    if other = key then entry.map (PeerInfo.reward amount) else entry
  | penalizePeer other penalty, entry =>
    if other = key then entry.map (PeerInfo.penalize penalty) else entry
  | markSeen now other, entry =>
    if other = key then entry.map fun info => { info with lastSeen := now } else entry
  | markPingSent now other, entry =>
    if other = key then entry.map fun info =>
      if info.pendingPong then info else { info with lastPingSent := now, pendingPong := true }
    else entry
  | markPongReceived now other, entry =>
    if other = key then entry.map fun info => { info with pendingPong := false, lastSeen := now }
    else entry
  | evictStalePeers now staleSeconds, entry =>
    entry.filter fun info => !decide (now - info.lastSeen > staleSeconds * 1000000000)

end ScorerCall

/-- One call. -/
def scorerStep (call : ScorerCall) (ps : PeerScorer) : Option (Unit × PeerScorer) :=
  some ((), call.apply ps)

/-- A call in a run of the scorer. -/
abbrev ScorerEntry := Entry PeerScorer ScorerCall Unit

/-- A run of calls. -/
abbrev ScorerRun (ps₀ : PeerScorer) (tr : List ScorerEntry) (ps : PeerScorer) : Prop :=
  Run scorerStep ps₀ tr ps

variable {ps ps' : PeerScorer} {call : ScorerCall} {key : String} {info info' : PeerInfo}
  {entry : Option PeerInfo} {tr : List ScorerEntry} {e : ScorerEntry}

theorem post_of_scorerStep (h : scorerStep e.call e.pre = some (e.ret, e.post)) :
    e.post = e.call.apply e.pre :=
  (congrArg Prod.snd (Option.some.inj h)).symm

/-- An entry that is replaced is changed for its own key. -/
theorem entry_insert {f : PeerInfo → PeerInfo} {other : String}
    (h : ps.peers[other]? = some info) :
    (ps.peers.insert other (f info))[key]? =
      if other = key then ps.peers[key]?.map f else ps.peers[key]? := by
  rw [getElem?_insert_eq]
  split
  next heq => rw [← heq, h, Option.map_some]
  next => rfl

theorem entry_unknown {f : PeerInfo → PeerInfo} {other : String} (h : ps.peers[other]? = none) :
    ps.peers[key]? = if other = key then ps.peers[key]?.map f else ps.peers[key]? := by
  split
  next heq => rw [← heq, h, Option.map_none]
  next => rfl

/-- **One call, one entry.** What a call makes of the map is, for each key, what
it makes of the entry of that key. -/
theorem apply_entry : (call.apply ps).peers[key]? = call.onEntry key ps.peers[key]? := by
  cases call with
  | addPeer now host port =>
    rw [ScorerCall.apply, ScorerCall.onEntry, PeerScorer.addPeer]
    -- an endpoint that is there already is left as it is
    split
    next hknown =>
      split
      next heq =>
        rw [heq, ExtTreeMap.contains_eq_isSome_getElem?] at hknown
        obtain ⟨info, hinfo⟩ := Option.isSome_iff_exists.mp hknown
        rw [hinfo]
        rfl
      next => rfl
    next hnew =>
      rw [getElem?_insert_eq]
      split
      next heq =>
        rw [heq, ExtTreeMap.contains_eq_isSome_getElem?, Option.not_isSome_iff_eq_none] at hnew
        rw [hnew]
        rfl
      next => rfl
  | rewardPeer other amount =>
    rw [ScorerCall.apply, PeerScorer.rewardPeer]
    split
    next hinfo => exact entry_insert hinfo
    next hnone => exact entry_unknown hnone
  | penalizePeer other penalty =>
    rw [ScorerCall.apply, PeerScorer.penalizePeer]
    split
    next hinfo => exact entry_insert hinfo
    next hnone => exact entry_unknown hnone
  | markSeen now other =>
    rw [ScorerCall.apply, PeerScorer.markSeen]
    split
    next info hinfo => exact @entry_insert _ _ _ (fun info => { info with lastSeen := now }) _ hinfo
    next hnone => exact entry_unknown hnone
  | markPingSent now other =>
    rw [ScorerCall.apply, PeerScorer.markPingSent, ScorerCall.onEntry]
    split
    next info hinfo =>
      split
      -- a pong is awaited already
      next hpending =>
        split
        next heq =>
          subst heq
          rw [hinfo, Option.map_some, if_pos hpending]
        next => rfl
      next hfree =>
        rw [← entry_insert hinfo, if_neg hfree]
    next hnone => exact entry_unknown hnone
  | markPongReceived now other =>
    rw [ScorerCall.apply, PeerScorer.markPongReceived]
    split
    next info hinfo =>
      exact @entry_insert _ _ _
        (fun info => { info with pendingPong := false, lastSeen := now }) _ hinfo
    next hnone => exact entry_unknown hnone
  | evictStalePeers now staleSeconds => exact ExtTreeMap.getElem?_filter'

/-- The call is a reward or a penalty of this endpoint. -/
def ScorerCall.scores (key : String) : ScorerCall → Bool
  | rewardPeer other _ | penalizePeer other _ => other = key
  | _ => false

/-- How an entry comes about: it is new, it keeps its score, its ban and its
count, or it has been rewarded or penalized. -/
theorem onEntry_cases (h : call.onEntry key entry = some info') :
    entry = none ∧ info'.score = initialScore ∧ info'.banned = false ∧
        info'.invalidBlockCount = 0 ∨
      ∃ info, entry = some info ∧
        (call.scores key = false ∧ info'.score = info.score ∧ info'.banned = info.banned ∧
            info'.invalidBlockCount = info.invalidBlockCount ∨
          (∃ amount, call = .rewardPeer key amount ∧ info' = PeerInfo.reward amount info) ∨
          ∃ penalty, call = .penalizePeer key penalty ∧
            info' = PeerInfo.penalize penalty info) := by
  cases call with
  | addPeer now host port =>
    rw [ScorerCall.onEntry] at h
    cases entry with
    | none =>
      split at h
      · cases h
        exact .inl ⟨rfl, rfl, rfl, rfl⟩
      · cases h
    | some info =>
      -- registered again, or another endpoint
      obtain rfl : info = info' := by
        split at h
        · exact Option.some.inj h
        · exact Option.some.inj h
      exact .inr ⟨info, rfl, .inl ⟨rfl, rfl, rfl, rfl⟩⟩
  | rewardPeer other amount =>
    rw [ScorerCall.onEntry] at h
    split at h
    next heq =>
      subst heq
      obtain ⟨info, rfl, rfl⟩ := Option.map_eq_some_iff.mp h
      exact .inr ⟨info, rfl, .inr (.inl ⟨amount, rfl, rfl⟩)⟩
    next hne => exact .inr ⟨info', h, .inl ⟨decide_eq_false hne, rfl, rfl, rfl⟩⟩
  | penalizePeer other penalty =>
    rw [ScorerCall.onEntry] at h
    split at h
    next heq =>
      subst heq
      obtain ⟨info, rfl, rfl⟩ := Option.map_eq_some_iff.mp h
      exact .inr ⟨info, rfl, .inr (.inr ⟨penalty, rfl, rfl⟩)⟩
    next hne => exact .inr ⟨info', h, .inl ⟨decide_eq_false hne, rfl, rfl, rfl⟩⟩
  | markSeen now other | markPongReceived now other =>
    rw [ScorerCall.onEntry] at h
    split at h
    · obtain ⟨info, rfl, rfl⟩ := Option.map_eq_some_iff.mp h
      exact .inr ⟨info, rfl, .inl ⟨rfl, rfl, rfl, rfl⟩⟩
    · exact .inr ⟨info', h, .inl ⟨rfl, rfl, rfl, rfl⟩⟩
  | markPingSent now other =>
    rw [ScorerCall.onEntry] at h
    split at h
    · obtain ⟨info, rfl, rfl⟩ := Option.map_eq_some_iff.mp h
      refine .inr ⟨info, rfl, .inl ?_⟩
      split <;> exact ⟨rfl, rfl, rfl, rfl⟩
    · exact .inr ⟨info', h, .inl ⟨rfl, rfl, rfl, rfl⟩⟩
  | evictStalePeers now staleSeconds =>
    exact .inr ⟨info', (Option.filter_eq_some_iff.mp h).1, .inl ⟨rfl, rfl, rfl, rfl⟩⟩

/-! ## Rewards and penalties -/

section Amounts

variable {amount penalty : Int}

theorem reward_score : (PeerInfo.reward amount info).score = min (info.score + amount) 200 := by
  unfold PeerInfo.reward
  dsimp only
  split <;> rfl

theorem reward_banned : (PeerInfo.reward amount info).banned =
    (info.banned && decide (min (info.score + amount) 200 ≤ banThreshold + 20)) := by
  unfold PeerInfo.reward
  dsimp only
  split
  next h => rw [h.1, Bool.true_and, decide_eq_false (Int.not_le.mpr h.2)]
  next h =>
    dsimp only
    cases hbanned : info.banned with
    | false => rfl
    | true => rw [Bool.true_and, decide_eq_true (Int.not_lt.mp fun hlt => h ⟨hbanned, hlt⟩)]

/-- The end of a ban is a new start. -/
theorem reward_invalidBlockCount : (PeerInfo.reward amount info).invalidBlockCount =
    if info.banned && !(PeerInfo.reward amount info).banned then 0
    else info.invalidBlockCount := by
  unfold PeerInfo.reward
  dsimp only
  split
  next h => simp [h.1]
  next h => simp

theorem penalize_invalidBlockCount : (PeerInfo.penalize penalty info).invalidBlockCount =
    info.invalidBlockCount + if penalty = penaltyInvalidBlock then 1 else 0 := by
  unfold PeerInfo.penalize
  dsimp only
  split_ifs <;> simp

/-- The third invalid block costs more. -/
theorem penalize_score : (PeerInfo.penalize penalty info).score = info.score + penalty +
    if penalty = penaltyInvalidBlock ∧ (PeerInfo.penalize penalty info).invalidBlockCount = 3 then
      penaltyRapidMisbehavior
    else 0 := by
  rw [penalize_invalidBlockCount]
  unfold PeerInfo.penalize
  dsimp only
  split_ifs <;> simp_all

/-- A penalty bans at the threshold, and never pardons. -/
theorem penalize_banned : (PeerInfo.penalize penalty info).banned =
    (info.banned || decide ((PeerInfo.penalize penalty info).score ≤ banThreshold)) := by
  unfold PeerInfo.penalize
  dsimp only
  split_ifs <;> simp_all

end Amounts

/-- Bans begin at the threshold and end above 20: whoever has no points left is
banned, and whoever is banned has 20 at most. -/
structure Hysteresis (info : PeerInfo) : Prop where
  capped : info.score ≤ 200
  low : info.score ≤ banThreshold → info.banned = true
  banned : info.banned = true → info.score ≤ banThreshold + 20

theorem Hysteresis.reward {amount : Int} (h : Hysteresis info) (hamount : 0 ≤ amount) :
    Hysteresis (PeerInfo.reward amount info) where
  capped := reward_score.trans_le (Int.min_le_right _ _)
  low := by
    rw [reward_score, reward_banned]
    intro hlow
    have hbanned := h.low
    simp only [banThreshold] at *
    simp [hbanned (by omega)]
    omega
  banned := by
    rw [reward_score, reward_banned, Bool.and_eq_true, decide_eq_true_eq]
    exact And.right

theorem Hysteresis.penalize {penalty : Int} (h : Hysteresis info) (hpenalty : penalty < 0) :
    Hysteresis (PeerInfo.penalize penalty info) := by
  have hless : (PeerInfo.penalize penalty info).score ≤ info.score := by
    rw [penalize_score]
    unfold penaltyRapidMisbehavior
    split <;> omega
  refine ⟨hless.trans h.capped, fun hlow => ?_, fun hbanned => ?_⟩
  · rw [penalize_banned, decide_eq_true hlow, Bool.or_true]
  · rw [penalize_banned, Bool.or_eq_true, decide_eq_true_eq] at hbanned
    rcases hbanned with hbanned | hlow
    · exact hless.trans (h.banned hbanned)
    · exact hlow.trans (by decide)

/-! ## Invalid blocks -/

/-- The entry is new, or its ban has ended. -/
def startsOver : Option PeerInfo → Option PeerInfo → Bool
  | none, some _ => true
  | some info, some info' => info.banned && !info'.banned
  | _, none => false

/-- The penalty for an invalid block. -/
def ScorerCall.blames (key : String) : ScorerCall → Bool
  | penalizePeer other penalty => other = key && penalty = penaltyInvalidBlock
  | _ => false

/-- The invalid blocks of an endpoint since it was registered or its last ban
ended. -/
def invalidBlocks (key : String) (tr : List ScorerEntry) : Nat :=
  (tr.reverse.takeWhile fun e => !startsOver e.pre.peers[key]? e.post.peers[key]?).countP
    fun e => e.call.blames key

/-- The score a call leaves, but for the third invalid block. -/
def ScorerCall.score (key : String) (score : Int) : ScorerCall → Int
  | rewardPeer other amount => if other = key then min (score + amount) 200 else score
  | penalizePeer other penalty => if other = key then score + penalty else score
  | _ => score

theorem blames_of_not_scores (h : call.scores key = false) : call.blames key = false := by
  unfold ScorerCall.scores at h
  unfold ScorerCall.blames
  split at h <;> simp_all

theorem score_of_not_scores {score : Int} (h : call.scores key = false) :
    call.score key score = score := by
  unfold ScorerCall.scores at h
  unfold ScorerCall.score
  split at h <;> simp_all

/-- One more call: the count starts over, or grows by one with an invalid block.
-/
theorem invalidBlocks_concat : invalidBlocks key (tr ++ [e]) =
    if startsOver e.pre.peers[key]? e.post.peers[key]? then 0
    else invalidBlocks key tr + if e.call.blames key then 1 else 0 := by
  rw [invalidBlocks, List.reverse_append, List.reverse_singleton, List.singleton_append,
    List.takeWhile_cons]
  cases startsOver e.pre.peers[key]? e.post.peers[key]? with
  | true => rfl
  | false => exact List.countP_cons

/-- What is known of an entry after the calls so far. -/
structure Accounted (key : String) (tr : List ScorerEntry) (info : PeerInfo) : Prop where
  hysteresis : Hysteresis info
  counted : info.invalidBlockCount = invalidBlocks key tr

/-- **One call** keeps the account of an endpoint: its bounds hold, and its
count is that of the invalid blocks since it was registered or its last ban
ended. -/
theorem accounted_step (hs : scorerStep e.call e.pre = some (e.ret, e.post))
    (hproper : e.call.Proper) (h : ∀ info, e.pre.peers[key]? = some info → Accounted key tr info)
    (hinfo' : e.post.peers[key]? = some info') : Accounted key (tr ++ [e]) info' := by
  have hentry : e.call.onEntry key e.pre.peers[key]? = some info' := by
    rw [← apply_entry, ← post_of_scorerStep hs, hinfo']
  have hcount := @invalidBlocks_concat key tr e
  rw [hinfo'] at hcount
  rcases onEntry_cases hentry with ⟨hnone, hscore, hbanned, hzero⟩ | ⟨info, hinfo, hcases⟩
  · rw [hnone] at hcount
    refine ⟨⟨hscore.trans_le (by decide), fun hlow => ?_, fun hyes => ?_⟩, ?_⟩
    · rw [hscore] at hlow
      exact absurd hlow (by decide)
    · rw [hbanned] at hyes
      cases hyes
    · rw [hzero, hcount]
      rfl
  · obtain ⟨hhysteresis, hcounted⟩ := h info hinfo
    rw [hinfo] at hcount
    rcases hcases with ⟨hother, hscore, hbanned, hsame⟩ | ⟨amount, hcall, rfl⟩ |
      ⟨penalty, hcall, rfl⟩
    · have hstart : startsOver (some info) (some info') = false := by
        rw [startsOver, hbanned, Bool.and_not_self]
      refine ⟨⟨hscore.trans_le hhysteresis.capped, ?_, ?_⟩, ?_⟩
      · rw [hscore, hbanned]
        exact hhysteresis.low
      · rw [hscore, hbanned]
        exact hhysteresis.banned
      · rw [hsame, hcounted, hcount, hstart, blames_of_not_scores hother]
        rfl
    · rw [hcall] at hproper hcount
      refine ⟨hhysteresis.reward hproper, ?_⟩
      rw [hcount, reward_invalidBlockCount, hcounted, startsOver]
      split <;> rfl
    · rw [hcall] at hproper hcount
      refine ⟨hhysteresis.penalize hproper, ?_⟩
      -- a penalty does not end a ban
      have hstart : startsOver (some info) (some (PeerInfo.penalize penalty info)) = false := by
        rw [startsOver, penalize_banned]
        cases info.banned <;> rfl
      rw [hcount, hstart, penalize_invalidBlockCount, hcounted]
      simp [ScorerCall.blames]

/-- What a call makes of the score of an endpoint that stays. -/
def ChargesThird (before : List ScorerEntry) (e : ScorerEntry) : Prop :=
  ∀ key info info', e.pre.peers[key]? = some info → e.post.peers[key]? = some info' →
    info'.score = e.call.score key info.score +
      if e.call.blames key = true ∧ invalidBlocks key (before ++ [e]) = 3 then
        penaltyRapidMisbehavior
      else 0

/-- The charge of one call, where the account was kept before it. -/
theorem chargesThird_step (hs : scorerStep e.call e.pre = some (e.ret, e.post))
    (hproper : e.call.Proper)
    (h : ∀ key info, e.pre.peers[key]? = some info → Accounted key tr info) :
    ChargesThird tr e := by
  intro key info info' hinfo hinfo'
  have hcounted := (accounted_step hs hproper (h key) hinfo').counted
  have hentry : e.call.onEntry key e.pre.peers[key]? = some info' := by
    rw [← apply_entry, ← post_of_scorerStep hs, hinfo']
  rcases onEntry_cases hentry with ⟨hnone, -⟩ | ⟨info₀, hinfo₀, hcases⟩
  · rw [hnone] at hinfo
    cases hinfo
  obtain rfl : info₀ = info := Option.some.inj (hinfo₀.symm.trans hinfo)
  rcases hcases with ⟨hother, hscore, -⟩ | ⟨amount, hcall, rfl⟩ | ⟨penalty, hcall, rfl⟩
  · rw [hscore, score_of_not_scores hother, blames_of_not_scores hother]
    simp
  · rw [hcall, reward_score]
    simp [ScorerCall.score, ScorerCall.blames]
  · -- the counter of the entry is the number of invalid blocks so far
    rw [hcall, penalize_score, hcounted]
    have hthird : invalidBlocks key (tr ++ [e]) = 3 ↔
        (invalidBlocks key (tr ++ [e]) : Int) = 3 := by
      omega
    simp [ScorerCall.score, ScorerCall.blames, hthird]

/-- **Hysteresis.** At every moment, nobody has more than 200 points, whoever
has none left is banned, and whoever is banned has at most 20; and a call
charges 20 points more than it says exactly when it is for the third invalid
block since the endpoint was registered or its last ban ended. -/
theorem reputation_hysteresis {tr : List ScorerEntry} {ps : PeerScorer} (h : ScorerRun {} tr ps)
    (hproper : ∀ e ∈ tr, e.call.Proper) :
    (∀ (key : String) info, ps.peers[key]? = some info → Hysteresis info) ∧
      Along ChargesThird tr := by
  obtain ⟨haccounted, halong⟩ := Run.history_of
    (J := fun tr ps => ∀ (key : String) (info : PeerInfo), ps.peers[key]? = some info →
      Accounted key tr info)
    (C := fun _ e => e.call.Proper) (fun key info hinfo => by simp at hinfo)
    (fun _ _ hJ hC hs key _ => accounted_step hs hC (hJ key)) h
    fun before e after heq => hproper e (by simp [heq])
  refine ⟨fun key info hinfo => (haccounted key info hinfo).hysteresis,
    fun before e after heq => ?_⟩
  obtain ⟨hs, hbefore⟩ := halong before e after heq
  exact chargesThird_step hs (hproper e (by simp [heq])) hbefore

section Sample

/-- A peer whose blocks are invalid. -/
def blamedPeer : List ScorerCall :=
  .addPeer 0 "10.0.0.2" 9001 :: List.replicate 8 (.penalizePeer "10.0.0.2:9001" penaltyInvalidBlock)

end Sample

/-- A peer is banned for its eighth invalid block and pardoned later; then the
third one costs more again. -/
theorem reputation_hysteresis_pardoned :
    ∃ tr ps, ScorerRun {} tr ps ∧ ps.getScore "10.0.0.2:9001" = 10 ∧
      (∀ (key : String) info, ps.peers[key]? = some info → Hysteresis info) ∧
      Along ChargesThird tr := by
  obtain ⟨tr, ps, hrun, hproper, hscore⟩ := Run.exists_of_exec_calls scorerStep
    (blamedPeer ++ .rewardPeer "10.0.0.2:9001" 60 ::
      List.replicate 3 (.penalizePeer "10.0.0.2:9001" penaltyInvalidBlock)) {}
    (fun r => decide (r.2.getScore "10.0.0.2:9001" = 10)) (by decide +kernel)
    (P := ScorerCall.Proper)
    (by simp [blamedPeer, ScorerCall.Proper, penaltyInvalidBlock])
  exact ⟨tr, ps, hrun, of_decide_eq_true hscore, reputation_hysteresis hrun hproper⟩

/-! ## The end of a ban -/

/-- The score has come above 20 with a reward. -/
def WorkedOff (key : String) (e : ScorerEntry) : Prop :=
  ∃ amount, e.call = .rewardPeer key amount ∧ banThreshold + 20 < e.post.getScore key

/-- The endpoint was not seen for longer than the limit, and its entry is
removed. -/
def Forgotten (key : String) (e : ScorerEntry) : Prop :=
  ∃ now staleSeconds info, e.call = .evictStalePeers now staleSeconds ∧
    e.pre.peers[key]? = some info ∧ now - info.lastSeen > staleSeconds * 1000000000

theorem isBanned_eq_true : ps.isBanned key = true ↔
    ∃ info, ps.peers[key]? = some info ∧ info.banned = true := by
  unfold isBanned
  cases ps.peers[key]? <;> simp

theorem getScore_of_entry (h : ps.peers[key]? = some info) : ps.getScore key = info.score := by
  rw [getScore, h]

/-- An eviction removes the entry or leaves it as it is. -/
theorem onEntry_evictStalePeers {now : Instant} {staleSeconds : Int} :
    ScorerCall.onEntry key (.evictStalePeers now staleSeconds) (some info) =
      if now - info.lastSeen > staleSeconds * 1000000000 then none else some info := by
  rw [ScorerCall.onEntry, Option.filter_some]
  by_cases hstale : now - info.lastSeen > staleSeconds * 1000000000
  · rw [decide_eq_true hstale, if_pos hstale]
    rfl
  · rw [decide_eq_false hstale, if_neg hstale]
    rfl

/-- Only an eviction removes an entry. -/
theorem evicted_of_none (h : call.onEntry key (some info) = none) :
    ∃ now staleSeconds, call = .evictStalePeers now staleSeconds ∧
      now - info.lastSeen > staleSeconds * 1000000000 := by
  cases call with
  | evictStalePeers now staleSeconds =>
    rw [onEntry_evictStalePeers] at h
    split at h
    next hstale => exact ⟨now, staleSeconds, rfl, hstale⟩
    next => cases h
  | _ =>
    rw [ScorerCall.onEntry] at h
    split at h <;> cases h

/-- **A ban ends in two ways only.** After a call a banned endpoint is banned
still, unless it has worked the ban off or its entry was evicted. -/
theorem banned_step (hs : scorerStep e.call e.pre = some (e.ret, e.post))
    (hbanned : e.pre.isBanned key = true) :
    e.post.isBanned key = true ↔ ¬ (WorkedOff key e ∨ Forgotten key e) := by
  obtain ⟨info, hinfo, hyes⟩ := isBanned_eq_true.mp hbanned
  have hentry : e.post.peers[key]? = e.call.onEntry key (some info) := by
    rw [post_of_scorerStep hs, apply_entry, hinfo]
  constructor
  · -- either of the two leaves no ban
    rintro hpost (⟨amount, hcall, hhigh⟩ | ⟨now, staleSeconds, info', hcall, hinfo', hstale⟩)
    · obtain ⟨info', hinfo', hyes'⟩ := isBanned_eq_true.mp hpost
      rw [hcall, ScorerCall.onEntry, if_pos rfl, hinfo'] at hentry
      obtain rfl : info' = PeerInfo.reward amount info := Option.some.inj hentry
      rw [getScore_of_entry hinfo', reward_score] at hhigh
      rw [reward_banned, Bool.and_eq_true, decide_eq_true_eq] at hyes'
      exact Int.not_le.mpr hhigh hyes'.2
    · obtain rfl : info = info' := Option.some.inj (hinfo.symm.trans hinfo')
      obtain ⟨last, hlast, -⟩ := isBanned_eq_true.mp hpost
      rw [hcall, onEntry_evictStalePeers, if_pos hstale, hlast] at hentry
      cases hentry
  · intro hneither
    -- an entry goes only with `evictStalePeers`
    cases hpost : e.call.onEntry key (some info) with
    | none =>
      obtain ⟨now, staleSeconds, hcall, hstale⟩ := evicted_of_none hpost
      exact absurd (.inr ⟨now, staleSeconds, info, hcall, hinfo, hstale⟩) hneither
    | some info' =>
      rw [hpost] at hentry
      refine isBanned_eq_true.mpr ⟨info', hentry, ?_⟩
      rcases onEntry_cases hpost with ⟨hnone, -⟩ | ⟨_, hsame, hcases⟩
      · cases hnone
      cases hsame
      rcases hcases with ⟨-, -, hbanned', -⟩ | ⟨amount, hcall, rfl⟩ | ⟨penalty, -, rfl⟩
      · rw [hbanned', hyes]
      · -- a reward that leaves the score low
        have hlow : ¬ banThreshold + 20 < e.post.getScore key :=
          fun hhigh => hneither (.inl ⟨amount, hcall, hhigh⟩)
        rw [getScore_of_entry hentry, reward_score] at hlow
        rw [reward_banned, hyes, Bool.true_and, decide_eq_true (Int.not_lt.mp hlow)]
      · rw [penalize_banned, hyes, Bool.true_or]

/-- **What ends a ban.** Whoever is banned stays banned, unless a reward brings
the score above 20 or the entry is removed because the endpoint was not seen. -/
theorem ban_lasts {ps ps' : PeerScorer} {tr : List ScorerEntry} {key : String}
    (h : ScorerRun ps tr ps') (hbanned : ps.isBanned key = true)
    (hkept : ∀ e ∈ tr, ¬ WorkedOff key e ∧ ¬ Forgotten key e) : ps'.isBanned key = true := by
  have hrun := Run.history_of (J := fun _ ps => ps.isBanned key = true)
    (C := fun _ e => ¬ WorkedOff key e ∧ ¬ Forgotten key e) hbanned
    (fun _ _ hJ hC hs => (banned_step hs hJ).mpr (not_or.mpr hC)) h
    fun before e after heq => hkept e (by simp [heq])
  exact hrun.1

/-- A banned peer that nobody rewards is evicted after five minutes, and is in
good standing when it is registered again. -/
theorem ban_lasts_counterexample :
    ∃ tr ps tr' ps', ScorerRun {} tr ps ∧ ps.isBanned "10.0.0.2:9001" = true ∧
      ScorerRun ps tr' ps' ∧ (∀ e ∈ tr', ∀ key amount, e.call ≠ .rewardPeer key amount) ∧
      ps'.isBanned "10.0.0.2:9001" = false ∧ ps'.getScore "10.0.0.2:9001" = initialScore := by
  obtain ⟨tr, ps, hrun, hcheck⟩ := Run.exists_of_exec scorerStep blamedPeer {}
    -- the stale entry is evicted and comes back as a new peer
    (fun r => decide (r.2.isBanned "10.0.0.2:9001" = true ∧ (exec scorerStep
      [.evictStalePeers (301 * 1000000000) 300, .addPeer (302 * 1000000000) "10.0.0.2" 9001]
      r.2).any (fun r' => decide (r'.2.isBanned "10.0.0.2:9001" = false ∧
        r'.2.getScore "10.0.0.2:9001" = initialScore)) = true)) (by decide +kernel)
  obtain ⟨hbanned, hexec⟩ := of_decide_eq_true hcheck
  obtain ⟨tr', ps', hrun', hcalls, hcheck'⟩ := Run.exists_of_exec_map _ _ _ _ hexec
  obtain ⟨hpardoned, hscore⟩ := of_decide_eq_true hcheck'
  refine ⟨tr, ps, tr', ps', hrun, hbanned, hrun', fun e he key amount hcall => ?_, hpardoned,
    hscore⟩
  have hmem := hcalls ▸ List.mem_map_of_mem he
  rw [hcall] at hmem
  simp at hmem

/-- A penalty, a ping, an eviction in time and a small reward. -/
theorem ban_lasts_small_reward :
    ∃ tr ps tr' ps', ScorerRun {} tr ps ∧ ps.isBanned "10.0.0.2:9001" = true ∧
      ScorerRun ps tr' ps' ∧ tr'.length = 4 ∧ ps'.isBanned "10.0.0.2:9001" = true := by
  obtain ⟨tr, ps, hrun, hcheck⟩ := Run.exists_of_exec scorerStep blamedPeer {}
    (fun r => decide (r.2.isBanned "10.0.0.2:9001" = true ∧ (exec scorerStep
      [.penalizePeer "10.0.0.2:9001" penaltyInvalidTx, .markPingSent 100 "10.0.0.2:9001",
        .evictStalePeers 200 300, .rewardPeer "10.0.0.2:9001" 20] r.2).any (fun r' =>
          decide (r'.1.length = 4 ∧ (∀ e ∈ r'.1, e.post.getScore "10.0.0.2:9001" ≤ 20) ∧
            ∀ e ∈ r'.1, e.post.peers.contains "10.0.0.2:9001" = true)) = true))
    (by decide +kernel)
  obtain ⟨hbanned, hexec⟩ := of_decide_eq_true hcheck
  obtain ⟨tr', ps', hrun', hcheck'⟩ := Run.exists_of_exec _ _ _ _ hexec
  obtain ⟨hlength, hlow, hthere⟩ := of_decide_eq_true hcheck'
  refine ⟨tr, ps, tr', ps', hrun, hbanned, hrun', hlength,
    ban_lasts hrun' hbanned fun e he => ⟨?_, ?_⟩⟩
  -- no reward reaches the score of a pardon, and the entry stays
  · rintro ⟨amount, -, hhigh⟩
    exact Int.not_lt.mpr (hlow e he) hhigh
  · rintro ⟨now, staleSeconds, info, hcall, hinfo, hstale⟩
    have hcontains := hthere e he
    rw [ExtTreeMap.contains_eq_isSome_getElem?, post_of_scorerStep (hrun'.entry e he).1,
      apply_entry, hcall, hinfo, onEntry_evictStalePeers, if_pos hstale] at hcontains
    cases hcontains

end PersonalBlockchain
