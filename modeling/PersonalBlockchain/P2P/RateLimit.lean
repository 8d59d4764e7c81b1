import PersonalBlockchain.Lib.Machine
import PersonalBlockchain.Lib.SlidingWindow
import PersonalBlockchain.P2P.Peer

/-!
# Personal blockchain — the rate limiter

`isRateLimited` reads the clock under `rateMutex_`, so that the calls of several
threads come one after the other with times in order. Each call counts, a limited
one too. What is kept are the times of the last second; their number is compared
as an `int`, and 2147483648 of them are a negative number.

## Results

* `KeepsRecent.step` — a call keeps what a later call can still count;
* `rate_limit_window` — after every call of every run the times kept are those of the
  last second, and the answer compares their number as an `int`; below 2³¹ that is
  their number;
* `rate_limit_counterexample` — so many calls at once that nobody is limited.
-/

namespace PersonalBlockchain

open Machine SlidingWindow

/-- A call of `isRateLimited`, with the time it reads. -/
structure RateCall where
  now : Instant
  maxPerSecond : Int32

/-- One call. -/
def rateStep (call : RateCall) (p : Peer) : Option (Bool × Peer) :=
  some (p.isRateLimited call.now call.maxPerSecond)

/-- A call in a run. -/
abbrev RateEntry := Entry Peer RateCall Bool

/-- A run of the limiter of a connection. -/
abbrev RateRun (p : Peer) (tr : List RateEntry) (q : Peer) : Prop := Run rateStep p tr q

/-- When the calls were made. -/
def callTimes (tr : List RateEntry) : List Instant := tr.map fun e => e.call.now

/-- The calls made in the second that ends with `t`. -/
def callsIn (tr : List RateEntry) (t : Instant) : List Instant :=
  within (t - 1000000000) t (callTimes tr)

/-- After a call, with it among the calls made: the times kept are those of the
last second, in order, and the call is limited when their number, as an `int`, is
more than it allows. Short of 2147483648 calls that is their number. -/
structure SlidesExactly (tr : List RateEntry) (e : RateEntry) : Prop where
  times : e.post.messageTimes = callsIn tr e.call.now
  sorted : e.post.messageTimes.Pairwise (· ≤ ·)
  compared : e.ret = true ↔
    e.call.maxPerSecond < Int32.ofNat (callsIn tr e.call.now).length
  limited : (callsIn tr e.call.now).length < 2 ^ 31 →
    (e.ret = true ↔ e.call.maxPerSecond.toInt < (callsIn tr e.call.now).length)

variable {p q : Peer} {tr : List RateEntry} {e : RateEntry}

theorem callTimes_snoc : callTimes (tr ++ [e]) = callTimes tr ++ [e.call.now] := by
  simp [callTimes]

theorem rateStep_eq_some {call : RateCall} {limited : Bool} :
    rateStep call p = some (limited, q) ↔
      decide (call.maxPerSecond < Int32.ofNat (p.recentTimes call.now).length) = limited ∧
        { p with messageTimes := p.recentTimes call.now } = q := by
  rw [rateStep, Option.some.injEq, Peer.isRateLimited, Prod.mk.injEq]

/-- What the limiter has of the calls that were made: each that a later call can
still count. -/
structure KeepsRecent (tr : List RateEntry) (p : Peer) : Prop where
  sub : p.messageTimes.Sublist (callTimes tr)
  recent : ∀ now, (∀ t ∈ callTimes tr, t ≤ now) →
    since (now - 1000000000) p.messageTimes = since (now - 1000000000) (callTimes tr)

/-- A call keeps what is recent for it. -/
theorem recentTimes_eq (h : KeepsRecent tr p) {now : Instant}
    (hclock : (callTimes tr ++ [now]).Pairwise (· ≤ ·)) :
    p.recentTimes now = since (now - 1000000000) (callTimes tr ++ [now]) := by
  obtain ⟨-, -, hlast⟩ := List.pairwise_append.mp hclock
  exact slide (h.recent now fun t ht => hlast t ht now (List.mem_singleton_self now))
    (hclock.sublist (h.sub.append_right [now]))

/-- The calls of the last second are those that are kept, while times are in
order. -/
theorem callsIn_eq {now : Instant} (hclock : (callTimes tr ++ [now]).Pairwise (· ≤ ·))
    (hnow : e.call.now = now) :
    callsIn (tr ++ [e]) now = since (now - 1000000000) (callTimes tr ++ [now]) := by
  obtain ⟨-, -, hlast⟩ := List.pairwise_append.mp hclock
  rw [callsIn, callTimes_snoc, hnow]
  refine within_eq_since fun t ht => ?_
  rcases List.mem_append.mp ht with ht | ht
  · exact hlast t ht now (List.mem_singleton_self now)
  · exact (List.mem_singleton.mp ht).le

/-- **What one call keeps**: everything that a later call can still count, since
times never come later than the call that reads them. -/
theorem KeepsRecent.step (h : KeepsRecent tr e.pre)
    (hclock : (callTimes (tr ++ [e])).Pairwise (· ≤ ·))
    (hstep : rateStep e.call e.pre = some (e.ret, e.post)) : KeepsRecent (tr ++ [e]) e.post := by
  rw [callTimes_snoc] at hclock
  have hpost : e.post.messageTimes =
      since (e.call.now - 1000000000) (callTimes tr ++ [e.call.now]) := by
    rw [← (rateStep_eq_some.mp hstep).2, recentTimes_eq h hclock]
  refine ⟨?_, fun now hnow => ?_⟩
  · rw [hpost, callTimes_snoc]
    exact since_sublist
  · -- a later call looks no further back than this one
    have hlater : e.call.now ≤ now := hnow _ (by simp [callTimes_snoc])
    rw [hpost, callTimes_snoc]
    exact since_since (Int.sub_le_sub_right hlater _)

/-- **What one call answers.** -/
theorem KeepsRecent.answers (h : KeepsRecent tr e.pre)
    (hclock : (callTimes (tr ++ [e])).Pairwise (· ≤ ·))
    (hstep : rateStep e.call e.pre = some (e.ret, e.post)) : SlidesExactly (tr ++ [e]) e := by
  obtain ⟨hret, hpost⟩ := rateStep_eq_some.mp hstep
  rw [callTimes_snoc] at hclock
  -- on a clock that never runs back, dropping the old ones from the front drops them all
  have hcalls : e.pre.recentTimes e.call.now = callsIn (tr ++ [e]) e.call.now := by
    rw [recentTimes_eq h hclock, callsIn_eq hclock rfl]
  have htimes : e.post.messageTimes = callsIn (tr ++ [e]) e.call.now := by
    rw [← hpost]
    exact hcalls
  have hcompared : e.ret = true ↔
      e.call.maxPerSecond < Int32.ofNat (callsIn (tr ++ [e]) e.call.now).length := by
    rw [← hret, hcalls, decide_eq_true_eq]
  refine ⟨htimes, ?_, hcompared, fun hfew => ?_⟩
  · -- what is kept is a part of the calls, which are in order
    rw [htimes, callsIn_eq hclock rfl]
    exact hclock.sublist since_sublist
  · -- the cast keeps the number
    rw [hcompared, Int32.lt_iff_toInt_lt, Int32.toInt_ofNat_of_lt hfew]

theorem keepsRecent_run (hnew : p.messageTimes = []) (h : RateRun p tr q)
    (hclock : (callTimes tr).Pairwise (· ≤ ·)) :
    KeepsRecent tr q ∧
      Along (fun before e => rateStep e.call e.pre = some (e.ret, e.post) ∧
        KeepsRecent before e.pre) tr := by
  have hempty : KeepsRecent [] p :=
    ⟨by rw [hnew]; exact List.nil_sublist _, fun now _ => by rw [hnew]; rfl⟩
  -- the clock of a part of the run does not go back either
  refine Run.history_of (C := fun before e => (callTimes (before ++ [e])).Pairwise (· ≤ ·)) hempty
    (fun _ _ hJ hC hs => hJ.step hC hs) h fun before e after heq => ?_
  rw [heq] at hclock
  exact hclock.sublist (by simp [callTimes])

/-- **The rate limiter is a sliding window**, of a connection that was just made
and for a clock that does not go back: after every call of every run the times
kept are exactly those of the calls of the last second, in order, and the call
is limited exactly when their number, as an `int`, is above the limit. That is
the number itself below 2³¹. -/
theorem rate_limit_window (hnew : p.messageTimes = []) (h : RateRun p tr q)
    (hclock : (callTimes tr).Pairwise (· ≤ ·)) :
    Along (fun before e => SlidesExactly (before ++ [e]) e) tr := by
  intro before e after heq
  obtain ⟨hs, hkeeps⟩ := (keepsRecent_run hnew h hclock).2 before e after heq
  refine hkeeps.answers ?_ hs
  rw [heq] at hclock
  exact hclock.sublist (by simp [callTimes])

/-! ## 2147483648 calls at once -/

section Sample

/-- A connection that was just made. -/
def newPeer : Peer where
  remote := some ("10.0.0.2", 40000)

/-- The call `handleMessage` makes, at the start of the clock. -/
def callAtOnce : RateCall where
  now := 0
  maxPerSecond := 100

/-- Any number of calls while the clock stands still. -/
theorem exists_burst (n : Nat) :
    ∃ tr q, RateRun newPeer tr q ∧ callTimes tr = List.replicate n 0 := by
  induction n with
  | zero => exact ⟨[], newPeer, Run.nil, rfl⟩
  | succ n ih =>
    obtain ⟨tr, q, hrun, htimes⟩ := ih
    refine ⟨_, _, hrun.snoc (a := callAtOnce) rfl, ?_⟩
    rw [callTimes_snoc, htimes, List.replicate_succ']
    rfl

theorem sorted_replicate (n : Nat) : (List.replicate n (0 : Instant)).Pairwise (· ≤ ·) :=
  List.pairwise_replicate.mpr (.inr le_rfl)

theorem since_replicate (n : Nat) :
    since (0 - 1000000000) (List.replicate n (0 : Instant)) = List.replicate n 0 := by
  refine since_eq_self fun t ht => ?_
  rw [List.eq_of_mem_replicate ht]
  decide

/-- All of them are in the last second. -/
theorem callsIn_burst {n : Nat} (h : callTimes tr = List.replicate n 0) :
    callsIn tr 0 = List.replicate n 0 := by
  rw [callsIn, h, within_eq_since, since_replicate]
  exact fun t ht => (List.eq_of_mem_replicate ht).le

/-- What the last of them is answered. -/
theorem exists_last_of_burst (n : Nat) :
    ∃ (tr : List RateEntry) (e : RateEntry), RateRun newPeer (tr ++ [e]) e.post ∧
      callTimes (tr ++ [e]) = List.replicate (n + 1) 0 ∧ e.call = callAtOnce ∧
      e.ret = decide ((100 : Int32) < Int32.ofNat (n + 1)) := by
  obtain ⟨tr, q, hrun, htimes⟩ := exists_burst n
  have hkeeps : KeepsRecent tr q :=
    (keepsRecent_run rfl hrun (htimes ▸ sorted_replicate n)).1
  have hall : callTimes tr ++ [0] = List.replicate (n + 1) 0 := by
    rw [htimes, List.replicate_succ']
  have hrecent : q.recentTimes 0 = List.replicate (n + 1) 0 := by
    rw [recentTimes_eq hkeeps (hall ▸ sorted_replicate _), hall, since_replicate]
  refine ⟨tr, _, hrun.snoc (a := callAtOnce) rfl, callTimes_snoc.trans hall, rfl, ?_⟩
  show decide ((100 : Int32) < Int32.ofNat (q.recentTimes 0).length) = _
  rw [hrecent, List.length_replicate]

end Sample

/-- The last of 2147483648 calls is not limited: as an `int`, their number is
less than any limit. -/
theorem rate_limit_counterexample :
    ¬ ∀ (p : Peer) (tr : List RateEntry) (q : Peer), p.messageTimes = [] → RateRun p tr q →
      (callTimes tr).Pairwise (· ≤ ·) →
        Along (fun before e => e.ret = true ↔
          e.call.maxPerSecond.toInt < (callsIn (before ++ [e]) e.call.now).length) tr := by
  intro h
  obtain ⟨tr, e, hrun, htimes, hcall, hret⟩ := exists_last_of_burst (2 ^ 31 - 1)
  have hclaim : e.ret = true ↔
      e.call.maxPerSecond.toInt < (callsIn (tr ++ [e]) e.call.now).length :=
    h newPeer (tr ++ [e]) e.post rfl hrun (htimes ▸ sorted_replicate _) tr e [] rfl
  rw [hret, hcall, show callAtOnce.now = 0 from rfl, callsIn_burst htimes,
    List.length_replicate] at hclaim
  exact absurd (hclaim.mpr (by decide)) (by decide)

/-- Two calls at once, the second of them over a limit of 1. -/
theorem rate_limit_window_two :
    ∃ (tr : List RateEntry) (q : Peer), RateRun newPeer tr q ∧ tr.map Entry.ret = [false, true] ∧
      Along (fun before e => SlidesExactly (before ++ [e]) e) tr := by
  obtain ⟨tr, q, hrun, hcheck⟩ := Run.exists_of_exec rateStep [⟨0, 1⟩, ⟨0, 1⟩] newPeer
    (fun r => r.1.map Entry.ret = [false, true] ∧ callTimes r.1 = [0, 0]) (by decide)
  obtain ⟨hrets, htimes⟩ := of_decide_eq_true hcheck
  exact ⟨tr, q, hrun, hrets, rate_limit_window rfl hrun (htimes ▸ by decide)⟩

end PersonalBlockchain
