import PersonalBlockchain.P2P.Dialling

/-!
# Personal blockchain — the delay before a reconnect

`retryConnect` computes `base * (1 << retryCount)` as an `int` and takes the
minimum with the greatest delay afterwards. Both come from the configuration,
whose loader takes any `int`, so the product can overflow before it is capped.
The node of `P2P/Handlers.lean` computes with integers of any size;
`dialFailed_delay` says when its delay is that of the source.

## Results

* `loadRetryPolicy_iff` — the loader admits every policy of `int`s and no other;
* `computesBackoff_iff` — one delay is computed exactly when the product is an `int`;
* `backoff_safe_iff` — at each count, and for all counts that a dial reaches, the
  delay is the capped exponential exactly when the greatest product is an `int`;
* `dialFailed_delay` — then the timer of the node has this delay and the jitter.
-/

namespace PersonalBlockchain

open Machine NodeM

/-! ## The configuration -/

/-- The greatest `int`. -/
def intMax : Int := 2147483647

/-- The range of `int`. -/
def IsInt (n : Int) : Prop := -2147483648 ≤ n ∧ n ≤ intMax

instance (n : Int) : Decidable (IsInt n) := inferInstanceAs (Decidable (_ ∧ _))

/-- The part of `loadConfigFile` about the retry policy. Nothing is checked
beyond the types. -/
def loadRetryPolicy (config : Json) (policy : RetryPolicy) : Except JsonError RetryPolicy :=
  match config with
  | .object members =>
    match Json.find members "retry_policy" with
    | some (.object r) => do
      let member := fun key dflt => (Json.object r).value Json.getInt key (Int32.ofInt dflt)
      let maxRetries ← member "max_retries" policy.maxRetries
      let baseDelayMs ← member "base_delay_ms" policy.baseDelayMs
      let maxDelayMs ← member "max_delay_ms" policy.maxDelayMs
      let jitterMs ← member "jitter_ms" policy.jitterMs
      let reconnectCooldownMs ← member "reconnect_cooldown_ms" policy.reconnectCooldownMs
      return {
        maxRetries := maxRetries.toInt
        baseDelayMs := baseDelayMs.toInt
        maxDelayMs := maxDelayMs.toInt
        jitterMs := jitterMs.toInt
        reconnectCooldownMs := reconnectCooldownMs.toInt }
    | _ => .ok policy
  -- the first `j.value` has thrown
  | _ => .error .typeError306

namespace RetryPolicy

/-- All members are `int`s. -/
structure AreInts (policy : RetryPolicy) : Prop where
  maxRetries : IsInt policy.maxRetries
  baseDelayMs : IsInt policy.baseDelayMs
  maxDelayMs : IsInt policy.maxDelayMs
  jitterMs : IsInt policy.jitterMs
  reconnectCooldownMs : IsInt policy.reconnectCooldownMs

end RetryPolicy

theorem isInt_toInt (n : Int32) : IsInt n.toInt :=
  ⟨n.le_toInt, n.toInt_le⟩

/-- A configuration that has the policy and nothing else. -/
def configWith (policy : RetryPolicy) : Json :=
  let member := fun n : Int => Json.numberInteger (Int64.ofInt n)
  .object [("retry_policy", .object [
    ("max_retries", member policy.maxRetries),
    ("base_delay_ms", member policy.baseDelayMs),
    ("max_delay_ms", member policy.maxDelayMs),
    ("jitter_ms", member policy.jitterMs),
    ("reconnect_cooldown_ms", member policy.reconnectCooldownMs)])]

/-- The cuts to 64 and 32 bits leave an `int` as it is. -/
theorem toInt_toInt32_ofInt {n : Int} (h : IsInt n) : (Int64.ofInt n).toInt32.toInt = n := by
  rw [Int64.toInt32_ofInt]
  exact Int32.toInt_ofInt_of_le h.1 (Int.lt_of_le_of_lt h.2 (by decide))

/-- The loader reads back what such a configuration states. -/
theorem loadRetryPolicy_configWith {policy : RetryPolicy} (h : policy.AreInts) :
    loadRetryPolicy (configWith policy) {} = .ok policy := by
  show Except.ok _ = Except.ok policy
  obtain ⟨maxRetries, baseDelayMs, maxDelayMs, jitterMs, reconnectCooldownMs⟩ := policy
  rw [Except.ok.injEq, RetryPolicy.mk.injEq]
  exact ⟨toInt_toInt32_ofInt h.maxRetries, toInt_toInt32_ofInt h.baseDelayMs,
    toInt_toInt32_ofInt h.maxDelayMs, toInt_toInt32_ofInt h.jitterMs,
    toInt_toInt32_ofInt h.reconnectCooldownMs⟩

/-- **What the loader admits**: every policy of `int`s, negative delays and
delays near the end of the range included, and nothing else. -/
theorem loadRetryPolicy_iff {policy : RetryPolicy} :
    (∃ config, loadRetryPolicy config {} = .ok policy) ↔ policy.AreInts := by
  constructor
  · rintro ⟨config, hload⟩
    unfold loadRetryPolicy at hload
    split at hload
    · split at hload
      · -- each member is read as an `int`, or has its default
        obtain ⟨maxRetries, -, hload⟩ := bind_eq_ok.mp hload
        obtain ⟨baseDelayMs, -, hload⟩ := bind_eq_ok.mp hload
        obtain ⟨maxDelayMs, -, hload⟩ := bind_eq_ok.mp hload
        obtain ⟨jitterMs, -, hload⟩ := bind_eq_ok.mp hload
        obtain ⟨reconnectCooldownMs, -, hload⟩ := bind_eq_ok.mp hload
        cases hload
        exact ⟨isInt_toInt _, isInt_toInt _, isInt_toInt _, isInt_toInt _, isInt_toInt _⟩
      · cases hload
        constructor <;> decide
    · cases hload
  · exact fun h => ⟨configWith policy, loadRetryPolicy_configWith h⟩

/-! ## The delay -/

/-- `1 << count`. The shift by 31 gives the sign bit, a longer one is undefined. -/
def shiftOne (count : Nat) : Option Int :=
  if count < 31 then some (2 ^ count)
  else if count = 31 then some (-2147483648)
  else none

/-- A product of `int`s; overflow is undefined. -/
def mulInt (a b : Int) : Option Int := if IsInt (a * b) then some (a * b) else none

namespace RetryPolicy

/-- `std::min(base * (1 << retryCount), maxDelay)`; `none` where the source is
undefined. -/
def backoffMs (policy : RetryPolicy) (retryCount : Nat) : Option Int := do
  let factor ← shiftOne retryCount
  let product ← mulInt policy.baseDelayMs factor
  return min product policy.maxDelayMs

/-- The delay is computed without overflow, and is the capped exponential. -/
def ComputesBackoff (policy : RetryPolicy) (retryCount : Nat) : Prop :=
  policy.backoffMs retryCount = some (min (policy.baseDelayMs * 2 ^ retryCount) policy.maxDelayMs)

variable {policy : RetryPolicy} {retryCount : Nat}

/-- Below the width of an `int` the shift is a power of two. -/
theorem backoffMs_of_lt (h : retryCount < 31) :
    policy.backoffMs retryCount =
      if IsInt (policy.baseDelayMs * 2 ^ retryCount) then
        some (min (policy.baseDelayMs * 2 ^ retryCount) policy.maxDelayMs)
      else none := by
  rw [backoffMs, shiftOne, if_pos h]
  show (mulInt policy.baseDelayMs (2 ^ retryCount)).bind _ = _
  unfold mulInt
  split
  · rfl
  · rfl

/-- **When one delay is computed**: when the product is an `int`. A shift of 31
or more places is never computed, with a base that is at least 1. -/
theorem computesBackoff_iff (hbase : 0 < policy.baseDelayMs) (hmax : 0 < policy.maxDelayMs)
    (retryCount : Nat) :
    policy.ComputesBackoff retryCount ↔ policy.baseDelayMs * 2 ^ retryCount ≤ intMax := by
  have hpos : 0 < policy.baseDelayMs * 2 ^ retryCount := Int.mul_pos hbase (by positivity)
  rw [ComputesBackoff]
  -- the shift is a positive power, the sign bit, or too long for an int
  rcases Nat.lt_trichotomy retryCount 31 with hlt | rfl | hgt
  · -- a positive product can only be too large
    rw [backoffMs_of_lt hlt]
    split
    next hint => exact iff_of_true rfl hint.2
    next hint => exact iff_of_false nofun fun hle => hint ⟨by omega, hle⟩
  · -- the sign bit makes the product negative
    refine iff_of_false (fun h => ?_) (by unfold intMax; omega)
    have hmin : (mulInt policy.baseDelayMs (-2147483648)).bind
        (fun product => some (min product policy.maxDelayMs)) =
          some (min (policy.baseDelayMs * 2 ^ 31) policy.maxDelayMs) := h
    obtain ⟨product, hproduct, hmin⟩ := Option.bind_eq_some_iff.mp hmin
    obtain ⟨-, hproduct⟩ := Option.ite_none_right_eq_some.mp hproduct
    rw [Option.some.injEq] at hproduct hmin
    omega
  · -- the shift is too long
    have hlong : (2 : Int) ^ 32 ≤ 2 ^ retryCount := pow_le_pow_right₀ (by decide) hgt
    have hmul : 1 * (2 : Int) ^ retryCount ≤ policy.baseDelayMs * 2 ^ retryCount :=
      Int.mul_le_mul_of_nonneg_right hbase (by positivity)
    refine iff_of_false (fun h => ?_) (by unfold intMax; omega)
    rw [backoffMs, shiftOne, if_neg (by omega), if_neg (by omega)] at h
    cases h

/-- **When the backoff of a policy is safe**, the base and the greatest delay
being positive. The delay of a count is computed without overflow, and is the
capped exponential, exactly when the base times the power of two is an `int`. So
all delays that the policy can ask for are safe exactly when the one of its last
retry is. -/
theorem backoff_safe_iff (hbase : 0 < policy.baseDelayMs) (hmax : 0 < policy.maxDelayMs) :
    (∀ retryCount : Nat,
      policy.ComputesBackoff retryCount ↔ policy.baseDelayMs * 2 ^ retryCount ≤ intMax) ∧
    ((∀ retryCount : Nat, retryCount < policy.maxRetries → policy.ComputesBackoff retryCount) ↔
      policy.maxRetries ≤ 0 ∨
        policy.baseDelayMs * 2 ^ (policy.maxRetries.toNat - 1) ≤ intMax) := by
  refine ⟨computesBackoff_iff hbase hmax, ?_⟩
  constructor
  · intro h
    rcases lt_or_ge 0 policy.maxRetries with hsome | hnone
    · exact .inr ((computesBackoff_iff hbase hmax _).mp (h _ (by omega)))
    · exact .inl hnone
  · intro h retryCount hcount
    -- the product grows with the count
    rw [computesBackoff_iff hbase hmax]
    have hlast := h.resolve_left (by omega)
    have hpow : (2 : Int) ^ retryCount ≤ 2 ^ (policy.maxRetries.toNat - 1) :=
      pow_le_pow_right₀ (by decide) (by omega)
    exact (Int.mul_le_mul_of_nonneg_left hpow hbase.le).trans hlast

section Sample

/-- A node with another policy. -/
def setupWith (policy : RetryPolicy) : NodeSetup :=
  { setupOf [] with options := { retryPolicy := policy } }

/-- A dial is refused, and repeated after the longest delay. -/
def refusedAgain : List NodeEvent :=
  [.connect (sampleEnv 0) "10.0.0.2" 9001,
    .input (sampleEnv 0) (.dialFailed refused),
    .input (sampleEnv 30) (.retryTimer refused)]

end Sample

/-- A policy that the loader admits, with a count that a dial reaches, and no
delay for it. -/
theorem backoff_safe_counterexample :
    ∃ policy : RetryPolicy,
      loadRetryPolicy
        (.object [("retry_policy", .object [("base_delay_ms", .numberInteger 1073741824)])]) {} =
          .ok policy ∧
      0 < policy.baseDelayMs ∧ 0 < policy.maxDelayMs ∧ 0 ≤ policy.jitterMs ∧
      (∃ tr node, NodeRun (setupWith policy) nodeOfDials tr node ∧
        { refused with retryCount := 1 } ∈ node.dials) ∧
      (1 : Int) < policy.maxRetries ∧ policy.backoffMs 1 = none := by
  refine ⟨{ baseDelayMs := 1073741824 }, rfl, by decide, by decide, by decide, ?_, by decide, rfl⟩
  obtain ⟨tr, node, hrun, hcheck⟩ := Machine.Run.exists_of_exec
    (nodeStep (setupWith { baseDelayMs := 1073741824 })) refusedAgain nodeOfDials
    (fun r => decide ({ refused with retryCount := 1 } ∈ r.2.dials)) (by decide +kernel)
  exact ⟨tr, node, hrun, of_decide_eq_true hcheck⟩

/-- The default policy is safe. -/
theorem backoff_safe_default :
    ({} : RetryPolicy).ComputesBackoff 0 ∧ ({} : RetryPolicy).ComputesBackoff 5 :=
  have hsafe := (backoff_safe_iff (by decide) (by decide)).2.mpr (.inr (by decide))
  ⟨hsafe 0 (by decide), hsafe 5 (by decide)⟩

end RetryPolicy

/-- **What the node of `P2P/Handlers.lean` does**: where the delay is safe, the
timer has it, and the jitter. -/
theorem dialFailed_delay {S : NodeSetup} {env : Env} {dial : Dial} {node : Node} {delayMs : Int}
    (hcount : dial.retryCount < S.options.retryPolicy.maxRetries)
    (hsafe : S.options.retryPolicy.ComputesBackoff dial.retryCount)
    (hdelay : S.options.retryPolicy.backoffMs dial.retryCount = some delayMs) :
    (dialFailed S env dial [] node).2.timers = node.timers ++ [(dial, delayMs + env.jitter)] := by
  obtain rfl := Option.some.inj (hdelay.symm.trans hsafe)
  rw [dialFailed_run, if_neg (Int.not_le.mpr hcount)]
  rfl

end PersonalBlockchain
