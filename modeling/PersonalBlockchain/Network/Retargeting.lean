import PersonalBlockchain.Network.NextDifficulty

/-!
# Personal blockchain — retargeting and the speed of the chain

A faster chain is retargeted to a difficulty that is no lower: the two divisions, the
clamp to the largest factor, the product, the rounding to a whole number and the clamp
to the bounds are all monotone, and so is the rounding of each operation, be it exact
or that of a `double`. Two things break the chain of monotone steps. A window that
took no time has no ratio, and by design keeps the difficulty, as one would that took
exactly the expected time. And the rounded difficulty is cast to 32 bits before it is
clamped.

## Results

* `newDiffExactIn_anti`, `retargetIn_anti` — a longer window is given the lower
  difficulty, as long as the cast does not wrap;
* `newDiffExactIn_fits` — with the usual parameters it does not;
* `retarget_monotone` — of two chains at a retarget height, the one whose window
  took the shorter time, but some, is given a difficulty at least that of the other;
* `retarget_monotone_counterexample` — a window of no time against one of a second.
-/

namespace PersonalBlockchain

namespace DifficultyAdjuster

/-! ## The steps of a retarget -/

/-- A longer window has the smaller ratio, and so the smaller difficulty: each
of the four operations keeps the order, and so does each rounding. -/
theorem newDiffExactIn_anti (R : Rounding) (adj : DifficultyAdjuster) {s₁ s₂ : Int}
    (hpos : 0 < s₁) (hle : s₁ ≤ s₂) (current : UInt32) :
    adj.newDiffExactIn R s₂ current ≤ adj.newDiffExactIn R s₁ current := by
  have hexpected :
      0 ≤ R.round ((adj.windowSize.toNat * adj.targetBlockTimeSec.toNat : Int) : ℚ) :=
    R.nonneg (by exact_mod_cast Nat.zero_le _)
  have hratio := R.div_anti hexpected (s := s₁) (t := s₂) (by exact_mod_cast hpos)
    (by exact_mod_cast hle)
  have hclamped := max_le_max_left (R.round (1 / adj.maxAdjustmentFactor.val))
    (min_le_min_left adj.maxAdjustmentFactor.val hratio)
  exact R.mono (mul_le_mul_of_nonneg_left hclamped (Nat.cast_nonneg _))

theorem stdRound_mono {q r : ℚ} (h : q ≤ r) : stdRound q ≤ stdRound r := by
  unfold stdRound
  split_ifs with hq hr hr
  · exact Int.floor_le_floor (by linarith)
  · exact absurd (hq.trans h) hr
  · -- a negative number rounds to at most 0
    have hfloor : 0 ≤ ⌊-q + 1 / 2⌋ := Int.floor_nonneg.mpr (by linarith)
    have hfloor' : 0 ≤ ⌊r + 1 / 2⌋ := Int.floor_nonneg.mpr (by linarith)
    linarith
  · have hfloor : ⌊-r + 1 / 2⌋ ≤ ⌊-q + 1 / 2⌋ := Int.floor_le_floor (by linarith)
    linarith

/-- The cast to 32 bits keeps the order below a number that fits. -/
theorem cast_mono {m n : Int} (hle : m ≤ n) (hfits : n < 2 ^ 32) :
    UInt32.ofNat m.toNat ≤ UInt32.ofNat n.toNat := by
  have hn : n.toNat < UInt32.size := by
    show n.toNat < 4294967296
    omega
  have hm : m.toNat < UInt32.size := (Int.toNat_le_toNat hle).trans_lt hn
  rw [UInt32.le_iff_toNat_le, UInt32.toNat_ofNat_of_lt' hm, UInt32.toNat_ofNat_of_lt' hn]
  exact Int.toNat_le_toNat hle

theorem clamp_mono {m M d d' : UInt32} (h : d ≤ d') : max m (min M d) ≤ max m (min M d') := by
  show (if m ≤ (if M ≤ d then M else d) then (if M ≤ d then M else d) else m) ≤
    (if m ≤ (if M ≤ d' then M else d') then (if M ≤ d' then M else d') else m)
  simp only [UInt32.le_iff_toNat_le] at *
  split_ifs <;> omega

/-- A longer window is given a difficulty that is no higher, when the shorter
one's fits into 32 bits. -/
theorem retargetIn_anti (R : Rounding) {adj : DifficultyAdjuster} {s₁ s₂ : Int}
    {current : UInt32} (hpos : 0 < s₁) (hle : s₁ ≤ s₂)
    (hfits : stdRound (adj.newDiffExactIn R s₁ current) < 2 ^ 32) :
    adj.retargetIn R s₂ current ≤ adj.retargetIn R s₁ current := by
  have hrounded := stdRound_mono (adj.newDiffExactIn_anti R hpos hle current)
  exact clamp_mono (cast_mono hrounded hfits)

/-- With a factor of at least 1 and a small enough ceiling, what is cast fits:
the product is at most the ceiling times the factor, also after its rounding. -/
theorem newDiffExactIn_fits (R : Rounding) {adj : DifficultyAdjuster} {current : UInt32}
    (hfactor : 1 ≤ adj.maxAdjustmentFactor.val)
    (hceiling : adj.maxDifficulty.toNat * adj.maxAdjustmentFactor.val ≤ 2 ^ 32 - 1)
    (hcurrent : current ≤ adj.maxDifficulty) (span : Int) :
    stdRound (adj.newDiffExactIn R span current) < 2 ^ 32 := by
  -- the inverse of the factor is rounded to at most 1, and so to at most the factor
  have hinverse : R.round (1 / adj.maxAdjustmentFactor.val) ≤ adj.maxAdjustmentFactor.val :=
    calc R.round (1 / adj.maxAdjustmentFactor.val) ≤ R.round 1 :=
          R.mono ((div_le_one (by linarith)).mpr hfactor)
      _ = 1 := R.one
      _ ≤ adj.maxAdjustmentFactor.val := hfactor
  have hclamped : ∀ ratio : ℚ, max (R.round (1 / adj.maxAdjustmentFactor.val))
      (min adj.maxAdjustmentFactor.val ratio) ≤ adj.maxAdjustmentFactor.val :=
    fun _ => max_le hinverse (min_le_left _ _)
  have hpositive : 0 ≤ R.round (1 / adj.maxAdjustmentFactor.val) :=
    R.nonneg (div_nonneg zero_le_one (by linarith))
  have hcast : (current.toNat : ℚ) ≤ adj.maxDifficulty.toNat := by
    exact_mod_cast UInt32.le_iff_toNat_le.mp hcurrent
  have hexact : adj.newDiffExactIn R span current ≤ 2 ^ 32 - 1 := by
    have hproduct : ∀ ratio : ℚ, current.toNat * max (R.round (1 / adj.maxAdjustmentFactor.val))
        (min adj.maxAdjustmentFactor.val ratio) ≤ (2 ^ 32 - 1 : Nat) := fun ratio => by
      refine (mul_le_mul hcast (hclamped ratio) (le_max_of_le_left hpositive)
        (Nat.cast_nonneg _)).trans (hceiling.trans ?_)
      norm_num
    refine (R.mono (hproduct _)).trans ?_
    rw [R.natCast _ (by decide)]
    norm_num
  -- rounding to a whole number keeps the bound
  have hround : stdRound (adj.newDiffExactIn R span current) ≤ stdRound (2 ^ 32 - 1 : ℚ) :=
    stdRound_mono hexact
  have hwhole : stdRound (2 ^ 32 - 1 : ℚ) = 2 ^ 32 - 1 := by
    norm_num [stdRound, Int.floor_eq_iff]
  omega

/-! ## Retarget heights -/

/-- A chain at a retarget height ends a full window. -/
theorem full_of_shouldRetarget {adj : DifficultyAdjuster} {chainLength : Nat}
    (h : adj.shouldRetarget chainLength = true) : (adj.windowSize + 1).toNat ≤ chainLength := by
  unfold shouldRetarget at h
  split_ifs at h with hshort
  have hdvd : adj.windowSize.toNat ∣ chainLength - 1 := Nat.dvd_of_mod_eq_zero (by simpa using h)
  have hle := Nat.le_of_dvd (by omega) hdvd
  rw [UInt32.toNat_add]
  refine (Nat.mod_le _ _).trans ?_
  show adj.windowSize.toNat + 1 ≤ chainLength
  omega

/-- At a retarget height the span of the window decides. -/
theorem retargets_iff {adj : DifficultyAdjuster} {chain : List Block}
    (h : adj.shouldRetarget chain.length = true) :
    adj.Retargets chain ↔ 0 < adj.windowSpan chain :=
  ⟨fun hr => hr.2.2, fun hspan => ⟨full_of_shouldRetarget h, h, hspan⟩⟩

end DifficultyAdjuster

open DifficultyAdjuster

/-- **Retargeting is monotone in speed**, in exact arithmetic (`Rounding.exact`), in
the doubles of the source (`Rounding.binary64`) and in any other arithmetic that rounds
in order. Take two chains of one length at a retarget height and a difficulty within the
bounds, and let the window of the first be no longer than that of the second. If it took
some time and what is cast to 32 bits fits there, the first chain is given a difficulty
at least that of the second; if it took none, the difficulty stays. What either is given
lies within the bounds. -/
theorem retarget_monotone (R : Rounding) {adj : DifficultyAdjuster} {fast slow : List Block}
    {current : UInt32} (hlength : fast.length = slow.length)
    (hheight : adj.shouldRetarget fast.length = true)
    (hcurrent : adj.minDifficulty ≤ current ∧ current ≤ adj.maxDifficulty)
    (hspan : 0 ≤ adj.windowSpan fast ∧ adj.windowSpan fast ≤ adj.windowSpan slow) :
    (0 < adj.windowSpan fast →
      stdRound (adj.newDiffExactIn R (adj.windowSpan fast) current) < 2 ^ 32 →
      adj.calculateNextDifficultyIn R slow current ≤
        adj.calculateNextDifficultyIn R fast current) ∧
    (adj.windowSpan fast = 0 → adj.calculateNextDifficultyIn R fast current = current) ∧
    ∀ chain ∈ [fast, slow], adj.minDifficulty ≤ adj.calculateNextDifficultyIn R chain current ∧
      adj.calculateNextDifficultyIn R chain current ≤ adj.maxDifficulty := by
  refine ⟨?_, ?_, ?_⟩
  -- both windows retarget, and the slower one by the smaller factor
  · intro hpos hfits
    rw [calculateNextDifficultyIn_of_retargets R ((retargets_iff hheight).mpr hpos),
      calculateNextDifficultyIn_of_retargets R
        ((retargets_iff (hlength ▸ hheight)).mpr (hpos.trans_le hspan.2))]
    exact retargetIn_anti R hpos hspan.2 hfits
  -- a span of zero never retargets
  · intro hzero
    refine calculateNextDifficultyIn_of_not_retargets R (fun hr => ?_) current
    have hpos := hr.2.2
    omega
  · intro chain _
    have hbounds : adj.minDifficulty ≤ adj.maxDifficulty := UInt32.le_trans hcurrent.1 hcurrent.2
    exact calculateNextDifficultyIn_bounds R ⟨UInt32.le_refl _, hbounds⟩ (UInt32.le_refl _)
      hcurrent

/-- Eleven blocks of one window, the last of them at `time` and the others at
the start of the year. -/
def paced (time : String) : List Block :=
  List.replicate 10 { timestamp := "2026-01-01T00:00:00Z" } ++ [{ timestamp := time }]

/-- A window of 25 seconds against one of 100, in exact arithmetic and in doubles. -/
theorem retarget_monotone_sample :
    (calculateNextDifficultyIn .exact {} (paced "2026-01-01T00:01:40Z") 2 ≤
      calculateNextDifficultyIn .exact {} (paced "2026-01-01T00:00:25Z") 2) ∧
    calculateNextDifficulty {} (paced "2026-01-01T00:01:40Z") 2 ≤
      calculateNextDifficulty {} (paced "2026-01-01T00:00:25Z") 2 :=
  have hfits (R : Rounding) (span : Int) :
      stdRound (DifficultyAdjuster.newDiffExactIn R {} span 2) < 2 ^ 32 :=
    newDiffExactIn_fits R (by decide +kernel) (by decide +kernel) (by decide) span
  ⟨(retarget_monotone .exact (by decide) (by decide) (by decide) (by decide +kernel)).1
      (by decide +kernel) (hfits .exact _),
    (retarget_monotone .binary64 (by decide) (by decide) (by decide) (by decide +kernel)).1
      (by decide +kernel) (hfits .binary64 _)⟩

/-- The same block with its timestamp taken out. -/
def Block.untimed (b : Block) : Block := { b with timestamp := "" }

/-- The faster of two chains that differ in timestamps only is never given the lower
difficulty. -/
def FasterNeverLower (R : Rounding) : Prop :=
  ∀ (adj : DifficultyAdjuster) (fast slow : List Block) (current : UInt32),
    fast.map Block.untimed = slow.map Block.untimed →
    adj.shouldRetarget fast.length = true →
    adj.minDifficulty ≤ current ∧ current ≤ adj.maxDifficulty →
    0 ≤ adj.windowSpan fast ∧ adj.windowSpan fast ≤ adj.windowSpan slow →
    adj.calculateNextDifficultyIn R slow current ≤ adj.calculateNextDifficultyIn R fast current

/-- A window of no time keeps difficulty 1, one of a second is retargeted to 4:
the faster chain is given the lower difficulty, in either arithmetic. -/
theorem retarget_monotone_counterexample :
    ¬ FasterNeverLower .exact ∧ ¬ FasterNeverLower .binary64 := by
  refine ⟨fun h => ?_, fun h => ?_⟩
  all_goals
    have hle := h {} (paced "2026-01-01T00:00:00Z") (paced "2026-01-01T00:00:01Z") 1 (by decide)
      (by decide) (by decide) (by decide +kernel)
    revert hle
    decide +kernel

end PersonalBlockchain
