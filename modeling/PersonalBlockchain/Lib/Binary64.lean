import Mathlib.Algebra.Order.Round
import Mathlib.Data.Int.Log
import Mathlib.Data.Rat.Floor
import Mathlib.Tactic.Positivity
import Mathlib.Tactic.NormNum

/-!
# Arithmetic in double precision

A `double` is a rational number whose significand has 53 bits, and an operation
on doubles is the operation on rationals followed by a rounding to the nearest
double, ties going to the even significand. Exponents are unbounded here: there
are no infinities, no subnormal numbers and no NaN, so what is said is said of
computations that stay within the normal range.

* `round_mono` — rounding keeps the order, also from one binade to the next;
* `round_round` — what was rounded once is a double;
* `round_natCast` — whole numbers up to 2⁵³ are doubles;
* `Rounding` — what an argument about an order needs to know of an arithmetic,
  with its two instances, exact rationals and doubles.
-/

namespace Binary64

/-! ## The nearest whole number -/

/-- The whole number nearest to `q`, the even one where two are equally near:
the rounding mode in which a processor computes unless told otherwise. -/
def roundEven (q : ℚ) : Int :=
  if Int.fract q < 1 / 2 then ⌊q⌋
  else if 1 / 2 < Int.fract q then ⌊q⌋ + 1
  else if ⌊q⌋ % 2 = 0 then ⌊q⌋
  else ⌊q⌋ + 1

theorem floor_le_roundEven (q : ℚ) : ⌊q⌋ ≤ roundEven q := by
  unfold roundEven
  split_ifs <;> omega

theorem roundEven_le_floor_add_one (q : ℚ) : roundEven q ≤ ⌊q⌋ + 1 := by
  unfold roundEven
  split_ifs <;> omega

@[simp]
theorem roundEven_intCast (n : Int) : roundEven n = n := by
  simp [roundEven]

/-- Between two whole numbers the upper one is taken from the middle on, or from
right behind it; a number below another in the same interval is never rounded
higher, and numbers of different intervals round to their own ends at most. -/
theorem roundEven_mono {q r : ℚ} (h : q ≤ r) : roundEven q ≤ roundEven r := by
  -- in different intervals a whole number stands between them; in the same one
  -- the fractional parts decide
  rcases (Int.floor_le_floor h).lt_or_eq with hlt | heq
  · calc roundEven q ≤ ⌊q⌋ + 1 := roundEven_le_floor_add_one q
      _ ≤ ⌊r⌋ := hlt
      _ ≤ roundEven r := floor_le_roundEven r
  · have hfract : Int.fract q ≤ Int.fract r := by
      rw [Int.fract, Int.fract, heq]
      linarith
    unfold roundEven
    rw [heq]
    split_ifs <;> first | omega | linarith

/-- Rounding to even treats both signs alike. -/
theorem roundEven_neg (q : ℚ) : roundEven (-q) = -roundEven q := by
  by_cases hwhole : Int.fract q = 0
  · obtain ⟨n, rfl⟩ := Int.fract_eq_zero_iff.mp hwhole
    rw [← Int.cast_neg, roundEven_intCast, roundEven_intCast]
  -- below zero the fraction is counted from the other side
  · have hfract : Int.fract (-q) = 1 - Int.fract q := Int.fract_neg hwhole
    have hfloor : ⌊-q⌋ = -⌊q⌋ - 1 := by
      have hq := Int.floor_add_fract q
      have hneg := Int.floor_add_fract (-q)
      have hcast : ((⌊-q⌋ : Int) : ℚ) = ((-⌊q⌋ - 1 : Int) : ℚ) := by
        push_cast
        linarith
      exact_mod_cast hcast
    unfold roundEven
    rw [hfract, hfloor]
    split_ifs <;> first | omega | linarith

/-! ## Rounding to 53 bits -/

/-- The exponent of the last place of the doubles around `q`: a significand of
53 bits begins at the leading bit of `q`. -/
def exponent (q : ℚ) : Int := Int.log 2 |q| - 52

/-- The distance of neighbouring doubles around `q`, the unit in the last place.
-/
def ulp (q : ℚ) : ℚ := 2 ^ exponent q

/-- The double nearest to `q`: as many units in the last place as come nearest. -/
def round (q : ℚ) : ℚ := roundEven (q / ulp q) * ulp q

theorem ulp_pos (q : ℚ) : 0 < ulp q := zpow_pos (by norm_num) _

theorem ulp_neg (q : ℚ) : ulp (-q) = ulp q := by
  rw [ulp, ulp, exponent, exponent, abs_neg]

theorem round_neg (q : ℚ) : round (-q) = -round q := by
  rw [round, round, ulp_neg, neg_div, roundEven_neg]
  push_cast
  ring

/-- A whole number of units in the last place is left alone. -/
theorem round_of_quotient {q : ℚ} {n : Int} (h : q / ulp q = n) : round q = q := by
  rw [round, h, roundEven_intCast, ← h, div_mul_cancel₀ _ (ulp_pos q).ne']

/-- With fewer than 54 bits before it, the last place of `m * 2 ^ e` is at `e`
or below, so that `m` fits into the significand. -/
theorem exponent_le {m : Int} (hne : m ≠ 0) (hm : |m| < 2 ^ 53) (e : Int) :
    exponent (m * 2 ^ e) ≤ e := by
  have hpos : (0 : ℚ) < |(m : ℚ) * 2 ^ e| :=
    abs_pos.mpr (mul_ne_zero (by exact_mod_cast hne) (zpow_ne_zero _ (by norm_num)))
  have hlt : |(m : ℚ) * 2 ^ e| < (2 : Nat) ^ (53 + e) := by
    rw [abs_mul, abs_of_pos (zpow_pos (by norm_num : (0 : ℚ) < 2) e), Nat.cast_ofNat,
      zpow_add₀ (by norm_num)]
    refine mul_lt_mul_of_pos_right ?_ (zpow_pos (by norm_num) e)
    exact_mod_cast hm
  have hlog := (Int.lt_zpow_iff_log_lt (by decide) hpos).mp hlt
  unfold exponent
  omega

/-- Significands below 2⁵³ are exact, whatever the exponent. -/
theorem round_of_lt {m : Int} (hm : |m| < 2 ^ 53) (e : Int) :
    round (m * 2 ^ e) = m * 2 ^ e := by
  rcases eq_or_ne m 0 with rfl | hne
  · exact round_of_quotient (n := 0) (by simp)
  obtain ⟨k, hk⟩ := Int.le.dest (exponent_le hne hm e)
  -- the significand is shifted to where the last place stands
  refine round_of_quotient (n := m * 2 ^ k) ?_
  rw [div_eq_iff (ulp_pos _).ne', ulp]
  push_cast
  rw [mul_assoc, ← zpow_natCast, ← zpow_add₀ (by norm_num : (2 : ℚ) ≠ 0), Int.add_comm, hk]

/-- **Significands of up to 53 bits are exact**, and so is the 2⁵³ that rounding up
can end in. -/
theorem round_of_le {m : Int} (hm : |m| ≤ 2 ^ 53) (e : Int) :
    round (m * 2 ^ e) = m * 2 ^ e := by
  rcases hm.lt_or_eq with hlt | heq
  · exact round_of_lt hlt e
  · -- half of it, one place higher up
    obtain ⟨n, rfl, hn⟩ : ∃ n : Int, m = n * 2 ∧ |n| < 2 ^ 53 := by
      rcases abs_eq (by norm_num) |>.mp heq with rfl | rfl
      · exact ⟨2 ^ 52, by norm_num, by norm_num⟩
      · exact ⟨-2 ^ 52, by norm_num, by norm_num⟩
    have hshift : ((n * 2 : Int) : ℚ) * 2 ^ e = n * 2 ^ (1 + e) := by
      rw [zpow_add₀ (by norm_num)]
      push_cast
      ring
    rw [hshift]
    exact round_of_lt hn (1 + e)

/-- Whole numbers up to 2⁵³ are doubles. The counters and times that a program
turns into doubles are below that bound. -/
theorem round_natCast {n : Nat} (hn : n ≤ 2 ^ 53) : round n = n := by
  have h := round_of_le (m := n) (by rw [Nat.abs_cast]; exact_mod_cast hn) 0
  simpa using h

/-! ## Order -/

/-- A positive number stands within the binade of its exponent. -/
theorem quotient_bounds {q : ℚ} (hq : 0 < q) : 2 ^ 52 ≤ q / ulp q ∧ q / ulp q < 2 ^ 53 := by
  have hlow := Int.zpow_log_le_self (b := 2) (by decide) hq
  have hhigh := Int.lt_zpow_succ_log_self (b := 2) (by decide) q
  have hlog : Int.log 2 q = 52 + exponent q := by
    rw [exponent, abs_of_pos hq]
    omega
  rw [Nat.cast_ofNat, hlog] at hlow hhigh
  rw [le_div_iff₀ (ulp_pos q), div_lt_iff₀ (ulp_pos q), ulp]
  constructor
  · rwa [zpow_add₀ (by norm_num)] at hlow
  · rwa [show 52 + exponent q + 1 = 53 + exponent q by omega, zpow_add₀ (by norm_num)] at hhigh

/-- Rounding a positive number stays within its binade, the next power of two
included. -/
theorem roundEven_quotient_bounds {q : ℚ} (hq : 0 < q) :
    2 ^ 52 ≤ roundEven (q / ulp q) ∧ roundEven (q / ulp q) ≤ 2 ^ 53 := by
  obtain ⟨hlow, hhigh⟩ := quotient_bounds hq
  have hlow' := roundEven_mono (show ((2 ^ 52 : Int) : ℚ) ≤ q / ulp q by exact_mod_cast hlow)
  have hhigh' := roundEven_mono (show q / ulp q ≤ ((2 ^ 53 : Int) : ℚ) by exact_mod_cast hhigh.le)
  rw [roundEven_intCast] at hlow' hhigh'
  exact ⟨hlow', hhigh'⟩

/-- What is positive is not rounded to zero: there are no subnormal numbers
here. -/
theorem round_pos {q : ℚ} (hq : 0 < q) : 0 < round q := by
  refine mul_pos ?_ (ulp_pos q)
  have hlow := (roundEven_quotient_bounds hq).1
  have hcast : (0 : Int) < roundEven (q / ulp q) := by omega
  exact_mod_cast hcast

theorem round_zero : round 0 = 0 := by
  simpa using round_natCast (n := 0) (by decide)

/-- Positive numbers keep their order: within one binade the unit in the last place
is the same, and a power of two separates two binades. -/
theorem round_le_round_of_pos {q r : ℚ} (hq : 0 < q) (h : q ≤ r) : round q ≤ round r := by
  have hr := hq.trans_le h
  have hexponent : exponent q ≤ exponent r := by
    have hlog := Int.log_mono_right (b := 2) hq h
    rw [exponent, exponent, abs_of_pos hq, abs_of_pos hr]
    omega
  rcases hexponent.lt_or_eq with hlt | heq
  -- the power of two between the exponents stands between the two roundings
  · have hpow : (2 : ℚ) ^ 53 * ulp q ≤ 2 ^ 52 * ulp r := by
      have hle : (2 : ℚ) ^ (1 + exponent q) ≤ 2 ^ exponent r :=
        zpow_le_zpow_right₀ (by norm_num) (by omega)
      rw [zpow_add₀ (by norm_num)] at hle
      rw [ulp, ulp]
      linarith
    calc round q ≤ 2 ^ 53 * ulp q := by
          refine mul_le_mul_of_nonneg_right ?_ (ulp_pos q).le
          exact_mod_cast (roundEven_quotient_bounds hq).2
      _ ≤ 2 ^ 52 * ulp r := hpow
      _ ≤ round r := by
          refine mul_le_mul_of_nonneg_right ?_ (ulp_pos r).le
          exact_mod_cast (roundEven_quotient_bounds hr).1
  -- of one exponent, both are counted in the same unit
  · have hulp : ulp q = ulp r := by rw [ulp, ulp, heq]
    rw [round, round, hulp]
    refine mul_le_mul_of_nonneg_right ?_ (ulp_pos r).le
    exact_mod_cast roundEven_mono (div_le_div_of_nonneg_right h (ulp_pos r).le)

/-- **Rounding keeps the order.** Two results computed in double precision are
never in the opposite order of the exact ones, though they may be equal where
those differ. -/
theorem round_mono : Monotone round := by
  intro q r h
  rcases lt_trichotomy q 0 with hq | rfl | hq
  · rcases lt_trichotomy r 0 with hr | rfl | hr
    · -- two negative numbers, reflected
      have hneg := round_le_round_of_pos (neg_pos.mpr hr) (neg_le_neg h)
      rw [round_neg, round_neg] at hneg
      exact neg_le_neg_iff.mp hneg
    all_goals
      have hneg := round_pos (neg_pos.mpr hq)
      rw [round_neg] at hneg
    · rw [round_zero]
      linarith
    · have hpos := round_pos hr
      linarith
  · rcases h.eq_or_lt with rfl | hr
    · exact le_rfl
    · rw [round_zero]
      exact (round_pos hr).le
  · exact round_le_round_of_pos hq h

/-- **What was rounded once is a double**: rounding again changes nothing. The
significand may have been rounded up to 2⁵³, the next power of two. -/
theorem round_round (q : ℚ) : round (round q) = round q := by
  suffices h : |roundEven (q / ulp q)| ≤ 2 ^ 53 from round_of_le h _
  rcases lt_trichotomy q 0 with hq | rfl | hq
  · have hbounds := roundEven_quotient_bounds (neg_pos.mpr hq)
    rw [ulp_neg, neg_div, roundEven_neg] at hbounds
    rw [abs_le]
    omega
  · simp [roundEven]
  · have hbounds := roundEven_quotient_bounds hq
    rw [abs_le]
    omega

/-! ## Doubles -/

/-- A finite `double`: a rational that rounding leaves alone. A value that needs
more than 53 bits cannot be built. -/
structure Double where
  val : ℚ
  rounded : round val = val

namespace Double

/-- The double nearest to a rational, as a literal in the source is read. -/
def ofRat (q : ℚ) : Double := ⟨round q, round_round q⟩

instance (n : Nat) : OfNat Double n := ⟨ofRat n⟩

end Double

end Binary64

/-! ## Arithmetics that keep the order

An argument about which of two results is the larger needs little of the arithmetic
they are computed in: that it rounds in order, and that it does not round small
whole numbers. -/

/-- How the result of an operation on rationals is rounded: in order, and
leaving whole numbers up to 2⁵³ alone. -/
structure Rounding where
  round : ℚ → ℚ
  mono : Monotone round
  natCast : ∀ n : Nat, n ≤ 2 ^ 53 → round n = n

namespace Rounding

/-- Exact rationals, rounded not at all. -/
def exact : Rounding := ⟨id, monotone_id, fun _ _ => rfl⟩

/-- Double precision, by `round_mono` and `round_natCast`. -/
def binary64 : Rounding where
  round := Binary64.round
  mono := Binary64.round_mono
  natCast _ h := Binary64.round_natCast h

variable (R : Rounding)

theorem zero : R.round 0 = 0 := by simpa using R.natCast 0 (by decide)

theorem one : R.round 1 = 1 := by simpa using R.natCast 1 (by decide)

theorem nonneg {q : ℚ} (h : 0 ≤ q) : 0 ≤ R.round q := R.zero ▸ R.mono h

/-- What is at least 1 is not rounded to 0. -/
theorem pos_of_one_le {q : ℚ} (h : 1 ≤ q) : 0 < R.round q :=
  zero_lt_one.trans_le (R.one ▸ R.mono h)

/-- **A quotient falls as its divisor grows**, with the divisor and the quotient
both rounded: the order survives both roundings, strictness need not. -/
theorem div_anti {a s t : ℚ} (ha : 0 ≤ a) (hs : 1 ≤ s) (h : s ≤ t) :
    R.round (a / R.round t) ≤ R.round (a / R.round s) :=
  R.mono (div_le_div_of_nonneg_left ha (R.pos_of_one_le hs) (R.mono h))

end Rounding
