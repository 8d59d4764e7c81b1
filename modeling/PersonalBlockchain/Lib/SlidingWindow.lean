import Mathlib.Order.Lattice
import Mathlib.Tactic.Common

/-!
# Sliding windows of times

A queue of times that drops from its front what is before a bound. When the
times come in order and the bound only moves forward, the queue holds all of
the times from the bound on, whatever was dropped on the way.

* `dropWhile_eq_since` — on a sorted list, dropping from the front is filtering;
* `since_since` — a later bound forgets the earlier one;
* `slide` — one more time, and the next bound.
-/

namespace SlidingWindow

variable {τ : Type*} [LinearOrder τ] {c c' hi t : τ} {times queue : List τ}

/-- The times from `c` on. -/
def since (c : τ) (times : List τ) : List τ := times.filter fun t => c ≤ t

/-- The times from `lo` to `hi`, both included. -/
def within (lo hi : τ) (times : List τ) : List τ := times.filter fun t => lo ≤ t ∧ t ≤ hi

theorem since_append (c : τ) (times times' : List τ) :
    since c (times ++ times') = since c times ++ since c times' :=
  List.filter_append _ _

theorem since_sublist : (since c times).Sublist times := List.filter_sublist

/-- Nothing is left out when all times are late enough. -/
theorem since_eq_self (h : ∀ t ∈ times, c ≤ t) : since c times = times :=
  List.filter_eq_self.mpr fun t ht => decide_eq_true (h t ht)

/-- A later bound forgets the earlier one. -/
theorem since_since (h : c ≤ c') : since c' (since c times) = since c' times := by
  rw [since, since, List.filter_filter, since]
  refine List.filter_congr fun t _ => ?_
  rw [← Bool.decide_and, decide_eq_decide]
  exact and_iff_left_of_imp h.trans

/-- Up to the last of the times, a window has no other end. -/
theorem within_eq_since (h : ∀ t ∈ times, t ≤ hi) : within c hi times = since c times := by
  refine List.filter_congr fun t ht => ?_
  rw [decide_eq_decide]
  exact and_iff_left (h t ht)

/-- On a sorted list, dropping from the front is filtering: behind the first
time that stays all are at least as late. -/
theorem dropWhile_eq_since (h : times.Pairwise (· ≤ ·)) :
    (times.dropWhile fun t => t < c) = since c times := by
  induction times with
  | nil => rfl
  | cons t times ih =>
    obtain ⟨hhead, hrest⟩ := List.pairwise_cons.mp h
    by_cases ht : t < c
    · have hgone : since c (t :: times) = since c times :=
        List.filter_cons_of_neg (by simpa using ht)
      rw [List.dropWhile_cons, if_pos (decide_eq_true ht), ih hrest, hgone]
    · -- all that follow are as late
      have hall : ∀ s ∈ t :: times, c ≤ s := by
        intro s hs
        rcases List.mem_cons.mp hs with rfl | hs
        · exact not_lt.mp ht
        · exact (not_lt.mp ht).trans (hhead s hs)
      rw [List.dropWhile_cons, if_neg (by simpa using ht), since_eq_self hall]

/-- **A window slides.** A queue that has the times from `c` on, and perhaps
earlier ones, takes one more and drops what is before `c`: it then has exactly
the times from `c` on, the new one included. -/
theorem slide (hqueue : since c queue = since c times)
    (hsorted : (queue ++ [t]).Pairwise (· ≤ ·)) :
    ((queue ++ [t]).dropWhile fun s => s < c) = since c (times ++ [t]) := by
  rw [dropWhile_eq_since hsorted, since_append, hqueue, since_append]

end SlidingWindow
