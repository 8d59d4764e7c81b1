import Mathlib.Data.List.Basic
import Mathlib.Tactic.Common

/-!
# Queues served in portions

A queue gets new members at its end, and is served at its front, some members at
a time; others may leave it from anywhere. `Ahead a n queue` says that `a` waits
in it with fewer than `n` ahead. Nothing that happens to the queue puts more
ahead of `a`, and each full portion takes as many away.
-/

namespace Portions

variable {α : Type*} {a : α} {n m k : Nat} {queue : List α}

/-- `a` is in the queue, and fewer than `n` are ahead of it. -/
def Ahead (a : α) (n : Nat) (queue : List α) : Prop :=
  ∃ front back, queue = front ++ a :: back ∧ front.length < n

theorem Ahead.mem (h : Ahead a n queue) : a ∈ queue := by
  obtain ⟨front, back, rfl, -⟩ := h
  simp

/-- With fewer than `n` ahead there are fewer than any larger number. -/
theorem Ahead.mono (h : Ahead a n queue) (hle : n ≤ m) : Ahead a m queue := by
  obtain ⟨front, back, heq, hlt⟩ := h
  exact ⟨front, back, heq, Nat.lt_of_lt_of_le hlt hle⟩

theorem Ahead.pos (h : Ahead a n queue) : 0 < n := by
  obtain ⟨front, -, -, hlt⟩ := h
  omega

/-- New members come after those that wait, so nobody new is ahead. -/
theorem Ahead.append (h : Ahead a n queue) (more : List α) : Ahead a n (queue ++ more) := by
  obtain ⟨front, back, rfl, hlt⟩ := h
  exact ⟨front, back ++ more, by simp, hlt⟩

/-- Others leave the queue, from anywhere in it, and nobody is overtaken. -/
theorem Ahead.filter (h : Ahead a n queue) {p : α → Bool} (hp : p a = true) :
    Ahead a n (queue.filter p) := by
  obtain ⟨front, back, rfl, hlt⟩ := h
  refine ⟨front.filter p, back.filter p, by simp [hp], ?_⟩
  exact Nat.lt_of_le_of_lt (List.length_filter_le p front) hlt

/-- **A portion is served.** It has `a` in it, or takes `k` of those ahead of
`a` away: after as many full portions as it takes, `a` is served. -/
theorem Ahead.serve (h : Ahead a n queue) (k : Nat) :
    a ∈ queue.take k ∨ Ahead a (n - k) (queue.drop k) := by
  obtain ⟨front, back, rfl, hlt⟩ := h
  by_cases hk : k ≤ front.length
  · -- all of the portion is ahead of `a`
    refine .inr ⟨front.drop k, back, List.drop_append_of_le_length hk, ?_⟩
    rw [List.length_drop]
    omega
  · left
    rw [List.take_append, List.take_of_length_le (by omega)]
    obtain ⟨j, hj⟩ : ∃ j, k - front.length = j + 1 := ⟨k - front.length - 1, by omega⟩
    rw [hj, List.take_succ_cons]
    simp

end Portions
