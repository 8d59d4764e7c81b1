import Mathlib.Data.List.Basic
import Mathlib.Tactic.Common

/-!
# Checks over the adjacent pairs of a list

A list is often checked by a loop that compares each element with the one
before it and with its position. `allPairs p i prev rest` is that loop for the
elements `rest` that follow `prev`, the first of them at position `i`.

* `allPairs_append` / `allPairs_append_singleton` — checking a list in parts;
* `allPairs_getElem` — a fact the check gives about every element;
* `allPairs_imp` — a weaker check.
-/

namespace AdjacentPairs

variable {α : Type*}

/-- `p i x y` for every element `y` of `rest` at position `i` and the element
`x` before it. -/
def allPairs (p : Nat → α → α → Bool) : Nat → α → List α → Bool
  | _, _, [] => true
  | i, prev, x :: rest => p i prev x && allPairs p (i + 1) x rest

variable {p q : Nat → α → α → Bool}

@[simp] theorem allPairs_nil (i : Nat) (prev : α) : allPairs p i prev [] = true := rfl

/-- One pair, and the rest of the list at the next position. -/
@[simp] theorem allPairs_cons (i : Nat) (prev x : α) (rest : List α) :
    allPairs p i prev (x :: rest) = (p i prev x && allPairs p (i + 1) x rest) := rfl

/-- A check in two parts: the second starts after the last element of the first,
at the position where that part ended. -/
theorem allPairs_append (i : Nat) (prev : α) (l r : List α) :
    allPairs p i prev (l ++ r) =
      (allPairs p i prev l &&
        allPairs p (i + l.length) ((prev :: l).getLast (List.cons_ne_nil _ _)) r) := by
  induction l generalizing i prev with
  | nil => simp
  | cons y l ih =>
    have hposition : i + 1 + l.length = i + (y :: l).length := by
      rw [List.length_cons]
      omega
    rw [List.cons_append, allPairs_cons, allPairs_cons, ih, Bool.and_assoc, hposition,
      List.getLast_cons (List.cons_ne_nil y l)]

/-- One element more is compared with the last element before it. -/
theorem allPairs_append_singleton (i : Nat) (prev x : α) (rest : List α) :
    allPairs p i prev (rest ++ [x]) =
      (allPairs p i prev rest &&
        p (i + rest.length) ((prev :: rest).getLast (List.cons_ne_nil _ _)) x) := by
  rw [allPairs_append, allPairs_cons, allPairs_nil, Bool.and_true]

/-- A passing check may be weakened pair by pair. -/
theorem allPairs_imp (h : ∀ i x y, p i x y = true → q i x y = true) {i : Nat} {prev : α}
    {rest : List α} (hp : allPairs p i prev rest = true) : allPairs q i prev rest = true := by
  induction rest generalizing i prev with
  | nil => rfl
  | cons y rest ih =>
    rw [allPairs_cons, Bool.and_eq_true] at hp ⊢
    exact ⟨h _ _ _ hp.1, ih hp.2⟩

/-- What a passing check says about every element, with its position: it passed
against some element before it. -/
theorem allPairs_getElem {i : Nat} {prev : α} {rest : List α}
    (h : allPairs p i prev rest = true) (k : Nat) (hk : k < rest.length) :
    ∃ x, p (i + k) x rest[k] = true := by
  induction rest generalizing i prev k with
  | nil => simp at hk
  | cons y rest ih =>
    rw [allPairs_cons, Bool.and_eq_true] at h
    -- the first pair is the head's own, the later ones are those of the tail
    cases k with
    | zero => exact ⟨prev, h.1⟩
    | succ k =>
      have hk' : k < rest.length := by simpa using hk
      obtain ⟨x, hx⟩ := ih h.2 k hk'
      have hposition : i + (k + 1) = i + 1 + k := by omega
      rw [hposition]
      exact ⟨x, hx⟩

end AdjacentPairs
