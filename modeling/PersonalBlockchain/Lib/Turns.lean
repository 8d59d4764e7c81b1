import Mathlib.Data.List.Induction
import Mathlib.Tactic.Common

/-!
# Checks at each turn

A list processed in order is often judged element by element, each against
what came before it. `AtEachTurn P l` says that every element `x` of `l`
satisfies `P before x`, where `before` is what precedes `x`.

* `iff_atEachTurn` — the induction rule: a property of lists that one element
  more keeps exactly when that element passes is the check at each turn;
* `atEachTurn_append`, `atEachTurn_filter` — checking a list in two parts, and
  the elements of a list that pass a filter.
-/

namespace Turns

variable {α : Type*} {P Q : List α → α → Prop}

/-- Every element passes `P` against the elements before it. -/
def AtEachTurn (P : List α → α → Prop) (l : List α) : Prop :=
  ∀ before x after, l = before ++ x :: after → P before x

theorem atEachTurn_nil : AtEachTurn P [] := by
  intro before x after h
  cases before <;> cases h

/-- Two lists one after the other: the first on its own, and the second with the
first before it. -/
theorem atEachTurn_append {l l' : List α} :
    AtEachTurn P (l ++ l') ↔ AtEachTurn P l ∧ AtEachTurn (fun before => P (l ++ before)) l' := by
  constructor
  · intro h
    refine ⟨fun before x after hsplit => h before x (after ++ l') (by simp [hsplit]), ?_⟩
    exact fun before x after hsplit => h (l ++ before) x after (by simp [hsplit])
  · rintro ⟨hl, hl'⟩ before x after hsplit
    -- `x` lies in the second part or in the first
    rcases List.append_eq_append_iff.mp hsplit with ⟨mid, rfl, hmid⟩ | ⟨mid, rfl, hmid⟩
    · exact hl' mid x after hmid
    · cases mid with
      | nil => simpa using hl' [] x after hmid.symm
      | cons y mid =>
        obtain ⟨rfl, -⟩ := List.cons_eq_cons.mp (hmid.trans (List.cons_append ..))
        exact hl before x mid rfl

theorem atEachTurn_singleton {x : α} : AtEachTurn P [x] ↔ P [] x := by
  constructor
  · exact fun h => h [] x [] rfl
  · intro h before y after hsplit
    cases before with
    | nil =>
      obtain ⟨rfl, -⟩ := List.cons_eq_cons.mp hsplit
      exact h
    | cons z before => simp at hsplit

/-- The last element is checked against all the others. -/
theorem atEachTurn_snoc {l : List α} {x : α} :
    AtEachTurn P (l ++ [x]) ↔ AtEachTurn P l ∧ P l x := by
  rw [atEachTurn_append, atEachTurn_singleton, List.append_nil]

/-- The elements that pass a filter, each against those before it that pass. -/
theorem atEachTurn_filter {keep : α → Bool} {l : List α} :
    AtEachTurn P (l.filter keep) ↔
      AtEachTurn (fun before x => keep x = true → P (before.filter keep) x) l := by
  induction l using List.reverseRecOn with
  | nil => exact iff_of_true atEachTurn_nil atEachTurn_nil
  | append_singleton l x ih =>
    rw [List.filter_append, atEachTurn_snoc, ← ih]
    cases hkeep : keep x with
    | true => simp [hkeep, atEachTurn_snoc]
    | false => simp [hkeep]

theorem AtEachTurn.imp {l : List α} (himp : ∀ before x, x ∈ l → P before x → Q before x)
    (h : AtEachTurn P l) : AtEachTurn Q l :=
  fun before x after hsplit => himp before x (by simp [hsplit]) (h before x after hsplit)

/-- **Induction rule.** A property of lists that holds of the empty one, and
that one element more keeps exactly when it passes `P` against the elements
before it, is the check at each turn. So a verdict on a whole run of inputs is
one on each of them. -/
theorem iff_atEachTurn {R : List α → Prop} (hnil : R [])
    (hsnoc : ∀ l x, R (l ++ [x]) ↔ R l ∧ P l x) (l : List α) : R l ↔ AtEachTurn P l := by
  induction l using List.reverseRecOn with
  | nil => exact ⟨fun _ => atEachTurn_nil, fun _ => hnil⟩
  | append_singleton l x ih => rw [hsnoc, atEachTurn_snoc, ih]

end Turns
