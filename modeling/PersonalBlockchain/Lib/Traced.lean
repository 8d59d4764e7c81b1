import PersonalBlockchain.Lib.AdjacentPairs

/-!
# Checks that leave a trace

A check of several parts stops at the first part that fails. When the parts do
something besides answering (they allocate, they log), what was done depends on
where the check stopped. `Traced` is the answer together with the trace.

* `passed_andThen` / `mem_trace_andThen` — two parts;
* `passed_allPairs` / `mem_trace_allPairs` — the loop over adjacent pairs, whose
  trace is that of the elements it got to.
-/

/-- The answer of a check and what it did until the answer was found. -/
structure Traced (ε : Type*) where
  passed : Bool
  trace : List ε

namespace Traced

variable {ε α : Type*}

/-- An answer that nothing was done for. -/
def verdict (passed : Bool) : Traced ε := ⟨passed, []⟩

/-- One part and, when it passes, another: when it fails, the other one does
nothing. -/
def andThen (first second : Traced ε) : Traced ε :=
  if first.passed then ⟨second.passed, first.trace ++ second.trace⟩ else first

/-- The loop of `AdjacentPairs.allPairs`, with what each comparison did. -/
def allPairs (check : Nat → α → α → Traced ε) : Nat → α → List α → Traced ε
  | _, _, [] => verdict true
  | i, prev, x :: rest => (check i prev x).andThen (allPairs check (i + 1) x rest)

@[simp] theorem passed_verdict (passed : Bool) : (verdict passed : Traced ε).passed = passed := rfl

@[simp] theorem trace_verdict (passed : Bool) : (verdict passed : Traced ε).trace = [] := rfl

@[simp] theorem passed_andThen (first second : Traced ε) :
    (first.andThen second).passed = (first.passed && second.passed) := by
  unfold andThen
  cases h : first.passed <;> simp [h]

/-- What was done in the first part, and in the second if it was reached. -/
@[simp] theorem mem_trace_andThen {first second : Traced ε} {e : ε} :
    e ∈ (first.andThen second).trace ↔
      e ∈ first.trace ∨ first.passed = true ∧ e ∈ second.trace := by
  unfold andThen
  cases h : first.passed <;> simp

variable {check : Nat → α → α → Traced ε}

/-- The answer of the loop is that of the loop without traces. -/
theorem passed_allPairs (i : Nat) (prev : α) (rest : List α) :
    (allPairs check i prev rest).passed =
      AdjacentPairs.allPairs (fun i x y => (check i x y).passed) i prev rest := by
  induction rest generalizing i prev with
  | nil => rfl
  | cons y rest ih => rw [allPairs, passed_andThen, ih, AdjacentPairs.allPairs_cons]

/-- What is in the trace was done for an element that the loop got to: those
before it had all passed. -/
theorem mem_trace_allPairs {i : Nat} {prev : α} {rest : List α} {e : ε} :
    e ∈ (allPairs check i prev rest).trace ↔
      ∃ before y after, rest = before ++ y :: after ∧
        AdjacentPairs.allPairs (fun i x y => (check i x y).passed) i prev before = true ∧
        e ∈ (check (i + before.length)
          ((prev :: before).getLast (List.cons_ne_nil _ _)) y).trace := by
  induction rest generalizing i prev with
  | nil => simp [allPairs]
  | cons x rest ih =>
    rw [allPairs, mem_trace_andThen, ih]
    constructor
    · rintro (h | ⟨hpassed, before, y, after, rfl, hbefore, h⟩)
      · exact ⟨[], x, rest, rfl, rfl, h⟩
      · refine ⟨x :: before, y, after, rfl, ?_, ?_⟩
        · rw [AdjacentPairs.allPairs_cons, hpassed, hbefore]
          rfl
        · rwa [List.length_cons, List.getLast_cons (List.cons_ne_nil _ _),
            Nat.add_comm before.length, ← Nat.add_assoc]
    · rintro ⟨before, y, after, hrest, hbefore, h⟩
      -- the first element, or one behind it
      cases before with
      | nil =>
        obtain ⟨rfl, rfl⟩ := List.cons.inj hrest
        exact Or.inl h
      | cons z before =>
        obtain ⟨rfl, rfl⟩ := List.cons.inj hrest
        rw [AdjacentPairs.allPairs_cons, Bool.and_eq_true] at hbefore
        refine Or.inr ⟨hbefore.1, before, y, after, rfl, hbefore.2, ?_⟩
        rwa [List.length_cons, List.getLast_cons (List.cons_ne_nil _ _),
          Nat.add_comm before.length, ← Nat.add_assoc] at h

end Traced
