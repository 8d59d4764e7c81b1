import Mathlib.Data.List.Nodup
import Mathlib.Tactic.Common

/-!
# Lists that gather

A list to which members are added at the end, each once and some never: one that
is barred, or that is there already, is passed over. What is in the list stays
where it is.

* `mem_add`, `mem_addAll` — what is in the list afterwards;
* `prefix_addAll` — the list only grows at its end;
* `Gathered` — no member twice and none barred, kept by adding more;
* `mem_eraseReps` — what `eraseReps` leaves.
-/

namespace Gathering

variable {α : Type*} [DecidableEq α] {barred : α → Bool} {known as bs : List α} {a : α}

/-- One more, unless it is barred or there already. -/
def add (barred : α → Bool) (known : List α) (a : α) : List α :=
  if barred a ∨ a ∈ known then known else known ++ [a]

/-- Some more, one after the other; one that comes twice is added the first
time. -/
def addAll (barred : α → Bool) (known as : List α) : List α := as.foldl (add barred) known

@[simp] theorem addAll_nil : addAll barred known [] = known := rfl

@[simp] theorem addAll_cons :
    addAll barred known (a :: as) = addAll barred (add barred known a) as := rfl

theorem addAll_append :
    addAll barred known (as ++ bs) = addAll barred (addAll barred known as) bs :=
  List.foldl_append

/-- In the list afterwards: what was in it, and the one added if it is not
barred. -/
theorem mem_add {b : α} : b ∈ add barred known a ↔ b ∈ known ∨ b = a ∧ barred a = false := by
  unfold add
  split
  next h =>
    refine ⟨.inl, ?_⟩
    rintro (hb | ⟨rfl, hfree⟩)
    · exact hb
    · exact h.resolve_left (by simp [hfree])
  next h => simp [(not_or.mp h).1]

/-- In the list afterwards: what was in it, and those of the added ones that are
not barred. -/
theorem mem_addAll : a ∈ addAll barred known as ↔ a ∈ known ∨ a ∈ as ∧ barred a = false := by
  induction as generalizing known with
  | nil => simp
  | cons b as ih =>
    -- the first of them, and the rest added to the list that has it
    rw [addAll_cons, ih, mem_add]
    constructor
    · rintro ((h | ⟨rfl, hfree⟩) | ⟨h, hfree⟩)
      · exact .inl h
      · exact .inr ⟨List.mem_cons_self, hfree⟩
      · exact .inr ⟨List.mem_cons_of_mem _ h, hfree⟩
    · rintro (h | ⟨h, hfree⟩)
      · exact .inl (.inl h)
      · rcases List.mem_cons.mp h with rfl | h
        · exact .inl (.inr ⟨rfl, hfree⟩)
        · exact .inr ⟨h, hfree⟩

/-- One more leaves the list as it is, or goes behind it. -/
theorem prefix_add : known <+: add barred known a := by
  unfold add
  split
  · exact List.prefix_rfl
  · exact List.prefix_append _ _

/-- What was gathered stays where it is, and the new members come behind it. -/
theorem prefix_addAll : known <+: addAll barred known as := by
  induction as generalizing known with
  | nil => exact List.prefix_rfl
  | cons b as ih => exact prefix_add.trans ih

/-- What can be gathered: each once, and nothing barred. The empty list is so,
and stays so whatever is added. -/
structure Gathered (barred : α → Bool) (known : List α) : Prop where
  nodup : known.Nodup
  free : ∀ a ∈ known, barred a = false

omit [DecidableEq α] in
theorem Gathered.nil : Gathered barred [] := ⟨List.nodup_nil, fun _ h => absurd h List.not_mem_nil⟩

/-- One more keeps a list gathered: what is barred or there already is passed
over. -/
theorem Gathered.add (h : Gathered barred known) : Gathered barred (add barred known a) := by
  unfold Gathering.add
  split
  · exact h
  next hnew =>
    obtain ⟨hfree, hmem⟩ := not_or.mp hnew
    refine ⟨h.nodup.append (List.nodup_singleton a) (by simpa using hmem), fun b hb => ?_⟩
    rcases List.mem_append.mp hb with hb | hb
    · exact h.free b hb
    · rw [List.mem_singleton.mp hb]
      exact Bool.eq_false_iff.mpr hfree

theorem Gathered.addAll (h : Gathered barred known) : Gathered barred (addAll barred known as) := by
  induction as generalizing known with
  | nil => exact h
  | cons b as ih => exact ih h.add

/-! ## Repetitions -/

/-- The loop of `eraseReps` gives what it has collected, the last of them and
what comes: only a repetition of its neighbour is left out. -/
theorem mem_eraseRepsBy_loop {a b : α} {as rs : List α} :
    b ∈ List.eraseRepsBy.loop (fun x y => x == y) a as rs ↔ b ∈ rs ∨ b = a ∨ b ∈ as := by
  induction as generalizing a rs with
  | nil => simp [List.eraseRepsBy.loop, or_comm]
  | cons c as ih =>
    rw [List.eraseRepsBy.loop]
    cases hrep : a == c with
    | true =>
      obtain rfl := eq_of_beq hrep
      simp [ih]
    | false => simp [ih, or_assoc, or_left_comm]

/-- Only what repeats its neighbour goes, so each element is still there once. -/
theorem mem_eraseReps {a : α} {as : List α} : a ∈ as.eraseReps ↔ a ∈ as := by
  cases as with
  | nil => rfl
  | cons b as =>
    show a ∈ List.eraseRepsBy.loop (fun x y => x == y) b as [] ↔ _
    simp [mem_eraseRepsBy_loop]

end Gathering
