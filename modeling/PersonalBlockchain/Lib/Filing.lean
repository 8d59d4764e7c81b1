import Mathlib.Data.List.Count
import PersonalBlockchain.Lib.FiniteMap

/-!
# Filing a list under keys

Two ways to file the items of a list under keys. One appends an item to the
list of each of its keys, as often as the key is among them (`filed`); the other
has a single key for each item and keeps what the last one had (`lastUnder`).

* `filed_eq_filter_iff` — when the items under a key are filed once;
* `lastUnder_own_iff` — when every item finds its own value under its key.
-/

namespace Filing

open Std FiniteMap

variable {α β κ : Type*} [DecidableEq κ]

/-! ## One list for each key -/

section Filed

variable {keys : α → List κ} {xs : List α} {k : κ}

/-- The list of `k` when all of `xs` are filed, each as often as `k` is among
its keys. -/
def filed (keys : α → List κ) (xs : List α) (k : κ) : List α :=
  xs.flatMap fun x => List.replicate ((keys x).count k) x

@[simp] theorem filed_nil : filed keys [] k = [] := rfl

theorem filed_cons (x : α) :
    filed keys (x :: xs) k = List.replicate ((keys x).count k) x ++ filed keys xs k := rfl

theorem mem_filed {x : α} : x ∈ filed keys xs k ↔ x ∈ xs ∧ k ∈ keys x := by
  rw [filed, List.mem_flatMap]
  constructor
  · rintro ⟨y, hy, hx⟩
    obtain ⟨hcount, rfl⟩ := List.mem_replicate.mp hx
    exact ⟨hy, List.count_pos_iff.mp (Nat.pos_of_ne_zero hcount)⟩
  · rintro ⟨hx, hk⟩
    exact ⟨x, hx, List.mem_replicate.mpr ⟨(List.count_pos_iff.mpr hk).ne', rfl⟩⟩

/-- Whatever has the key is filed at least once, so the list is no shorter than
that of the items with the key. -/
theorem length_filter_le_filed :
    (xs.filter fun x => k ∈ keys x).length ≤ (filed keys xs k).length := by
  induction xs with
  | nil => exact Nat.le_refl 0
  | cons x xs ih =>
    rw [filed_cons, List.length_append, List.length_replicate, List.filter_cons]
    split
    next hmem =>
      have hpos := List.count_pos_iff.mpr (of_decide_eq_true hmem)
      rw [List.length_cons]
      omega
    next => exact ih.trans (Nat.le_add_left _ _)

/-- **When the items are filed once**: the list of a key is that of the items
with the key exactly if none of them has the key twice. -/
theorem filed_eq_filter_iff : filed keys xs k = (xs.filter fun x => k ∈ keys x) ↔
    ∀ x ∈ xs, (keys x).count k ≤ 1 := by
  induction xs with
  | nil => simp
  | cons x xs ih =>
    rw [List.forall_mem_cons, ← ih, filed_cons, List.filter_cons]
    have hle := @length_filter_le_filed _ _ _ keys xs k
    split
    next hmem =>
      have hpos := List.count_pos_iff.mpr (of_decide_eq_true hmem)
      constructor
      · intro heq
        -- a second copy of `x` would make the list too long
        have hlength := congrArg List.length heq
        rw [List.length_append, List.length_replicate, List.length_cons] at hlength
        have hone : (keys x).count k = 1 := by omega
        rw [hone] at heq
        exact ⟨hone.le, (List.cons.inj heq).2⟩
      · rintro ⟨hle, heq⟩
        rw [Nat.le_antisymm hle hpos, heq]
        rfl
    next hmem =>
      have hzero : (keys x).count k = 0 :=
        List.count_eq_zero.mpr fun h => hmem (decide_eq_true h)
      rw [hzero, List.replicate_zero, List.nil_append]
      exact (and_iff_right (Nat.zero_le 1)).symm

end Filed

/-! ## The last value under a key -/

section LastUnder

variable {cmp : κ → κ → Ordering} [TransCmp cmp] [LawfulEqCmp cmp] {key : α → κ} {value : α → β}
  {xs : List α} {k : κ}

/-- The map when the values of `xs` are entered one after the other, a later one
taking the place of an earlier one under the same key. -/
def lastUnder (cmp : κ → κ → Ordering) [TransCmp cmp] (key : α → κ) (value : α → β)
    (xs : List α) : ExtTreeMap κ β cmp :=
  xs.foldl (fun entries x => entries.insert (key x) (value x)) ∅

/-- Under a key is the value of the last item that has it. -/
theorem getElem?_lastUnder : (lastUnder cmp key value xs)[k]? =
    ((xs.filter fun x => key x = k).getLast?).map value := by
  induction xs using List.reverseRecOn with
  | nil => exact ExtTreeMap.getElem?_empty
  | append_singleton xs x ih =>
    rw [lastUnder, List.foldl_append] at *
    rw [List.foldl_cons, List.foldl_nil, getElem?_insert_eq, ih, List.filter_append,
      List.filter_singleton]
    -- the item entered last, or one before it
    by_cases hk : key x = k
    · simp [hk]
    · simp [hk]

/-- **When everybody finds the own value**: exactly when items with one key have
one value. -/
theorem lastUnder_own_iff : (∀ x ∈ xs, (lastUnder cmp key value xs)[key x]? = some (value x)) ↔
    ∀ x ∈ xs, ∀ y ∈ xs, key x = key y → value x = value y := by
  constructor
  · intro hown x hx y hy hkey
    have hvalue := hown x hx
    rw [hkey, hown y hy] at hvalue
    exact (Option.some.inj hvalue).symm
  · intro hsame x hx
    rw [getElem?_lastUnder]
    cases hlast : (xs.filter fun y => key y = key x).getLast? with
    | none =>
      -- `x` itself has the key
      have hmem : x ∈ xs.filter fun y => key y = key x :=
        List.mem_filter.mpr ⟨hx, decide_eq_true rfl⟩
      rw [List.getLast?_eq_none_iff.mp hlast] at hmem
      cases hmem
    | some y =>
      obtain ⟨hy, hkey⟩ := List.mem_filter.mp (List.mem_of_getLast? hlast)
      rw [Option.map_some, hsame y hy x hx (of_decide_eq_true hkey)]

end LastUnder

end Filing
