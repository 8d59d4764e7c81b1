import Mathlib.Data.Finset.Card
import Mathlib.Tactic.Common
import Std.Data.ExtTreeMap
import Std.Data.ExtTreeSet

/-!
# Finite maps by their lookups

What a `Std.ExtTreeMap` holds after an insertion, a removal or a filter, with
keys compared by equality, and how many entries have a value of some kind.

* `getElem?_insert_eq`, `getElem?_erase_eq`, `getElem?_filter_eq` — lookups;
* `countValues_insert`, `countValues_erase_le` — the number of entries with a
  value that satisfies `p`;
* `keys_insert`, `keys_erase`, `card_keys` — a set of keys as a `Finset`;
* `size_le_card` — the size of a set of keys against a bound on its elements.
-/

namespace FiniteMap

open Std

variable {α β : Type*} {cmp : α → α → Ordering} [TransCmp cmp] [LawfulEqCmp cmp]

section Lookup

variable [DecidableEq α] {t : ExtTreeMap α β cmp} {k a : α} {v : β}

/-- What a map holds after an insertion: the new value under its key, and
elsewhere what it held before. -/
theorem getElem?_insert_eq : (t.insert k v)[a]? = if k = a then some v else t[a]? := by
  simp only [ExtTreeMap.getElem?_insert, LawfulEqCmp.compare_eq_iff_eq]

/-- What a map holds after a removal: nothing under the key. -/
theorem getElem?_erase_eq : (t.erase k)[a]? = if k = a then none else t[a]? := by
  simp only [ExtTreeMap.getElem?_erase, LawfulEqCmp.compare_eq_iff_eq]

omit [DecidableEq α] in
theorem getElem?_filter_eq_some {f : α → β → Bool} :
    (t.filter f)[a]? = some v ↔ t[a]? = some v ∧ f a v = true := by
  rw [ExtTreeMap.getElem?_filter', Option.filter_eq_some_iff]

end Lookup

/-! ## Counting values -/

/-- How many entries have a value that satisfies `p`, such as the number of open
connections among the registered ones. -/
def countValues (p : β → Bool) (t : ExtTreeMap α β cmp) : Nat := (t.filter fun _ v => p v).size

section Count

variable [DecidableEq α] {p : β → Bool} {t : ExtTreeMap α β cmp} {k : α} {v : β}

omit [LawfulEqCmp cmp] [DecidableEq α] in
/-- The same count made over the list of entries, as a loop over the map makes
it. -/
theorem length_filter_toList :
    (t.toList.filter fun entry => p entry.2).length = countValues p t := by
  rw [countValues, ← ExtTreeMap.length_toList, ExtTreeMap.toList_filter]

/-- A value that counts adds one, unless its key had one before: it then takes
the place of that one. -/
theorem countValues_insert (hp : p v = true) :
    countValues p (t.insert k v) =
      if t[k]?.any p then countValues p t else countValues p t + 1 := by
  have hfilter : (t.insert k v).filter (fun _ v => p v) = (t.filter fun _ v => p v).insert k v := by
    refine ExtTreeMap.ext_getElem? fun a => ?_
    simp only [ExtTreeMap.getElem?_filter', getElem?_insert_eq]
    split
    · simp [hp]
    · rfl
  -- the count grows when the filtered map did not have the key
  have hcontains : (t.filter fun _ v => p v).contains k = t[k]?.any p := by
    rw [ExtTreeMap.contains_eq_isSome_getElem?, ExtTreeMap.getElem?_filter', Option.isSome_filter]
  rw [countValues, hfilter, ExtTreeMap.size_insert, hcontains]
  rfl

/-- A value that does not count adds nothing, and may hide one that did. -/
theorem countValues_insert_le (hp : p v = false) :
    countValues p (t.insert k v) ≤ countValues p t := by
  -- filtered, the insertion is a removal
  have hfilter : (t.insert k v).filter (fun _ v => p v) = (t.filter fun _ v => p v).erase k := by
    refine ExtTreeMap.ext_getElem? fun a => ?_
    simp only [ExtTreeMap.getElem?_filter', getElem?_insert_eq, getElem?_erase_eq]
    split
    · simp [hp]
    · rfl
  rw [countValues, hfilter]
  exact ExtTreeMap.size_erase_le

theorem countValues_erase_le : countValues p (t.erase k) ≤ countValues p t := by
  have hfilter : (t.erase k).filter (fun _ v => p v) = (t.filter fun _ v => p v).erase k := by
    refine ExtTreeMap.ext_getElem? fun a => ?_
    simp only [ExtTreeMap.getElem?_filter', getElem?_erase_eq]
    split
    · rfl
    · rfl
  rw [countValues, hfilter]
  exact ExtTreeMap.size_erase_le

omit [DecidableEq α] in
/-- Without a value that counts there is nothing to count. -/
theorem countValues_eq_zero (h : ∀ (k : α) (v : β), t[k]? = some v → p v = false) :
    countValues p t = 0 := by
  rw [countValues, ← ExtTreeMap.eq_empty_iff_size_eq_zero]
  refine ExtTreeMap.ext_getElem? fun a => ?_
  rw [ExtTreeMap.getElem?_filter', ExtTreeMap.getElem?_empty, Option.filter_eq_none_iff]
  exact fun v hv => by simp [h a v hv]

end Count

/-! ## Sets of keys -/

section Keys

variable [DecidableEq α] {t : ExtTreeSet α cmp} {k a : α}

/-- The elements of a set of keys, as a `Finset`, in which the operations on the
set become those of Mathlib. -/
def keys (t : ExtTreeSet α cmp) : Finset α := t.toList.toFinset

theorem mem_keys : a ∈ keys t ↔ t.contains a = true := by
  rw [keys, List.mem_toFinset, ExtTreeSet.mem_toList, ExtTreeSet.contains_iff_mem]

/-- The size of the set is the number of its elements: none is listed twice. -/
theorem card_keys (t : ExtTreeSet α cmp) : (keys t).card = t.size := by
  have hnodup : t.toList.Nodup := by
    refine List.Pairwise.imp (fun hne heq => hne ?_) ExtTreeSet.distinct_toList
    rw [heq]
    exact ReflCmp.compare_self
  rw [keys, List.toFinset_card_of_nodup hnodup, ExtTreeSet.length_toList]

theorem keys_empty : keys (∅ : ExtTreeSet α cmp) = ∅ := by
  rw [← Finset.card_eq_zero, card_keys, ExtTreeSet.size_empty]

theorem keys_insert : keys (t.insert k) = insert k (keys t) := by
  ext a
  rw [Finset.mem_insert, mem_keys, mem_keys, ExtTreeSet.contains_iff_mem,
    ExtTreeSet.contains_iff_mem, ExtTreeSet.mem_insert, LawfulEqCmp.compare_eq_iff_eq, eq_comm]

theorem keys_erase : keys (t.erase k) = (keys t).erase k := by
  ext a
  rw [Finset.mem_erase, mem_keys, mem_keys, ExtTreeSet.contains_iff_mem,
    ExtTreeSet.contains_iff_mem, ExtTreeSet.mem_erase, ne_eq, LawfulEqCmp.compare_eq_iff_eq,
    ne_comm]

/-- A set whose elements all lie in `F` has at most as many as `F`. -/
theorem size_le_card {F : Finset α} (h : ∀ k, t.contains k = true → k ∈ F) : t.size ≤ F.card := by
  rw [← card_keys]
  exact Finset.card_le_card fun k hk => h k (mem_keys.mp hk)

end Keys

end FiniteMap
