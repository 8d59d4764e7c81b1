import Mathlib.Data.List.Basic
import Mathlib.Tactic.Common

/-!
# Fields with a separator between them

Fields are joined with a separator that they may contain themselves. How the
joined text splits is then settled by how many separators each field has.

* `append_cons_inj` — one field and the rest;
* `intercalate_inj` — all fields;
* `exists_last`, `lastField_eq` — the last separator, and the field behind it.
-/

namespace Separated

variable {α : Type*} [DecidableEq α] {sep : α}

/-- Of two first fields with as many separators each, neither goes on where the
other ends: what it had more would begin with a separator. -/
theorem eq_nil_of_count {xs ys rest rest' : List α} (hcount : xs.count sep = (xs ++ ys).count sep)
    (h : sep :: rest = ys ++ sep :: rest') : ys = [] := by
  cases ys with
  | nil => rfl
  | cons y ys =>
    -- `ys` would begin with the separator
    obtain rfl : sep = y := (List.cons.inj h).1
    simp at hcount

/-- **A first field is told from the rest by its separators.** Two texts of a
field, a separator and a rest that agree, and whose fields have equally many
separators, have the same field and the same rest. -/
theorem append_cons_inj {xs ys xs' ys' : List α} (hcount : xs.count sep = xs'.count sep)
    (h : xs ++ sep :: ys = xs' ++ sep :: ys') : xs = xs' ∧ ys = ys' := by
  rcases List.append_eq_append_iff.mp h with ⟨zs, rfl, hzs⟩ | ⟨zs, rfl, hzs⟩
  · obtain rfl := eq_nil_of_count hcount hzs
    simpa using hzs
  · obtain rfl := eq_nil_of_count hcount.symm hzs
    simpa [eq_comm] using hzs

/-- **All fields are told apart by their separators**: joined texts of equally
many fields that agree come from the same fields, when each field but the last
has as many separators as its counterpart. Those of the last one need not be
counted. -/
theorem intercalate_inj : ∀ {fields fields' : List (List α)}, fields.length = fields'.length →
    fields.dropLast.map (List.count sep) = fields'.dropLast.map (List.count sep) →
    [sep].intercalate fields = [sep].intercalate fields' → fields = fields'
  | [], [], _, _, _ => rfl
  | [field], [field'], _, _, h => by simpa using h
  | field :: next :: fields, field' :: next' :: fields', hlen, hcount, h => by
    simp only [List.dropLast_cons_cons, List.map_cons, List.cons.injEq] at hcount
    simp only [List.intercalate_cons_cons, List.append_assoc, List.singleton_append] at h
    obtain ⟨rfl, hrest⟩ := append_cons_inj hcount.1 h
    rw [intercalate_inj (by simpa using hlen) hcount.2 hrest]

/-! ## The last separator -/

/-- What is behind the last separator. -/
def lastField (sep : α) (text : List α) : List α :=
  (text.reverse.takeWhile fun c => c ≠ sep).reverse

omit [DecidableEq α] in
theorem exists_last {text : List α} (h : sep ∈ text) :
    ∃ front back, text = front ++ sep :: back ∧ sep ∉ back := by
  obtain ⟨back, front, htext, hback⟩ := List.eq_append_cons_of_mem (List.mem_reverse.mpr h)
  refine ⟨front.reverse, back.reverse, ?_, by simpa using hback⟩
  rw [← List.reverse_reverse text, htext]
  simp

theorem lastField_eq {front back : List α} (h : sep ∉ back) :
    lastField sep (front ++ sep :: back) = back := by
  have hall : ∀ c ∈ back.reverse, decide (c ≠ sep) = true := by
    intro c hc
    exact decide_eq_true fun heq => h (List.mem_reverse.mp (heq ▸ hc))
  rw [lastField, List.reverse_append, List.reverse_cons, List.append_assoc,
    List.takeWhile_append_of_pos hall]
  simp

end Separated
