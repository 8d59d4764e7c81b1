import Mathlib.Data.List.Basic
import Mathlib.Tactic.Common

/-!
# Trees of pairs

A list is reduced level by level: neighbours are joined by `node`, an odd last
element with itself, until one element is left.

* `reduce_length` — as much fuel as elements is enough;
* `forall_reduce` — what `node` always gives holds of the root;
* `reduce_replace` — when `node` cancels, another element in one place gives
  another root;
* `reduce_inj` — when `node` tells apart the pairs that are joined, lists of one
  length with the same root are the same;
* `reduce_repeat_last` — an odd last element may be repeated.
-/

namespace PairTree

variable {α : Type*}

/-- One level of the tree: neighbours are joined, an odd last element with
itself. -/
def level (node : α → α → α) : List α → List α
  | [] => []
  | [a] => [node a a]
  | a :: b :: rest => node a b :: level node rest

/-- `while (elements.size() > 1)`, with fuel: level after level until one
element is left. -/
def reduce (node : α → α → α) : Nat → List α → List α
  | 0, elements => elements
  | fuel + 1, elements =>
    if elements.length > 1 then reduce node fuel (level node elements) else elements

variable {node : α → α → α}

theorem level_length : ∀ elements : List α,
    (level node elements).length = (elements.length + 1) / 2
  | [] => by simp [level]
  | [a] => by simp [level]
  | a :: b :: rest => by
    rw [level, List.length_cons, level_length rest]
    simp only [List.length_cons]
    omega

/-- The loop ends with at most one element when it is given as much fuel as
there are elements. -/
theorem reduce_length (fuel : Nat) (elements : List α) (h : elements.length ≤ fuel + 1) :
    (reduce node fuel elements).length ≤ 1 := by
  induction fuel generalizing elements with
  | zero => exact h
  | succ fuel ih =>
    rw [reduce]
    split_ifs with hlen
    · -- half of more than one is fewer
      refine ih _ ?_
      rw [level_length]
      omega
    · omega

theorem forall_level {P : α → Prop} (hnode : ∀ a b, P (node a b)) :
    ∀ elements : List α, ∀ x ∈ level node elements, P x
  | [] => by simp [level]
  | [a] => by simp [level, hnode]
  | a :: b :: rest => by
    simp only [level, List.mem_cons, forall_eq_or_imp]
    exact ⟨hnode a b, forall_level hnode rest⟩

/-- A property of the elements that `node` always has is one of the root. -/
theorem forall_reduce {P : α → Prop} (hnode : ∀ a b, P (node a b)) (fuel : Nat)
    (elements : List α) (h : ∀ x ∈ elements, P x) : ∀ x ∈ reduce node fuel elements, P x := by
  induction fuel generalizing elements with
  | zero => exact h
  | succ fuel ih =>
    rw [reduce]
    split_ifs
    · exact ih _ (forall_level hnode elements)
    · exact h

/-! ## One element replaced -/

/-- A node determines each of its children from the other, and a child that was
joined with itself. A hash of two strings of one length does, as long as no
collision is among them. -/
structure Cancels (node : α → α → α) : Prop where
  left : ∀ {a b c}, node a c = node b c → a = b
  right : ∀ {a b c}, node c a = node c b → a = b
  self : ∀ {a b}, node a a = node b b → a = b

/-- Replacing one element replaces one element of the next level. -/
theorem level_replace (hnode : Cancels node) {a b : α} (hne : a ≠ b) :
    ∀ before after : List α, ∃ before' a' b' after',
      level node (before ++ a :: after) = before' ++ a' :: after' ∧
        level node (before ++ b :: after) = before' ++ b' :: after' ∧ a' ≠ b'
  | [], [] => ⟨[], _, _, [], rfl, rfl, fun h => hne (hnode.self h)⟩
  | [], c :: after => ⟨[], _, _, level node after, rfl, rfl, fun h => hne (hnode.left h)⟩
  | [c], after => ⟨[], _, _, level node after, rfl, rfl, fun h => hne (hnode.right h)⟩
  | c :: d :: before, after => by
    -- the first two are joined to the same node on both sides
    obtain ⟨before', a', b', after', ha, hb, hne'⟩ := level_replace hnode hne before after
    refine ⟨node c d :: before', a', b', after', ?_, ?_, hne'⟩
    · simp only [List.cons_append, level, ha]
    · simp only [List.cons_append, level, hb]

/-- **Another element in one place gives another root.** The difference is
carried from level to level, in one place each, up to the root. -/
theorem reduce_replace (hnode : Cancels node) {a b : α} (hne : a ≠ b) (fuel : Nat)
    (before after : List α) (hfuel : before.length + after.length ≤ fuel) :
    ∃ x y, reduce node fuel (before ++ a :: after) = [x] ∧
      reduce node fuel (before ++ b :: after) = [y] ∧ x ≠ y := by
  induction fuel generalizing a b before after with
  | zero =>
    obtain ⟨rfl, rfl⟩ : before = [] ∧ after = [] := by
      constructor <;> exact List.length_eq_zero_iff.mp (by omega)
    exact ⟨a, b, rfl, rfl, hne⟩
  | succ fuel ih =>
    -- the two levels have the same length, so that the recursions go together
    have hlength : ∀ x : α, (before ++ x :: after).length = before.length + after.length + 1 := by
      intro x
      simp only [List.length_append, List.length_cons]
      omega
    rw [reduce, reduce, hlength, hlength]
    split_ifs with hlen
    · -- the next level differs in one place again, and is shorter
      obtain ⟨before', a', b', after', ha, hb, hne'⟩ := level_replace hnode hne before after
      rw [ha, hb]
      refine ih hne' before' after' ?_
      have hnext := congrArg List.length ha
      rw [level_length, hlength, List.length_append, List.length_cons] at hnext
      omega
    · obtain ⟨rfl, rfl⟩ : before = [] ∧ after = [] := by
        constructor <;> exact List.length_eq_zero_iff.mp (by omega)
      exact ⟨a, b, rfl, rfl, hne⟩

/-! ## Lists with the same root -/

/-- The pairs one level joins. -/
def pairs : List α → List (α × α)
  | [] => []
  | [a] => [(a, a)]
  | a :: b :: rest => (a, b) :: pairs rest

/-- The pairs that are joined on the way to the root. -/
def joined (node : α → α → α) : Nat → List α → List (α × α)
  | 0, _ => []
  | fuel + 1, elements =>
    if elements.length > 1 then pairs elements ++ joined node fuel (level node elements) else []

/-- No two of these pairs are joined to the same element: injectivity where it
is needed, on the pairs that occur. -/
def TellsApart (node : α → α → α) (S : List (α × α)) : Prop :=
  ∀ p ∈ S, ∀ q ∈ S, node p.1 p.2 = node q.1 q.2 → p = q

theorem TellsApart.mono {S S' : List (α × α)} (h : TellsApart node S) (hsub : S' ⊆ S) :
    TellsApart node S' :=
  fun p hp q hq => h p (hsub hp) q (hsub hq)

theorem mem_of_mem_pairs : ∀ {elements : List α} {p : α × α}, p ∈ pairs elements →
    p.1 ∈ elements ∧ p.2 ∈ elements
  | [], p, h => by simp [pairs] at h
  | [a], p, h => by simp_all [pairs]
  | a :: b :: rest, p, h => by
    rcases List.mem_cons.mp h with rfl | h
    · simp
    · have hrest := mem_of_mem_pairs h
      simp [hrest.1, hrest.2]

/-- An element of the next level joins one of the pairs. -/
theorem mem_level : ∀ {elements : List α} {x : α}, x ∈ level node elements →
    ∃ p ∈ pairs elements, x = node p.1 p.2
  | [], x, h => by simp [level] at h
  | [a], x, h => ⟨(a, a), by simp [pairs], by simpa [level] using h⟩
  | a :: b :: rest, x, h => by
    rcases List.mem_cons.mp h with rfl | h
    · exact ⟨(a, b), by simp [pairs], rfl⟩
    · obtain ⟨p, hp, rfl⟩ := mem_level h
      exact ⟨p, List.mem_cons_of_mem _ hp, rfl⟩

/-- A property that the leaves have and that joining keeps is one of all that is
joined. -/
theorem forall_joined {P : α → Prop} (fuel : Nat) (elements : List α) (h : ∀ x ∈ elements, P x)
    (hnode : ∀ p ∈ joined node fuel elements, P p.1 → P p.2 → P (node p.1 p.2)) :
    ∀ p ∈ joined node fuel elements, P p.1 ∧ P p.2 := by
  induction fuel generalizing elements with
  | zero => simp [joined]
  | succ fuel ih =>
    rw [joined] at hnode ⊢
    split_ifs at hnode ⊢
    · simp only [List.mem_append] at hnode ⊢
      have hpairs : ∀ p ∈ pairs elements, P p.1 ∧ P p.2 := fun p hp =>
        ⟨h _ (mem_of_mem_pairs hp).1, h _ (mem_of_mem_pairs hp).2⟩
      -- what is joined at this level stands at the next one
      have hlevel : ∀ x ∈ level node elements, P x := by
        intro x hx
        obtain ⟨p, hp, rfl⟩ := mem_level hx
        exact hnode p (.inl hp) (hpairs p hp).1 (hpairs p hp).2
      rintro p (hp | hp)
      · exact hpairs p hp
      · exact ih _ hlevel (fun q hq => hnode q (.inr hq)) p hp
    · simp

/-- One level keeps lists of one length apart, when `node` tells their pairs
apart. -/
theorem level_inj : ∀ {elements elements' : List α},
    TellsApart node (pairs elements ++ pairs elements') → elements.length = elements'.length →
    level node elements = level node elements' → elements = elements'
  | [], [], _, _, _ => rfl
  | [a], [a'], hapart, _, h => by
    have hpair : (a, a) = (a', a') :=
      hapart (a, a) (by simp [pairs]) (a', a') (by simp [pairs]) (List.cons.inj h).1
    rw [(Prod.mk.inj hpair).1]
  -- the first pair, and then the rest, which is shorter by two
  | a :: b :: rest, a' :: b' :: rest', hapart, hlen, h => by
    obtain ⟨hnode, hlevel⟩ := List.cons.inj h
    have hpair : (a, b) = (a', b') :=
      hapart (a, b) (by simp [pairs]) (a', b') (by simp [pairs]) hnode
    have hrest : rest = rest' := by
      refine level_inj (hapart.mono fun p hp => ?_) (by simpa using hlen) hlevel
      rcases List.mem_append.mp hp with hp | hp <;> simp [pairs, hp]
    rw [(Prod.mk.inj hpair).1, (Prod.mk.inj hpair).2, hrest]

/-- **Lists of one length with the same root are the same**, when `node` tells
apart all pairs that are joined on the way to either root. Of one length, since
an odd last element may be repeated. -/
theorem reduce_inj (fuel : Nat) {elements elements' : List α}
    (hapart : TellsApart node (joined node fuel elements ++ joined node fuel elements'))
    (hlen : elements.length = elements'.length)
    (h : reduce node fuel elements = reduce node fuel elements') : elements = elements' := by
  induction fuel generalizing elements elements' with
  | zero => exact h
  | succ fuel ih =>
    rw [reduce, reduce, hlen] at h
    rw [joined, joined, hlen] at hapart
    split_ifs at h hapart with hlong
    · -- the next levels are the same, and they tell the elements apart
      have hlevel : level node elements = level node elements' := by
        refine ih (hapart.mono fun p hp => ?_) (by rw [level_length, level_length, hlen]) h
        rcases List.mem_append.mp hp with hp | hp <;> simp [hp]
      refine level_inj (hapart.mono fun p hp => ?_) hlen hlevel
      rcases List.mem_append.mp hp with hp | hp <;> simp [hp]
    · exact h

/-- One unit more fuel than needed changes nothing. -/
theorem reduce_fuel_succ {fuel : Nat} {elements : List α} (h : elements.length ≤ fuel + 1) :
    reduce node (fuel + 1) elements = reduce node fuel elements := by
  induction fuel generalizing elements with
  | zero => exact if_neg (by omega)
  | succ fuel ih =>
    show (if elements.length > 1 then reduce node (fuel + 1) (level node elements) else elements) =
      if elements.length > 1 then reduce node fuel (level node elements) else elements
    -- on the next level, which is shorter
    split_ifs with hlong
    · refine ih ?_
      rw [level_length]
      omega
    · rfl

/-- More fuel than needed changes nothing. -/
theorem reduce_fuel {fuel fuel' : Nat} {elements : List α} (h : elements.length ≤ fuel + 1)
    (hle : fuel ≤ fuel') : reduce node fuel' elements = reduce node fuel elements := by
  induction hle with
  | refl => rfl
  | step hle ih => rw [reduce_fuel_succ (Nat.le_trans h (Nat.succ_le_succ hle)), ih]

/-- The loop may start one level up. -/
theorem reduce_level {elements : List α} {fuel : Nat} (hlong : 1 < elements.length)
    (h : (level node elements).length ≤ fuel + 1) (hfuel : fuel < elements.length) :
    reduce node fuel (level node elements) = reduce node elements.length elements := by
  obtain ⟨n, hn⟩ : ∃ n, elements.length = n + 1 := ⟨elements.length - 1, by omega⟩
  have hstep : reduce node (n + 1) elements = reduce node n (level node elements) :=
    if_pos hlong
  rw [hn, hstep]
  exact (reduce_fuel h (by omega)).symm

/-- An odd last element is joined with itself, as if it stood there twice. -/
theorem level_repeat_last : ∀ {before : List α}, before.length % 2 = 0 → ∀ a : α,
    level node (before ++ [a, a]) = level node (before ++ [a])
  | [], _, a => rfl
  | [b], h, a => by simp at h
  | b :: c :: rest, h, a => by
    have hrest : rest.length % 2 = 0 := by
      simp only [List.length_cons] at h
      omega
    simp only [List.cons_append, level, level_repeat_last hrest]

/-- **An odd last element may be repeated**: a list of an odd length, longer
than one, and the same list with its last element twice have the same root. -/
theorem reduce_repeat_last {before : List α} (hne : before ≠ []) (heven : before.length % 2 = 0)
    (a : α) : reduce node (before ++ [a, a]).length (before ++ [a, a]) =
      reduce node (before ++ [a]).length (before ++ [a]) := by
  have hpos := List.length_pos_iff.mpr hne
  have honce : (before ++ [a]).length = before.length + 1 := by simp
  have htwice : (before ++ [a, a]).length = before.length + 2 := by simp
  have hlevel : (level node (before ++ [a])).length ≤ before.length + 1 := by
    rw [level_length, honce]
    omega
  -- after one level the two lists are the same
  calc reduce node (before ++ [a, a]).length (before ++ [a, a])
      = reduce node before.length (level node (before ++ [a, a])) :=
        (reduce_level (by omega) (by rwa [level_repeat_last heven]) (by omega)).symm
    _ = reduce node before.length (level node (before ++ [a])) := by
        rw [level_repeat_last heven]
    _ = reduce node (before ++ [a]).length (before ++ [a]) :=
        reduce_level (by omega) hlevel (by omega)

/-- The loop leaves one element of a list that is not empty. -/
theorem exists_reduce (fuel : Nat) {elements : List α} (hne : elements ≠ [])
    (h : elements.length ≤ fuel + 1) : ∃ root, reduce node fuel elements = [root] := by
  induction fuel generalizing elements with
  | zero =>
    have hpos := List.length_pos_iff.mpr hne
    have hone : elements.length = 1 := by omega
    exact List.length_eq_one_iff.mp hone
  | succ fuel ih =>
    have hpos := List.length_pos_iff.mpr hne
    rw [reduce]
    split_ifs with hlong
    -- a level has half the elements, so the fuel is more than enough
    · have hlength : (level node elements).length = (elements.length + 1) / 2 := level_length _
      have hnext : level node elements ≠ [] := List.length_pos_iff.mp (by omega)
      exact ih hnext (by omega)
    · exact List.length_eq_one_iff.mp (by omega)

end PairTree
