import Mathlib.Data.Finset.Max
import Mathlib.Tactic.Common

/-!
# A bounded set that drops its least element

A set is kept at no more than `n` elements by removing the least one. Whatever
came in and in whatever order, it holds the `n` greatest elements there were:
those with fewer than `n` greater ones.

* `card_greatest_le` — they are at most `n`;
* `greatest_insert` — dropping on the way is dropping at the end;
* `greatest_erase` — dropping the least of more than `n`;
* `recent_kept_iff` — which sequences have their last `n` elements kept at
  every moment.
-/

namespace GreatestKept

variable {α : Type*} [LinearOrder α]

/-- The elements of `s` with fewer than `n` greater ones in `s`. -/
def greatest (n : Nat) (s : Finset α) : Finset α :=
  s.filter fun x => (s.filter fun y => x < y).card < n

variable {n : Nat} {s : Finset α} {x y : α}

/-- An element is kept when fewer than `n` are greater. -/
theorem mem_greatest : x ∈ greatest n s ↔ x ∈ s ∧ (s.filter fun y => x < y).card < n :=
  Finset.mem_filter

theorem greatest_subset : greatest n s ⊆ s := Finset.filter_subset _ _

/-- What is greater than an element that is kept is kept. -/
theorem greatest_upward (hx : x ∈ greatest n s) (hy : y ∈ s) (hxy : x < y) :
    y ∈ greatest n s := by
  refine mem_greatest.mpr ⟨hy, lt_of_le_of_lt (Finset.card_le_card ?_) (mem_greatest.mp hx).2⟩
  exact Finset.monotone_filter_right _ fun z _ hyz => hxy.trans hyz

/-- No more than `n` are kept: those above the least of them are fewer than `n`.
-/
theorem card_greatest_le : (greatest n s).card ≤ n := by
  rcases (greatest n s).eq_empty_or_nonempty with hempty | hne
  · rw [hempty]
    exact Nat.zero_le n
  · -- all but the least of them are greater than the least
    obtain ⟨least, hleast, hmin⟩ := (greatest n s).exists_min_image id hne
    have hrest : (greatest n s).erase least ⊆ s.filter fun y => least < y := by
      intro y hy
      obtain ⟨hney, hy⟩ := Finset.mem_erase.mp hy
      exact Finset.mem_filter.mpr ⟨greatest_subset hy, lt_of_le_of_ne (hmin y hy) (Ne.symm hney)⟩
    have hcard := Finset.card_le_card hrest
    rw [Finset.card_erase_of_mem hleast] at hcard
    have hbound := (mem_greatest.mp hleast).2
    omega

theorem greatest_eq_self (h : s.card ≤ n) : greatest n s = s := by
  refine Finset.filter_true_of_mem fun x hx => lt_of_lt_of_le (Finset.card_lt_card ?_) h
  exact Finset.filter_ssubset.mpr ⟨x, hx, lt_irrefl x⟩

/-- Dropping on the way is dropping at the end: an element that was dropped had
`n` greater ones, which a new element does not make fewer. -/
theorem greatest_insert (x : α) (s : Finset α) :
    greatest n (insert x (greatest n s)) = greatest n (insert x s) := by
  have hsub : insert x (greatest n s) ⊆ insert x s := Finset.insert_subset_insert x greatest_subset
  ext y
  constructor
  · intro hy
    obtain ⟨hmem, hfew⟩ := mem_greatest.mp hy
    refine mem_greatest.mpr ⟨hsub hmem, lt_of_le_of_lt (Finset.card_le_card ?_) hfew⟩
    -- no element above `y` was dropped
    by_contra hdropped
    have hne : (s.filter fun z => y < z ∧ z ∉ greatest n s).Nonempty := by
      obtain ⟨z, hz, hnot⟩ := Finset.not_subset.mp hdropped
      obtain ⟨hzmem, hyz⟩ := Finset.mem_filter.mp hz
      rw [Finset.mem_filter, Finset.mem_insert, not_and_or, not_or] at hnot
      obtain ⟨hzx, hzg⟩ := hnot.resolve_right (not_not.mpr hyz)
      exact ⟨z, Finset.mem_filter.mpr ⟨(Finset.mem_insert.mp hzmem).resolve_left hzx, hyz, hzg⟩⟩
    -- above the greatest one that was, there are `n` that were kept
    obtain ⟨z, hz, hmax⟩ := Finset.exists_max_image _ id hne
    obtain ⟨hzs, hyz, hzg⟩ := Finset.mem_filter.mp hz
    have hkept : (s.filter fun w => z < w) ⊆ (insert x (greatest n s)).filter fun w => y < w := by
      intro w hw
      obtain ⟨hws, hzw⟩ := Finset.mem_filter.mp hw
      refine Finset.mem_filter.mpr ⟨Finset.mem_insert_of_mem ?_, hyz.trans hzw⟩
      by_contra hwg
      exact absurd (hmax w (Finset.mem_filter.mpr ⟨hws, hyz.trans hzw, hwg⟩)) (not_le.mpr hzw)
    have hmany : ¬ (s.filter fun w => z < w).card < n := fun h => hzg (mem_greatest.mpr ⟨hzs, h⟩)
    exact hmany (lt_of_le_of_lt (Finset.card_le_card hkept) hfew)
  · intro hy
    obtain ⟨hmem, hfew⟩ := mem_greatest.mp hy
    have hfewer : ∀ t ⊆ insert x s, (t.filter fun z => y < z).card < n := fun t ht =>
      lt_of_le_of_lt (Finset.card_le_card (Finset.filter_subset_filter _ ht)) hfew
    refine mem_greatest.mpr ⟨?_, hfewer _ hsub⟩
    rcases Finset.mem_insert.mp hmem with rfl | hys
    · exact Finset.mem_insert_self _ _
    · exact Finset.mem_insert_of_mem
        (mem_greatest.mpr ⟨hys, hfewer _ (Finset.subset_insert _ _)⟩)

/-- As long as there are more than `n`, the least can go: it has `n` greater
ones, and is greater than nothing. -/
theorem greatest_erase (hcard : n < s.card) (hx : x ∈ s) (hleast : ∀ y ∈ s, x ≤ y) :
    greatest n (s.erase x) = greatest n s := by
  ext y
  rw [mem_greatest, mem_greatest, Finset.mem_erase]
  -- the least is not greater than anything
  have hsame : y ∈ s → (s.erase x).filter (fun z => y < z) = s.filter fun z => y < z := by
    intro hy
    rw [Finset.filter_erase]
    exact Finset.erase_eq_of_notMem fun h =>
      absurd (hleast y hy) (not_le.mpr (Finset.mem_filter.mp h).2)
  constructor
  · rintro ⟨⟨-, hy⟩, hfew⟩
    exact ⟨hy, hsame hy ▸ hfew⟩
  · rintro ⟨hy, hfew⟩
    refine ⟨⟨?_, hy⟩, (hsame hy).symm ▸ hfew⟩
    rintro rfl
    -- all others are greater than the least
    have habove : s.erase y ⊆ s.filter fun z => y < z := by
      intro z hz
      obtain ⟨hne, hzs⟩ := Finset.mem_erase.mp hz
      exact Finset.mem_filter.mpr ⟨hzs, lt_of_le_of_ne (hleast z hzs) (Ne.symm hne)⟩
    have hmany := Finset.card_le_card habove
    rw [Finset.card_erase_of_mem hx] at hmany
    omega

/-! ## The last elements of a sequence -/

/-- The last `n` elements. -/
def recent (n : Nat) (xs : List α) : List α := xs.drop (xs.length - n)

/-- An element is less than each of the `n` that follow it, if so many do.
Identifiers that are numbers given out in order have this, hashes do not. -/
def RisesPast (n : Nat) (xs : List α) : Prop :=
  ∀ front x next back, xs = front ++ x :: (next ++ back) → next.length = n → ∀ y ∈ next, x < y

/-- A sequence that rises all the way does. -/
theorem risesPast_of_pairwise {xs : List α} (h : xs.Pairwise (· < ·)) : RisesPast n xs := by
  rintro front x next back rfl - y hy
  have htail := (List.pairwise_append.mp h).2.1
  exact List.rel_of_pairwise_cons htail (List.mem_append_left _ hy)

omit [LinearOrder α] in
/-- The last `n` of a sequence are a tail of `n`, or all there are. -/
theorem exists_recent (n : Nat) (xs : List α) :
    xs.length ≤ n ∧ recent n xs = xs ∨
      ∃ old, xs = old ++ recent n xs ∧ (recent n xs).length = n := by
  rcases Nat.le_total xs.length n with hle | hle
  · refine .inl ⟨hle, ?_⟩
    rw [recent, Nat.sub_eq_zero_of_le hle, List.drop_zero]
  · refine .inr ⟨xs.take (xs.length - n), (List.take_append_drop _ _).symm, ?_⟩
    rw [recent, List.length_drop, Nat.sub_sub_self hle]

omit [LinearOrder α] in
theorem recent_append {old window : List α} (h : window.length = n) :
    recent n (old ++ window) = window := by
  rw [recent, List.length_append, h, Nat.add_sub_cancel, List.drop_left]

/-- What has left the window is less than what is in it, by induction from the
element that left last. -/
theorem RisesPast.old_lt {xs old window back : List α} (h : RisesPast n xs) (hn : 0 < n)
    (hxs : xs = old ++ window ++ back) (hwindow : window.length = n) :
    ∀ x ∈ old, ∀ y ∈ window, x < y := by
  intro x hx
  obtain ⟨front, mid, rfl⟩ := List.append_of_mem hx
  clear hx
  induction mid generalizing front x with
  | nil =>
    refine h front x window back ?_ hwindow
    rw [hxs]
    simp
  | cons next mid ih =>
    -- the next one is greater, and has left the window as well
    have hfollow : (next :: (mid ++ window)).take n ++ ((next :: (mid ++ window)).drop n ++ back) =
        next :: (mid ++ window ++ back) := by
      rw [← List.append_assoc, List.take_append_drop, List.cons_append]
    have hlength : ((next :: (mid ++ window)).take n).length = n := by
      rw [List.length_take, List.length_cons, List.length_append]
      omega
    have hfirst : next ∈ (next :: (mid ++ window)).take n := by
      obtain ⟨k, rfl⟩ := Nat.exists_eq_succ_of_ne_zero hn.ne'
      exact List.mem_cons_self
    have hlt : x < next := by
      refine h front x _ ((next :: (mid ++ window)).drop n ++ back) ?_ hlength next hfirst
      rw [hfollow, hxs]
      simp
    intro y hy
    refine hlt.trans (ih next (front ++ [x]) ?_ y hy)
    rw [hxs]
    simp

/-- **When the last `n` are always kept**: of a sequence without repetition, the
last `n` are among the greatest `n` at every moment, exactly if each element is
less than the `n` that come after it. -/
theorem recent_kept_iff (hn : 0 < n) {xs : List α} (hnodup : xs.Nodup) :
    (∀ front, front <+: xs → ∀ x ∈ recent n front, x ∈ greatest n front.toFinset) ↔
      RisesPast n xs := by
  constructor
  -- the moment at which the `n` after `x` have come
  · rintro hkept front x next back rfl hlength y hy
    have hpre : front ++ x :: next <+: front ++ x :: (next ++ back) := ⟨back, by simp⟩
    have hwindow : recent n (front ++ x :: next) = next := by
      rw [List.append_cons, recent_append hlength]
    have hnext := hkept _ hpre
    rw [hwindow] at hnext
    have hx : x ∉ next := by
      have hsub := (hpre.sublist.nodup hnodup).of_append_right
      exact (List.nodup_cons.mp hsub).1
    by_contra hnot
    -- the element that leaves is kept along with the `n` that follow it
    have hstays : x ∈ greatest n (front ++ x :: next).toFinset := by
      refine greatest_upward (hnext y hy) (by simp) (lt_of_le_of_ne (not_lt.mp hnot) ?_)
      rintro rfl
      exact hx hy
    have hmany : insert x next.toFinset ⊆ greatest n (front ++ x :: next).toFinset := by
      refine Finset.insert_subset hstays fun z hz => hnext z (List.mem_toFinset.mp hz)
    have hcard := (Finset.card_le_card hmany).trans card_greatest_le
    have hnodup' : next.Nodup :=
      (List.nodup_cons.mp (hpre.sublist.nodup hnodup).of_append_right).2
    rw [Finset.card_insert_of_notMem (by simpa using hx), List.toFinset_card_of_nodup hnodup',
      hlength] at hcard
    omega
  · rintro hrises front ⟨back, rfl⟩ x hx
    rcases exists_recent n front with ⟨hshort, hall⟩ | ⟨old, hsplit, hlength⟩
    · rw [greatest_eq_self ((List.toFinset_card_le _).trans hshort)]
      exact List.mem_toFinset.mpr (hall ▸ hx)
    · have hold := hrises.old_lt hn (congrArg (· ++ back) hsplit) hlength
      generalize recent n front = window at *
      subst hsplit
      refine mem_greatest.mpr ⟨by simp [hx], ?_⟩
      -- what is greater is in the window too
      have habove : ((old ++ window).toFinset.filter fun y => x < y) ⊂ window.toFinset := by
        refine (Finset.ssubset_iff_of_subset fun y hy => ?_).mpr
          ⟨x, List.mem_toFinset.mpr hx, fun h => lt_irrefl x (Finset.mem_filter.mp h).2⟩
        obtain ⟨hy, hxy⟩ := Finset.mem_filter.mp hy
        rw [List.mem_toFinset, List.mem_append] at hy
        exact List.mem_toFinset.mpr (hy.resolve_left fun ho => lt_asymm hxy (hold y ho x hx))
      exact (Finset.card_lt_card habove).trans_le ((List.toFinset_card_le _).trans hlength.le)

end GreatestKept
