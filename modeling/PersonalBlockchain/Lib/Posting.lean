import Mathlib.Algebra.BigOperators.Group.Finset.Basic
import Mathlib.Algebra.BigOperators.Group.Finset.Piecewise
import Mathlib.Algebra.Notation.Lemmas
import Mathlib.Algebra.Order.BigOperators.Group.Finset
import Mathlib.Tactic.Abel

/-!
# Posting books

Bookkeeping over accounts `A` and amounts `M`: a `Posting` moves an amount
from one account to another, either of which may lie outside the books
(`none`). Posting never fails; `Covered` says that every paying account held
the amount when its turn came.

* `postAll_eq` — a balance is what it was, plus the credits, minus the debits;
* `Covered.nonneg` — covered postings of amounts `≥ 0` overdraw no account;
* `Covered.insert` — money coming in between does no harm;
* `sum_postAll` — all balances together change by what came in minus what
  went out, whatever the order;
* `Covered.le_issued` — no account holds more than ever came in.
-/

/-- A movement of `amount` from `src` to `dst`. An account outside of the books
is `none`: money comes in from there and goes out to there. -/
structure Posting (A M : Type*) where
  src : Option A
  dst : Option A
  amount : M

namespace Posting

variable {A M : Type*} [DecidableEq A]

section Group

variable [AddCommGroup M]

/-- What a posting brings to account `a`. -/
def credit (a : A) (p : Posting A M) : M := if p.dst = some a then p.amount else 0

/-- What a posting takes from account `a`. -/
def debit (a : A) (p : Posting A M) : M := if p.src = some a then p.amount else 0

/-- The balances after one posting, whether the paying account holds the amount
or not. -/
def post (bal : A → M) (p : Posting A M) (a : A) : M := bal a + credit a p - debit a p

/-- The balances after a list of postings, one after the other. -/
def postAll (bal : A → M) (ps : List (Posting A M)) : A → M := ps.foldl post bal

/-- All that a list of postings brings to account `a`. -/
def credits (ps : List (Posting A M)) (a : A) : M := (ps.map (credit a)).sum

/-- All that a list of postings takes from account `a`. -/
def debits (ps : List (Posting A M)) (a : A) : M := (ps.map (debit a)).sum

@[simp] theorem postAll_nil (bal : A → M) : postAll bal [] = bal := rfl

@[simp] theorem postAll_cons (bal : A → M) (p : Posting A M) (ps : List (Posting A M)) :
    postAll bal (p :: ps) = postAll (post bal p) ps := rfl

theorem postAll_append (bal : A → M) (ps qs : List (Posting A M)) :
    postAll bal (ps ++ qs) = postAll (postAll bal ps) qs :=
  List.foldl_append

/-- **Closed form of a balance**: what it was, plus all credits, minus all
debits. The order of the postings plays no part. -/
theorem postAll_eq (bal : A → M) (ps : List (Posting A M)) (a : A) :
    postAll bal ps a = bal a + credits ps a - debits ps a := by
  induction ps generalizing bal with
  | nil => simp [credits, debits]
  | cons p ps ih =>
    rw [postAll_cons, ih, post]
    simp only [credits, debits, List.map_cons, List.sum_cons]
    abel

/-! ## The total of the books -/

/-- The amounts that entered the books: paid from outside to an account. -/
def issued (ps : List (Posting A M)) : M :=
  (ps.map fun p => if p.src = none ∧ p.dst ≠ none then p.amount else 0).sum

/-- The amounts that left the books: paid by an account to the outside. -/
def burned (ps : List (Posting A M)) : M :=
  (ps.map fun p => if p.src ≠ none ∧ p.dst = none then p.amount else 0).sum

omit [DecidableEq A] in
theorem issued_append (ps qs : List (Posting A M)) :
    issued (ps ++ qs) = issued ps + issued qs := by
  simp [issued]

/-- Every account named by the postings is in `S`. -/
def Within (S : Finset A) (ps : List (Posting A M)) : Prop :=
  ∀ p ∈ ps, ∀ a, p.src = some a ∨ p.dst = some a → a ∈ S

omit [AddCommGroup M] in
/-- Some finite set of accounts contains all that are named, and any other. -/
theorem exists_within (ps : List (Posting A M)) (a : A) : ∃ S, Within S ps ∧ a ∈ S := by
  refine ⟨insert a (ps.flatMap fun p => p.src.toList ++ p.dst.toList).toFinset, ?_, by simp⟩
  intro p hp b hb
  simp only [Finset.mem_insert, List.mem_toFinset, List.mem_flatMap, List.mem_append,
    Option.mem_toList]
  exact Or.inr ⟨p, hp, hb⟩

/-- Over all accounts, a posting brings its amount to the one it names, if any. -/
theorem sum_credit {S : Finset A} {p : Posting A M} (h : ∀ a, p.dst = some a → a ∈ S) :
    ∑ a ∈ S, credit a p = if p.dst = none then 0 else p.amount := by
  unfold credit
  cases hdst : p.dst with
  | none => simp
  | some b => simp [h b hdst]

/-- Over all accounts, a posting takes its amount from the one it names, if any.
-/
theorem sum_debit {S : Finset A} {p : Posting A M} (h : ∀ a, p.src = some a → a ∈ S) :
    ∑ a ∈ S, debit a p = if p.src = none then 0 else p.amount := by
  unfold debit
  cases hsrc : p.src with
  | none => simp
  | some b => simp [h b hsrc]

/-- **Conservation.** Inside the books money only changes hands: all balances
together change by what was issued minus what was burned. -/
theorem sum_postAll (bal : A → M) {S : Finset A} {ps : List (Posting A M)} (h : Within S ps) :
    ∑ a ∈ S, postAll bal ps a = ∑ a ∈ S, bal a + issued ps - burned ps := by
  induction ps generalizing bal with
  | nil => simp [issued, burned]
  | cons p ps ih =>
    have hp := h p (List.mem_cons_self ..)
    have hpost : ∑ a ∈ S, post bal p a = ∑ a ∈ S, bal a +
        (if p.dst = none then 0 else p.amount) - (if p.src = none then 0 else p.amount) := by
      simp only [post, Finset.sum_sub_distrib, Finset.sum_add_distrib]
      rw [sum_credit fun a ha => hp a (Or.inr ha), sum_debit fun a ha => hp a (Or.inl ha)]
    rw [postAll_cons, ih _ fun q hq => h q (List.mem_cons_of_mem _ hq), hpost]
    -- in, out, through, or past the books
    simp only [issued, burned, List.map_cons, List.sum_cons]
    by_cases hsrc : p.src = none <;> by_cases hdst : p.dst = none <;> simp [hsrc, hdst] <;> abel

end Group

/-! ## Covered postings -/

section Covered

variable [AddCommGroup M] [LE M]

/-- Every paying account holds the amount when its turn comes, given the
postings before it. -/
def Covered : (A → M) → List (Posting A M) → Prop
  | _, [] => True
  | bal, p :: ps => (∀ a, p.src = some a → p.amount ≤ bal a) ∧ Covered (post bal p) ps

@[simp] theorem covered_nil (bal : A → M) : Covered bal [] := trivial

/-- The first is covered, and the others are in the balances it leaves. -/
@[simp] theorem covered_cons (bal : A → M) (p : Posting A M) (ps : List (Posting A M)) :
    Covered bal (p :: ps) ↔
      (∀ a, p.src = some a → p.amount ≤ bal a) ∧ Covered (post bal p) ps := Iff.rfl

/-- Two parts: the second is covered by what the first leaves. -/
theorem covered_append {bal : A → M} {ps qs : List (Posting A M)} :
    Covered bal (ps ++ qs) ↔ Covered bal ps ∧ Covered (postAll bal ps) qs := by
  induction ps generalizing bal with
  | nil => simp
  | cons p ps ih => simp [ih, and_assoc]

end Covered

section Ordered

variable [AddCommGroup M] [LinearOrder M] [IsOrderedAddMonoid M]

omit [IsOrderedAddMonoid M] in
/-- A posting takes nothing from the account it pays to. -/
theorem credit_nonneg {p : Posting A M} (hamount : 0 ≤ p.amount) (a : A) : 0 ≤ credit a p :=
  ite_nonneg hamount le_rfl

omit [DecidableEq A] in
theorem issued_nonneg {ps : List (Posting A M)} (hamount : ∀ p ∈ ps, 0 ≤ p.amount) :
    0 ≤ issued ps := by
  refine List.sum_nonneg fun x hx => ?_
  obtain ⟨p, hp, rfl⟩ := List.mem_map.mp hx
  exact ite_nonneg (hamount p hp) le_rfl

omit [DecidableEq A] in
theorem burned_nonneg {ps : List (Posting A M)} (hamount : ∀ p ∈ ps, 0 ≤ p.amount) :
    0 ≤ burned ps := by
  refine List.sum_nonneg fun x hx => ?_
  obtain ⟨p, hp, rfl⟩ := List.mem_map.mp hx
  exact ite_nonneg (hamount p hp) le_rfl

/-- Larger balances cover the same postings. -/
theorem Covered.mono {bal bal' : A → M} {ps : List (Posting A M)} (hle : ∀ a, bal a ≤ bal' a)
    (h : Covered bal ps) : Covered bal' ps := by
  induction ps generalizing bal bal' with
  | nil => trivial
  | cons p ps ih =>
    refine ⟨fun a ha => (h.1 a ha).trans (hle a), ih (fun a => ?_) h.2⟩
    exact sub_le_sub_right (add_le_add_left (hle a) _) _

/-- **Income in between does no harm**: what was covered without it is covered
with it too. -/
theorem Covered.insert {bal : A → M} {ps qs : List (Posting A M)} {p : Posting A M}
    (hsrc : p.src = none) (hamount : 0 ≤ p.amount) (h : Covered bal (ps ++ qs)) :
    Covered bal (ps ++ p :: qs) := by
  rw [covered_append] at h ⊢
  refine ⟨h.1, by simp [hsrc], h.2.mono fun a => ?_⟩
  have hcredit := credit_nonneg hamount a
  simpa [post, debit, hsrc] using hcredit

/-- One covered posting overdraws no account. -/
theorem post_nonneg {bal : A → M} {p : Posting A M} (hbal : ∀ a, 0 ≤ bal a)
    (hamount : 0 ≤ p.amount) (hcov : ∀ a, p.src = some a → p.amount ≤ bal a) (a : A) :
    0 ≤ post bal p a := by
  have hcredit := credit_nonneg hamount a
  have hdebit : debit a p ≤ bal a := by
    unfold debit
    split_ifs with hsrc
    · exact hcov a hsrc
    · exact hbal a
  exact sub_nonneg.mpr (hdebit.trans (le_add_of_nonneg_right hcredit))

/-- **Covered postings overdraw no account**: from balances of at least 0, no
sequence of covered postings leads to one below. -/
theorem Covered.nonneg {bal : A → M} {ps : List (Posting A M)} (hbal : ∀ a, 0 ≤ bal a)
    (hamount : ∀ p ∈ ps, 0 ≤ p.amount) (h : Covered bal ps) (a : A) : 0 ≤ postAll bal ps a := by
  induction ps generalizing bal with
  | nil => exact hbal a
  | cons p ps ih =>
    obtain ⟨hp, hps⟩ := List.forall_mem_cons.mp hamount
    exact ih (post_nonneg hbal hp h.1) hps h.2

/-- **No account of covered books holds more than ever came in.** The others
hold at least 0, and together they hold what was issued less what was burned. -/
theorem Covered.le_issued {ps : List (Posting A M)} (hamount : ∀ p ∈ ps, 0 ≤ p.amount)
    (h : Covered 0 ps) (a : A) : postAll 0 ps a ≤ issued ps := by
  obtain ⟨S, hS, ha⟩ := exists_within ps a
  have hburned := burned_nonneg hamount
  calc postAll 0 ps a
      ≤ ∑ b ∈ S, postAll 0 ps b :=
        Finset.single_le_sum (fun b _ => h.nonneg (fun _ => le_rfl) hamount b) ha
    _ = issued ps - burned ps := by simp [sum_postAll 0 hS]
    _ ≤ issued ps := sub_le_self _ hburned

/-- A covered posting credits no account with more than ever came in, since its
payer held the amount. -/
theorem Covered.credit_le_issued {ps : List (Posting A M)} {p : Posting A M}
    (hamount : ∀ q ∈ ps ++ [p], 0 ≤ q.amount) (h : Covered 0 (ps ++ [p])) (a : A) :
    credit a p ≤ issued (ps ++ [p]) := by
  have hps : ∀ q ∈ ps, 0 ≤ q.amount := fun q hq => hamount q (List.mem_append_left _ hq)
  have hp : 0 ≤ p.amount := hamount p (by simp)
  rw [covered_append, covered_cons] at h
  unfold credit
  split_ifs with hdst
  · rw [issued_append]
    cases hsrc : p.src with
    | none =>
      -- from outside: the amount is issued with it
      simpa [issued, hsrc, hdst] using issued_nonneg hps
    | some payer =>
      -- from inside: the payer held it
      have hpaid := (h.2.1 payer hsrc).trans (h.1.le_issued hps payer)
      simpa [issued, hsrc] using hpaid
  · exact issued_nonneg hamount

end Ordered

end Posting
