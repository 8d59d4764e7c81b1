import Mathlib.Data.List.Basic
import Mathlib.Data.List.Forall2
import Mathlib.Logic.Function.Basic
import Mathlib.Tactic.Common

/-!
# Runs of a deterministic machine

A machine is a partial step function `step : α → σ → Option (ρ × σ)`: a call
`a` in state `s` either never returns (`none`) or returns a reply and leaves a
new state. A `Run` is a finite sequence of completed calls together with the
state it ends in; each call is kept as an `Entry` (state before, call, reply,
state after), so that properties of the calls of a run and of the states it
goes through are statements about the list of entries.

* `Run.invariant` / `Run.invariant_of` — the induction rule for invariants,
  without and with a side condition on the calls;
* `Run.entry` / `Run.entry_of` — what every entry of a run satisfies;
* `Along`, `Run.history_of` — conditions and invariants that speak of the
  entries so far;
* `Run.without` — two runs, the second without some calls of the first;
* `Run.forall_post_iff` — a state property that a step keeps exactly when a
  condition on its start and its call holds, holds all along a run exactly
  when every call meets the condition;
* `Run.ratchet`, `Run.givesWay` — what every step relates to its start, such as a
  value that only gives way to greater ones;
* `Run.countdown` — bounded waiting;
* `each` / `Run.of_each` — a family of machines that take turns in any order,
  and the run of one of them;
* `Run.refines` — runs seen by another machine, which some steps leave where it
  is;
* `exec` / `Run.of_exec` — runs by evaluation.
-/

namespace Machine

variable {σ α ρ : Type*}

/-- One completed call of a run, with the states around it. A run keeps one
entry for each call, so that what a call was, what it answered and what it
changed can all be spoken of afterwards. -/
structure Entry (σ α ρ : Type*) where
  /-- the state the call started in -/
  pre : σ
  call : α
  ret : ρ
  /-- the state the call left -/
  post : σ

/-- The runs of `step` from `s₀`: `Run step s₀ tr s` says that the calls of
`tr`, in this order, lead from `s₀` to `s`, each of them completed. A call that
never returns ends no run and appears in none. -/
inductive Run (step : α → σ → Option (ρ × σ)) (s₀ : σ) :
    List (Entry σ α ρ) → σ → Prop
  | nil : Run step s₀ [] s₀
  | snoc {tr : List (Entry σ α ρ)} {s s' : σ} {a : α} {r : ρ} :
      Run step s₀ tr s → step a s = some (r, s') →
      Run step s₀ (tr ++ [⟨s, a, r, s'⟩]) s'

variable {step : α → σ → Option (ρ × σ)} {s₀ s : σ} {tr : List (Entry σ α ρ)}

/-- **Invariant rule with a side condition on the calls.** What holds at first
and is kept by every call that meets `C` holds at the end of every run whose
calls all meet `C`, each in the state it was made in. -/
theorem Run.invariant_of {I : σ → Prop} {C : σ → α → Prop} (h0 : I s₀)
    (hstep : ∀ ⦃s a r s'⦄, I s → C s a → step a s = some (r, s') → I s')
    (h : Run step s₀ tr s) (hC : ∀ e ∈ tr, C e.pre e.call) : I s := by
  induction h with
  | nil => exact h0
  | snoc _ hs ih =>
    have hlast := hC _ (List.mem_append_right _ (List.mem_singleton_self _))
    exact hstep (ih fun e he => hC e (List.mem_append_left _ he)) hlast hs

/-- **Invariant rule.** What holds at first and is kept by every completed call
holds at the end of every run. -/
theorem Run.invariant {I : σ → Prop} (h0 : I s₀)
    (hstep : ∀ ⦃s a r s'⦄, I s → step a s = some (r, s') → I s')
    (h : Run step s₀ tr s) : I s :=
  h.invariant_of (C := fun _ _ => True) h0 (fun _ _ _ _ hI _ => hstep hI) fun _ _ => trivial

/-- Every entry of a run is a step of the machine, taken in a state that a run
reaches: the calls before it, which are a run of their own. -/
theorem Run.entry (h : Run step s₀ tr s) :
    ∀ e ∈ tr, step e.call e.pre = some (e.ret, e.post) ∧ ∃ tr', Run step s₀ tr' e.pre := by
  induction h with
  | nil => simp
  | @snoc tr s s' a r hrun hs ih =>
    intro e he
    rcases List.mem_append.mp he with he | he
    · exact ih e he
    · rw [List.mem_singleton] at he
      subst he
      exact ⟨hs, tr, hrun⟩

/-- Every entry of a run starts in a state where the invariant holds. As the
rule `Run.invariant_of`, for the states along the way and not only the last one.
-/
theorem Run.entry_of {I : σ → Prop} {C : σ → α → Prop} (h0 : I s₀)
    (hstep : ∀ ⦃s a r s'⦄, I s → C s a → step a s = some (r, s') → I s')
    (h : Run step s₀ tr s) (hC : ∀ e ∈ tr, C e.pre e.call) :
    ∀ e ∈ tr, step e.call e.pre = some (e.ret, e.post) ∧ I e.pre := by
  induction h with
  | nil => simp
  | @snoc tr s s' a r hrun hs ih =>
    have hbefore : ∀ e ∈ tr, C e.pre e.call := fun e he => hC e (List.mem_append_left _ he)
    intro e he
    rcases List.mem_append.mp he with he | he
    · exact ih hbefore e he
    · rw [List.mem_singleton] at he
      subst he
      exact ⟨hs, hrun.invariant_of h0 hstep hbefore⟩

/-- What holds of every entry and the entries before it. -/
def Along (C : List (Entry σ α ρ) → Entry σ α ρ → Prop) (tr : List (Entry σ α ρ)) : Prop :=
  ∀ before e after, tr = before ++ e :: after → C before e

/-- One more entry: what held along the list still does, and the new entry has
all of the others before it. -/
theorem along_append {C : List (Entry σ α ρ) → Entry σ α ρ → Prop} {e : Entry σ α ρ} :
    Along C (tr ++ [e]) ↔ Along C tr ∧ C tr e := by
  constructor
  · exact fun h => ⟨fun before e' after heq => h before e' (after ++ [e]) (by simp [heq]),
      h tr e [] rfl⟩
  · rintro ⟨h, hlast⟩ before e' after heq
    -- the last entry, or one of those before
    rcases List.eq_nil_or_concat after with rfl | ⟨after, last, rfl⟩
    · obtain ⟨rfl, hsingle⟩ := List.append_inj' heq rfl
      obtain rfl := List.singleton_inj.mp hsingle
      exact hlast
    · rw [List.concat_eq_append, ← List.cons_append, ← List.append_assoc] at heq
      exact h before e' after (List.append_inj' heq rfl).1

/-- What holds along a list holds along what it begins with. -/
theorem along_of_append {C : List (Entry σ α ρ) → Entry σ α ρ → Prop}
    {before after : List (Entry σ α ρ)} (h : Along C (before ++ after)) : Along C before :=
  fun front e back heq => h front e (back ++ after) (by rw [heq, List.append_assoc]; rfl)

/-- The same by position: entry `i` has the first `i` entries before it. In this
form a condition along a concrete run can be evaluated. -/
theorem along_iff {C : List (Entry σ α ρ) → Entry σ α ρ → Prop} :
    Along C tr ↔ ∀ i, (h : i < tr.length) → C (tr.take i) (tr.get ⟨i, h⟩) := by
  constructor
  · intro h i hi
    exact h _ _ (tr.drop (i + 1)) (by simp)
  · rintro h before e after rfl
    have hi := h before.length (by simp)
    simpa using hi

instance {C : List (Entry σ α ρ) → Entry σ α ρ → Prop} [∀ before e, Decidable (C before e)] :
    Decidable (Along C tr) :=
  decidable_of_iff _ along_iff.symm

/-- **Invariant rule with history**: what is carried along, and what is asked of
a call, may depend on the entries before it. A run whose calls meet `C` all
along ends with `J` of its entries and its last state, and each of its entries
started with `J` of the entries before it. -/
theorem Run.history_of {J : List (Entry σ α ρ) → σ → Prop}
    {C : List (Entry σ α ρ) → Entry σ α ρ → Prop} (h0 : J [] s₀)
    (hstep : ∀ ⦃tr e⦄, J tr e.pre → C tr e → step e.call e.pre = some (e.ret, e.post) →
      J (tr ++ [e]) e.post)
    (h : Run step s₀ tr s) (hC : Along C tr) :
    J tr s ∧
      Along (fun before e => step e.call e.pre = some (e.ret, e.post) ∧ J before e.pre) tr := by
  induction h with
  | nil => exact ⟨h0, fun before e after heq => by simp at heq⟩
  | @snoc tr s s' a r _ hs ih =>
    obtain ⟨hC, hlast⟩ := along_append.mp hC
    obtain ⟨hJ, hentries⟩ := ih hC
    exact ⟨hstep (e := ⟨s, a, r, s'⟩) hJ hlast hs, along_append.mpr ⟨hentries, hs, hJ⟩⟩

theorem Run.of_nil (h : Run step s₀ ([] : List (Entry σ α ρ)) s) : s = s₀ := by
  generalize hall : ([] : List (Entry σ α ρ)) = all at h
  cases h with
  | nil => rfl
  | snoc => simp at hall

/-- A run goes on where another one ends: the entries are those of both. -/
theorem Run.append {tr' : List (Entry σ α ρ)} {s' : σ} (h : Run step s₀ tr s)
    (h' : Run step s tr' s') : Run step s₀ (tr ++ tr') s' := by
  induction h' with
  | nil => rwa [List.append_nil]
  | snoc _ hs ih =>
    rw [← List.append_assoc]
    exact ih.snoc hs

/-- The last call of a run: what comes before it is a run to the state it was
made in, and the state it left is the last one. -/
theorem Run.last {e : Entry σ α ρ} (h : Run step s₀ (tr ++ [e]) s) :
    Run step s₀ tr e.pre ∧ step e.call e.pre = some (e.ret, e.post) ∧ s = e.post := by
  generalize hall : tr ++ [e] = all at h
  cases h with
  | nil => simp at hall
  | snoc hrun hs =>
    obtain ⟨rfl, hlast⟩ := List.append_inj' hall rfl
    obtain rfl := List.singleton_inj.mp hlast
    exact ⟨hrun, hs, rfl⟩

/-- **Two-run rule.** The second run has some of the calls of the first. What
relates their states is kept by a call that the second run leaves out, and by one
that both have, which also relates the two entries. -/
theorem Run.without {keep : α → Bool} {J : List (Entry σ α ρ) → σ → σ → Prop}
    {C : List (Entry σ α ρ) → Entry σ α ρ → Prop} {R : Entry σ α ρ → Entry σ α ρ → Prop} {t₀ : σ}
    (h0 : J [] s₀ t₀)
    (hskip : ∀ ⦃tr e t⦄, J tr e.pre t → C tr e → step e.call e.pre = some (e.ret, e.post) →
      keep e.call = false → J (tr ++ [e]) e.post t)
    (hboth : ∀ ⦃tr e e'⦄, J tr e.pre e'.pre → C tr e →
      step e.call e.pre = some (e.ret, e.post) → step e'.call e'.pre = some (e'.ret, e'.post) →
      e'.call = e.call → keep e.call = true → J (tr ++ [e]) e.post e'.post ∧ R e e')
    (h : Run step s₀ tr s) (hC : Along C tr) {tr' : List (Entry σ α ρ)} {t : σ}
    (h' : Run step t₀ tr' t) (hcalls : tr'.map Entry.call = (tr.map Entry.call).filter keep) :
    J tr s t ∧ List.Forall₂ R (tr.filter fun e => keep e.call) tr' := by
  induction h generalizing tr' t with
  | nil =>
    obtain rfl : tr' = [] := by simpa using hcalls
    exact ⟨h'.of_nil ▸ h0, .nil⟩
  | @snoc tr s s' a r _ hs ih =>
    obtain ⟨hC, hlast⟩ := along_append.mp hC
    rw [List.map_append, List.filter_append] at hcalls
    rw [List.filter_append]
    cases hkeep : keep a with
    | false =>
      obtain ⟨hJ, hpairs⟩ := ih hC h' (by simpa [hkeep] using hcalls)
      exact ⟨hskip (e := ⟨s, a, r, s'⟩) hJ hlast hs hkeep, by simpa [hkeep] using hpairs⟩
    | true =>
      -- the second run ends with the same call
      rcases List.eq_nil_or_concat tr' with rfl | ⟨tr', e', rfl⟩
      · simp [hkeep] at hcalls
      rw [List.concat_eq_append] at h' hcalls ⊢
      obtain ⟨hrun', hs', rfl⟩ := h'.last
      obtain ⟨hcalls, hcall⟩ := List.append_inj' (by simpa using hcalls) (by simp [hkeep])
      obtain ⟨hJ, hpairs⟩ := ih hC hrun' hcalls
      have hcall' : e'.call = a := by simpa [hkeep] using hcall
      obtain ⟨hJ', hR⟩ := hboth (e := ⟨s, a, r, s'⟩) hJ hlast hs hs' hcall' hkeep
      exact ⟨hJ', List.rel_append hpairs (by simpa [hkeep] using hR)⟩

/-- A quantity that no step decreases. -/
theorem Run.monotone {f : σ → Nat}
    (hstep : ∀ ⦃s a r s'⦄, step a s = some (r, s') → f s ≤ f s')
    (h : Run step s₀ tr s) : f s₀ ≤ f s :=
  h.invariant (I := fun s => f s₀ ≤ f s) (Nat.le_refl _)
    fun _ _ _ _ hI hs => Nat.le_trans hI (hstep hs)

/-- A value gives way only to one of a greater measure. -/
def GivesWay {β : Type*} (m : β → Nat) (b b' : β) : Prop := b' = b ∨ m b < m b'

namespace GivesWay

variable {β : Type*} {m : β → Nat} {b b' b'' : β}

/-- A value that stays has not been given up for a smaller one. -/
theorem refl (m : β → Nat) (b : β) : GivesWay m b b := .inl rfl

/-- One value gives way to a greater one, and that one to a greater one still. -/
theorem trans (h : GivesWay m b b') (h' : GivesWay m b' b'') : GivesWay m b b'' := by
  rcases h with rfl | h
  · exact h'
  · rcases h' with rfl | h'
    · exact .inr h
    · exact .inr (Nat.lt_trans h h')

theorem le (h : GivesWay m b b') : m b ≤ m b' := by
  rcases h with rfl | h
  · exact Nat.le_refl _
  · exact Nat.le_of_lt h

end GivesWay

/-- **Ratchet rule.** A reflexive and transitive relation that every step puts
between its start and its end holds all along the run: between the first state
and the last, and between every state on the way and the last. -/
theorem Run.ratchet {R : σ → σ → Prop} (hrefl : ∀ s, R s s)
    (htrans : ∀ ⦃s t u⦄, R s t → R t u → R s u)
    (hstep : ∀ ⦃s a r s'⦄, step a s = some (r, s') → R s s') (h : Run step s₀ tr s) :
    R s₀ s ∧ ∀ e ∈ tr, R e.pre s ∧ R e.post s := by
  induction h with
  | nil => exact ⟨hrefl _, by simp⟩
  | @snoc tr s s' a r _ hs ih =>
    obtain ⟨hfirst, hentries⟩ := ih
    -- an earlier entry goes through the new step, the new one is that step
    refine ⟨htrans hfirst (hstep hs), fun e he => ?_⟩
    rcases List.mem_append.mp he with he | he
    · exact ⟨htrans (hentries e he).1 (hstep hs), htrans (hentries e he).2 (hstep hs)⟩
    · rw [List.mem_singleton.mp he]
      exact ⟨hstep hs, hrefl _⟩

/-- A value that every step leaves or replaces by a greater one: the last state has
what any earlier one had, or something greater. -/
theorem Run.givesWay {β : Type*} {f : σ → β} {m : β → Nat}
    (hstep : ∀ ⦃s a r s'⦄, step a s = some (r, s') → GivesWay m (f s) (f s'))
    (h : Run step s₀ tr s) :
    GivesWay m (f s₀) (f s) ∧ ∀ e ∈ tr, GivesWay m (f e.post) (f s) := by
  obtain ⟨hfirst, hentries⟩ := h.ratchet (R := fun s s' => GivesWay m (f s) (f s'))
    (fun s => .refl m (f s)) (fun _ _ _ hfirst hnext => hfirst.trans hnext) hstep
  exact ⟨hfirst, fun e he => (hentries e he).2⟩

/-- **Exactness along a run.** If, in states satisfying the invariant `I`, a
step keeps `P` exactly when `C` holds of its start and its call, then `P` holds
after every call of a run exactly when every call meets `C`. From left to right
this says that nothing else can keep `P`: a run that meets `P` throughout has
met `C` throughout. -/
theorem Run.forall_post_iff {I P : σ → Prop} {C : σ → α → Prop}
    (hI0 : I s₀) (hI : ∀ ⦃s a r s'⦄, I s → step a s = some (r, s') → I s')
    (h0 : P s₀)
    (hiff : ∀ ⦃s a r s'⦄, I s → P s → step a s = some (r, s') → (P s' ↔ C s a))
    (h : Run step s₀ tr s) :
    (∀ e ∈ tr, P e.post) ↔ ∀ e ∈ tr, C e.pre e.call := by
  -- `P` at the last state is carried along, as the start of the next step
  suffices hmain : ((∀ e ∈ tr, P e.post) ↔ ∀ e ∈ tr, C e.pre e.call) ∧
      ((∀ e ∈ tr, P e.post) → P s) from hmain.1
  induction h with
  | nil => simp [h0]
  | @snoc tr s s' a r hrun hs ih =>
    obtain ⟨ihiff, ihlast⟩ := ih
    have hIs : I s := hrun.invariant hI0 hI
    simp only [List.mem_append, List.mem_singleton, or_imp, forall_and, forall_eq]
    refine ⟨⟨?_, ?_⟩, And.right⟩
    -- the step from a state where `P` holds decides about the last entry
    · rintro ⟨hpost, hlast⟩
      exact ⟨ihiff.mp hpost, (hiff hIs (ihlast hpost) hs).mp hlast⟩
    · rintro ⟨hcall, hlast⟩
      have hpost := ihiff.mpr hcall
      exact ⟨hpost, (hiff hIs (ihlast hpost) hs).mpr hlast⟩

/-- **Countdown rule.** `J n` says that at most `n` calls of a kind are to go:
every step leaves it so or ends the waiting, and a call of the kind leaves
fewer. Then a run that has not ended the waiting made `m` such calls, has at
most `n - m` to go, and so no run makes more than `n` of them without ending it.
-/
theorem Run.countdown {J : Nat → σ → Prop} {P : σ → Prop} {K : α → Bool}
    (hstep : ∀ ⦃n s a r s'⦄, J n s → step a s = some (r, s') →
      P s' ∨ J n s' ∧ (K a = true → ∃ n' < n, J n' s'))
    {n : Nat} (h0 : J n s₀) (h : Run step s₀ tr s) :
    (∃ e ∈ tr, P e.post) ∨ ∃ k, k + (tr.filter fun e => K e.call).length ≤ n ∧ J k s := by
  induction h with
  -- none so far
  | nil => exact .inr ⟨n, Nat.le_refl n, h0⟩
  | @snoc tr s s' a r _ hs ih =>
    rcases ih with ⟨e, he, hP⟩ | ⟨k, hk, hJ⟩
    · exact .inl ⟨e, List.mem_append_left _ he, hP⟩
    · rw [List.filter_append, List.length_append]
      rcases hstep hJ hs with hP | ⟨hJ', hless⟩
      · exact .inl ⟨_, List.mem_append_right _ (List.mem_singleton_self _), hP⟩
      · right
        -- only a call of the kind shortens the wait
        cases hkind : K a with
        | false => exact ⟨k, by simpa [hkind] using hk, hJ'⟩
        | true =>
          obtain ⟨k', hk', hJ'⟩ := hless hkind
          refine ⟨k', ?_, hJ'⟩
          rw [List.filter_singleton, hkind]
          show k' + (_ + 1) ≤ n
          omega

/-! ## A family of machines -/

section Family

variable {ι : Type*} [DecidableEq ι]

/-- One machine of a family takes a step: a call names its machine, and the
state of that machine alone is replaced. -/
def each (step : ι → α → σ → Option (ρ × σ)) : ι × α → (ι → σ) → Option (ρ × (ι → σ)) :=
  fun call s => (step call.1 call.2 (s call.1)).map fun r => (r.1, Function.update s call.1 r.2)

/-- The step of one machine, and the others stand still. -/
theorem each_eq_some {step : ι → α → σ → Option (ρ × σ)} {call : ι × α} {s s' : ι → σ} {r : ρ}
    (h : each step call s = some (r, s')) :
    step call.1 call.2 (s call.1) = some (r, s' call.1) ∧ ∀ i, i ≠ call.1 → s' i = s i := by
  obtain ⟨⟨r', last⟩, hstep, heq⟩ := Option.map_eq_some_iff.mp h
  obtain ⟨rfl, rfl⟩ : r' = r ∧ Function.update s call.1 last = s' := Prod.mk.inj heq
  exact ⟨by rw [Function.update_self, hstep], fun i hi => Function.update_of_ne hi _ _⟩

/-- The entries of one machine: its own calls, with its own state before and
after. -/
def entriesOf (i : ι) (tr : List (Entry (ι → σ) (ι × α) ρ)) : List (Entry σ α ρ) :=
  tr.filterMap fun e =>
    if e.call.1 = i then some ⟨e.pre i, e.call.2, e.ret, e.post i⟩ else none

/-- **Each machine of a family has a run of its own.** Whatever the order in
which the machines take turns, the calls of one of them are a run of that
machine, so everything proved of its runs holds of it inside the family. -/
theorem Run.of_each {step : ι → α → σ → Option (ρ × σ)} {s₀ s : ι → σ}
    {tr : List (Entry (ι → σ) (ι × α) ρ)} (h : Run (each step) s₀ tr s) (i : ι) :
    Run (step i) (s₀ i) (entriesOf i tr) (s i) := by
  induction h with
  | nil => exact Run.nil
  | @snoc tr s s' call r _ hs ih =>
    obtain ⟨⟨r', s''⟩, hstep, heq⟩ := Option.map_eq_some_iff.mp hs
    cases heq
    rw [entriesOf, List.filterMap_append]
    -- its own turn adds an entry; the turn of another changes nothing of it
    by_cases hi : call.1 = i
    · subst hi
      simp only [List.filterMap_cons, List.filterMap_nil, if_true, Function.update_self]
      exact Run.snoc ih hstep
    · simp only [List.filterMap_cons, List.filterMap_nil, if_neg hi, List.append_nil,
        Function.update_of_ne (Ne.symm hi)]
      exact ih

end Family

/-! ## Refinement -/

section Refinement

variable {τ β ρ' : Type*} {step' : β → τ → Option (ρ' × τ)} {f : σ → τ} {C : α → β → Prop}

/-- What a call is to another machine that sees `f` of the state: nothing, or
one completed call. -/
def Mirrored (f : σ → τ) (C : α → β → Prop) (e : Entry σ α ρ) : Option (Entry τ β ρ') → Prop
  | none => f e.post = f e.pre
  | some e' => C e.call e'.call ∧ e'.pre = f e.pre ∧ e'.post = f e.post

/-- **Refinement with stuttering.** When every step leaves `f` of the state or
is a step of the other machine, every run is a run of the other machine, with
pauses: entry by entry, each call either changed nothing that the other machine
sees or was one completed call of it. -/
theorem Run.refines
    (hstep : ∀ ⦃s a r s'⦄, step a s = some (r, s') →
      f s' = f s ∨ ∃ b r', C a b ∧ step' b (f s) = some (r', f s'))
    (h : Run step s₀ tr s) :
    ∃ calls : List (Option (Entry τ β ρ')), List.Forall₂ (Mirrored f C) tr calls ∧
      Run step' (f s₀) (calls.filterMap id) (f s) := by
  induction h with
  | nil => exact ⟨[], .nil, .nil⟩
  | @snoc tr s s' a r _ hs ih =>
    obtain ⟨calls, hmirrored, hrun⟩ := ih
    -- a pause, or a call of the other machine
    rcases hstep hs with hsame | ⟨b, r', hcall, hs'⟩
    · refine ⟨calls ++ [none], List.rel_append hmirrored (.cons hsame .nil), ?_⟩
      rw [List.filterMap_append, hsame]
      simpa using hrun
    · refine ⟨calls ++ [some ⟨f s, b, r', f s'⟩],
        List.rel_append hmirrored (.cons ⟨hcall, rfl, rfl⟩ .nil), ?_⟩
      rw [List.filterMap_append]
      exact hrun.snoc hs'

end Refinement

/-! ## Runs by evaluation -/

/-- Run a list of calls, keeping the entries. There is no result when one of the
calls does not return. -/
def exec (step : α → σ → Option (ρ × σ)) : List α → σ → Option (List (Entry σ α ρ) × σ)
  | [], s => some ([], s)
  | a :: as, s =>
    match step a s with
    | none => none
    | some (r, s') =>
      match exec step as s' with
      | none => none
      | some (tr, last) => some (⟨s, a, r, s'⟩ :: tr, last)

/-- A run may be extended at its start. -/
theorem Run.cons {a : α} {r : ρ} {s₁ : σ} (hs : step a s₀ = some (r, s₁))
    (h : Run step s₁ tr s) : Run step s₀ (⟨s₀, a, r, s₁⟩ :: tr) s := by
  -- the run grows at its end, so the new first step moves to the front of each
  induction h with
  | nil => exact Run.snoc Run.nil hs
  | snoc _ hlast ih => exact Run.snoc ih hlast

theorem Run.of_exec {as : List α} (h : exec step as s₀ = some (tr, s)) :
    Run step s₀ tr s := by
  induction as generalizing s₀ tr with
  | nil =>
    simp only [exec, Option.some.injEq, Prod.mk.injEq] at h
    obtain ⟨rfl, rfl⟩ := h
    exact Run.nil
  | cons a as ih =>
    -- one call and then the rest; a call that is not answered ends the evaluation
    rw [exec] at h
    split at h
    · cases h
    · rename_i r s₁ hs
      split at h
      · cases h
      · rename_i tr' last hrest
        simp only [Option.some.injEq, Prod.mk.injEq] at h
        obtain ⟨rfl, rfl⟩ := h
        exact Run.cons hs (ih hrest)

/-- The entries of an evaluated run are about its calls, in order. -/
theorem exec_calls {as : List α} (h : exec step as s₀ = some (tr, s)) :
    tr.map Entry.call = as := by
  -- on the calls, each of which leaves one entry
  induction as generalizing s₀ tr with
  | nil =>
    simp only [exec, Option.some.injEq, Prod.mk.injEq] at h
    obtain ⟨rfl, -⟩ := h
    rfl
  | cons a as ih =>
    rw [exec] at h
    split at h
    · cases h
    · split at h
      · cases h
      · rename_i tr' last hrest
        simp only [Option.some.injEq, Prod.mk.injEq] at h
        obtain ⟨rfl, rfl⟩ := h
        rw [List.map_cons, ih hrest]

/-- A run of these calls whose entries and last state pass a check, found by
evaluation. -/
theorem Run.exists_of_exec_map (step : α → σ → Option (ρ × σ)) (as : List α) (s₀ : σ)
    (check : List (Entry σ α ρ) × σ → Bool) (h : (exec step as s₀).any check = true) :
    ∃ tr s, Run step s₀ tr s ∧ tr.map Entry.call = as ∧ check (tr, s) = true := by
  obtain ⟨⟨tr, s⟩, hexec, hcheck⟩ := (Option.any_eq_true _ _).mp h
  exact ⟨tr, s, Run.of_exec hexec, exec_calls hexec, hcheck⟩

/-- A run whose entries and last state pass a check, found by evaluation: the
hypothesis is a closed computation. -/
theorem Run.exists_of_exec (step : α → σ → Option (ρ × σ)) (as : List α) (s₀ : σ)
    (check : List (Entry σ α ρ) × σ → Bool) (h : (exec step as s₀).any check = true) :
    ∃ tr s, Run step s₀ tr s ∧ check (tr, s) = true := by
  obtain ⟨tr, s, hrun, -, hcheck⟩ := exists_of_exec_map step as s₀ check h
  exact ⟨tr, s, hrun, hcheck⟩

/-- Two runs, the second from where the first ends, and a check of both
together. -/
theorem Run.exists_of_exec_twice (step : α → σ → Option (ρ × σ)) (as bs : List α) (s₀ : σ)
    (check : List (Entry σ α ρ) × σ → List (Entry σ α ρ) × σ → Bool)
    (h : ((exec step as s₀).any fun r => (exec step bs r.2).any (check r)) = true) :
    ∃ tr s tr' s', Run step s₀ tr s ∧ Run step s tr' s' ∧ tr.map Entry.call = as ∧
      tr'.map Entry.call = bs ∧ check (tr, s) (tr', s') = true := by
  obtain ⟨⟨tr, s⟩, hrun, hsecond⟩ := (Option.any_eq_true _ _).mp h
  obtain ⟨⟨tr', s'⟩, hrun', hcheck⟩ := (Option.any_eq_true _ _).mp hsecond
  exact ⟨tr, s, tr', s', Run.of_exec hrun, Run.of_exec hrun', exec_calls hrun, exec_calls hrun',
    hcheck⟩

/-- `exists_of_exec` for runs whose calls have to meet a condition. -/
theorem Run.exists_of_exec_calls (step : α → σ → Option (ρ × σ)) (as : List α) (s₀ : σ)
    (check : List (Entry σ α ρ) × σ → Bool) (h : (exec step as s₀).any check = true)
    {P : α → Prop} (hP : ∀ a ∈ as, P a) :
    ∃ tr s, Run step s₀ tr s ∧ (∀ e ∈ tr, P e.call) ∧ check (tr, s) = true := by
  obtain ⟨tr, s, hrun, rfl, hcheck⟩ := exists_of_exec_map step as s₀ check h
  exact ⟨tr, s, hrun, fun e he => hP _ (List.mem_map_of_mem he), hcheck⟩

end Machine
