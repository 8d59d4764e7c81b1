import PersonalBlockchain.Lib.Machine

/-!
# Check, act, record

Clients act for keys, and two acts for one key should be a period apart. A client
first checks when the last act for its key was recorded, then acts, and then
records the time. The three are separate steps, and other clients come in between.

A `Gate` is what matters of the state, a `Move` one step. The gate keeps acts apart
as long as no client passes the check for a key while another one is between its
check and its record for the same key (`Exclusive`).

* `Guarded.step` — the invariant;
* `acts_apart` — the rule for runs of a machine whose steps are moves.
-/

namespace Cooldown

open Machine

/-- Where a client stands between its check and its record. -/
inductive Phase
  /-- the check is passed -/
  | passed
  | acted
  deriving DecidableEq

/-- What matters of the state: for each client the key it is acting for, between
its check and its record, and for each key the time that was recorded last. -/
@[ext]
structure Gate (ι κ : Type) where
  stage : ι → Option (κ × Phase)
  last : κ → Option Int

variable {ι κ : Type} {period now : Int}

/-- A step at the time `now`, by the key it acts for: nothing, passing the check
for a key, acting for it, or recording the time. Passing asks that the last
record of the key is a period ago; acting and recording ask nothing more. -/
inductive Move [DecidableEq ι] [DecidableEq κ] (period now : Int) (g : Gate ι κ) :
    Option κ → Gate ι κ → Prop
  | rest : Move period now g none g
  | pass (i : ι) (k : κ) : g.stage i = none →
      (∀ t, g.last k = some t → t + period ≤ now) →
      Move period now g none { g with stage := Function.update g.stage i (some (k, .passed)) }
  | act (i : ι) (k : κ) : g.stage i = some (k, .passed) →
      Move period now g (some k)
        { g with stage := Function.update g.stage i (some (k, .acted)) }
  | record (i : ι) (k : κ) : g.stage i = some (k, .acted) →
      Move period now g none
        ⟨Function.update g.stage i none, Function.update g.last k (some now)⟩

/-- A client between its check and its record for a key. -/
def Gate.Open (g : Gate ι κ) (i : ι) (k : κ) : Prop := ∃ phase, g.stage i = some (k, phase)

/-- Whoever passes the check for a key is the only one between check and record.
The gate does not see to it: it is what a run has to meet. -/
def Exclusive (g g' : Gate ι κ) : Prop :=
  ∀ i k, g.stage i = none → g'.stage i = some (k, .passed) → ∀ j, ¬ g.Open j k

/-- A time and the key that was acted for. -/
abbrev Act (κ : Type) := Int × Option κ

/-- The invariant, after the acts `tr`: one client at most is between check and
record for a key, one that has passed the check came a period after every act
for its key, and a key that nobody is busy with has its acts on record. -/
structure Guarded (period : Int) (tr : List (Act κ)) (g : Gate ι κ) : Prop where
  single : ∀ i j k, g.Open i k → g.Open j k → i = j
  /-- the check was late enough -/
  waited : ∀ i k, g.stage i = some (k, .passed) → ∀ a ∈ tr, a.2 = some k →
    ∃ b ∈ tr, a.1 + period ≤ b.1
  recorded : ∀ k, (∀ i, ¬ g.Open i k) → ∀ a ∈ tr, a.2 = some k → ∃ t, g.last k = some t ∧ a.1 ≤ t

variable {tr : List (Act κ)} {g g' : Gate ι κ}

theorem Guarded.start (h : ∀ i, g.stage i = none) : Guarded period [] g where
  single i j k hi := by simp [Gate.Open, h] at hi
  waited i k hi := by simp [h] at hi
  recorded k _ a ha := by simp at ha

/-- A step that acts for no key adds nothing to go by. -/
theorem Guarded.snoc_none (h : Guarded period tr g) : Guarded period (tr ++ [(now, none)]) g where
  single := h.single
  waited i k hi a ha hk := by
    obtain ha | ha := List.mem_append.mp ha
    · obtain ⟨b, hb, hle⟩ := h.waited i k hi a ha hk
      exact ⟨b, List.mem_append_left _ hb, hle⟩
    · rw [List.mem_singleton.mp ha] at hk
      cases hk
  recorded k hnone a ha hk := by
    obtain ha | ha := List.mem_append.mp ha
    · exact h.recorded k hnone a ha hk
    · rw [List.mem_singleton.mp ha] at hk
      cases hk

section Steps

variable [DecidableEq ι] {i j : ι} {k key : κ}

/-- Who is open after `i` has moved on: `i` for what it does now, the others as
before. -/
theorem open_update {stage : Option (κ × Phase)} {last : κ → Option Int} :
    Gate.Open ⟨Function.update g.stage i stage, last⟩ j key ↔
      if j = i then ∃ phase, stage = some (key, phase) else g.Open j key := by
  simp only [Gate.Open, Function.update_apply]
  split
  · rfl
  · rfl

/-- A client that was not open and is past the check is the one that has moved. -/
theorem passed_of_update {stage : Option (κ × Phase)} (hnone : g.stage j = none)
    (h : Function.update g.stage i stage j = some (k, .passed)) : stage = some (k, .passed) := by
  simp only [Function.update_apply] at h
  split_ifs at h
  · exact h
  · rw [hnone] at h
    cases h

/-- Passing the check keeps the invariant when nobody else is between check and
record for the key: the check then saw the record of the last act. -/
theorem Guarded.pass (h : Guarded period tr g) (hnow : ∃ a ∈ tr, a.1 = now)
    (hi : g.stage i = none) (hlast : ∀ t, g.last k = some t → t + period ≤ now)
    (hnone : ∀ j, ¬ g.Open j k) :
    Guarded period tr ⟨Function.update g.stage i (some (k, .passed)), g.last⟩ where
  single j j' key hj hj' := by
    rw [open_update] at hj hj'
    -- the two are the one that passes, or were there before
    split_ifs at hj hj' with h₁ h₂ h₂
    · exact h₁.trans h₂.symm
    · obtain ⟨phase, hkey⟩ := hj
      cases hkey
      exact absurd hj' (hnone j')
    · obtain ⟨phase, hkey⟩ := hj'
      cases hkey
      exact absurd hj (hnone j)
    · exact h.single j j' key hj hj'
  waited j key hj a ha hk := by
    simp only [Function.update_apply] at hj
    split_ifs at hj with h₁
    · -- the check has seen the record of every act for the key
      cases hj
      obtain ⟨t, ht, hle⟩ := h.recorded k hnone a ha hk
      obtain ⟨b, hb, rfl⟩ := hnow
      have hlate := hlast t ht
      exact ⟨b, hb, by omega⟩
    · exact h.waited j key hj a ha hk
  recorded key hclosed a ha hk := by
    refine h.recorded key (fun j hj => hclosed j ?_) a ha hk
    have hne : j ≠ i := by
      rintro rfl
      obtain ⟨phase, hopen⟩ := hj
      rw [hi] at hopen
      cases hopen
    rw [open_update, if_neg hne]
    exact hj

/-- An act keeps it: whoever acts has waited, and everybody else is busy with
other keys. -/
theorem Guarded.act (h : Guarded period tr g) (hi : g.stage i = some (k, .passed)) :
    Guarded period (tr ++ [(now, some k)])
      ⟨Function.update g.stage i (some (k, .acted)), g.last⟩ := by
  -- whoever was between check and record still is
  have hopen : ∀ j key, Gate.Open ⟨Function.update g.stage i (some (k, .acted)), g.last⟩ j key ↔
      g.Open j key := by
    intro j key
    rw [open_update]
    split
    next heq => simp [heq, Gate.Open, hi]
    next => rfl
  refine ⟨fun j j' key hj hj' => ?_, fun j key hj a ha hk => ?_, fun key hclosed a ha hk => ?_⟩
  · exact h.single j j' key ((hopen j key).mp hj) ((hopen j' key).mp hj')
  · simp only [Function.update_apply] at hj
    split_ifs at hj with hne
    · cases hj
    obtain ha | ha := List.mem_append.mp ha
    · obtain ⟨b, hb, hle⟩ := h.waited j key hj a ha hk
      exact ⟨b, List.mem_append_left _ hb, hle⟩
    · -- `j` would have passed the check while `i` was in between
      rw [List.mem_singleton.mp ha] at hk
      cases hk
      exact absurd (h.single j i k ⟨_, hj⟩ ⟨_, hi⟩) hne
  · obtain ha | ha := List.mem_append.mp ha
    · exact h.recorded key (fun j hj => hclosed j ((hopen j key).mpr hj)) a ha hk
    · rw [List.mem_singleton.mp ha] at hk
      cases hk
      exact absurd ((hopen i k).mpr ⟨_, hi⟩) (hclosed i)

/-- A record keeps it: the clock stands no earlier than any act so far. -/
theorem Guarded.record [DecidableEq κ] (h : Guarded period tr g) (hclock : ∀ a ∈ tr, a.1 ≤ now)
    (hi : g.stage i = some (k, .acted)) :
    Guarded period tr
      ⟨Function.update g.stage i none, Function.update g.last k (some now)⟩ where
  single j j' key hj hj' := by
    rw [open_update] at hj hj'
    split_ifs at hj hj' with h₁ h₂ h₂
    · exact h₁.trans h₂.symm
    · simp at hj
    · simp at hj'
    · exact h.single j j' key hj hj'
  waited j key hj a ha hk := by
    simp only [Function.update_apply] at hj
    split_ifs at hj
    exact h.waited j key hj a ha hk
  recorded key hclosed a ha hk := by
    simp only [Function.update_apply]
    split
    · exact ⟨now, rfl, hclock a ha⟩
    next hne =>
      refine h.recorded key (fun j hj => hclosed j ?_) a ha hk
      -- `i` was in between for another key
      have hji : j ≠ i := by
        rintro rfl
        obtain ⟨phase, hopen⟩ := hj
        rw [hi] at hopen
        cases hopen
        exact hne rfl
      rw [open_update, if_neg hji]
      exact hj

/-- Whoever acts has passed the check. -/
theorem Move.passed [DecidableEq κ] (h : Move period now g (some k) g') :
    ∃ i, g.stage i = some (k, .passed) := by
  cases h with
  | act i _ hi => exact ⟨i, hi⟩

/-- **One step**, of whatever kind, keeps the invariant at a clock that has not
gone back, as long as it lets no second client in. -/
theorem Guarded.step [DecidableEq κ] {act : Option κ} (h : Guarded period tr g)
    (hclock : ∀ a ∈ tr, a.1 ≤ now) (hmove : Move period now g act g')
    (hexclusive : Exclusive g g') : Guarded period (tr ++ [(now, act)]) g' := by
  -- only the move that passes the check needs the others to be kept out
  cases hmove with
  | rest => exact h.snoc_none
  | pass i k hi hlast =>
    have hnow : ∃ a ∈ tr ++ [(now, (none : Option κ))], a.1 = now :=
      ⟨_, List.mem_append_right _ (List.mem_singleton_self _), rfl⟩
    exact h.snoc_none.pass hnow hi hlast (hexclusive i k hi (Function.update_self ..))
  | act i k hi => exact h.act hi
  | record i k hi =>
    refine h.snoc_none.record (fun a ha => ?_) hi
    obtain ha | ha := List.mem_append.mp ha
    · exact hclock a ha
    · exact Int.le_of_eq (congrArg Prod.fst (List.mem_singleton.mp ha))

end Steps

/-! ## Machines -/

section Runs

variable {σ α ρ : Type} {step : α → σ → Option (ρ × σ)} {s₀ s : σ}

/-- The readings of a clock that never goes back. -/
def ClockForward (time : α → Int) (tr : List (Entry σ α ρ)) : Prop :=
  Along (fun before e => ∀ e' ∈ before, time e'.call ≤ time e.call) tr

instance {time : α → Int} {tr : List (Entry σ α ρ)} : Decidable (ClockForward time tr) :=
  inferInstanceAs (Decidable (Along _ tr))

/-- **Rule for runs.** When every step of a machine is a move of its gate, the
clock never goes back and no step lets a second client in for a key, then two
acts for one key are a period apart, in every run and however the clients take
turns. -/
theorem acts_apart [DecidableEq ι] [DecidableEq κ] {gate : σ → Gate ι κ} {time : α → Int}
    {act : Entry σ α ρ → Option κ} {tr : List (Entry σ α ρ)}
    (hmove : ∀ e, step e.call e.pre = some (e.ret, e.post) →
      Move period (time e.call) (gate e.pre) (act e) (gate e.post))
    (hstart : ∀ i, (gate s₀).stage i = none) (hrun : Run step s₀ tr s)
    (hclock : ClockForward time tr) (hexclusive : ∀ e ∈ tr, Exclusive (gate e.pre) (gate e.post)) :
    Along (fun before e => ∀ e' ∈ before, ∀ k, act e' = some k → act e = some k →
      time e'.call + period ≤ time e.call) tr := by
  -- the history of the acts, with their times, goes along with the gate
  have hhistory := hrun.history_of
    (J := fun before s => Guarded period (before.map fun e => (time e.call, act e)) (gate s))
    (C := fun before e => (∀ e' ∈ before, time e'.call ≤ time e.call) ∧
      Exclusive (gate e.pre) (gate e.post)) (Guarded.start hstart)
    (fun before e hguarded hcall hs => by
      rw [List.map_append]
      exact hguarded.step (by simpa using hcall.1) (hmove e hs) hcall.2)
    (fun before e after heq => ⟨hclock before e after heq, hexclusive e (by simp [heq])⟩)
  intro before e after heq e' he' k hk' hk
  obtain ⟨hs, hguarded⟩ := hhistory.2 before e after heq
  have hacts := hmove e hs
  rw [hk] at hacts
  obtain ⟨i, hi⟩ := hacts.passed
  -- since the check of `i` the clock has not gone back
  obtain ⟨b, hb, hle⟩ := hguarded.waited i k hi _ (List.mem_map_of_mem he') hk'
  obtain ⟨checked, hchecked, rfl⟩ := List.mem_map.mp hb
  exact Int.le_trans hle (hclock before e after heq checked hchecked)

end Runs

end Cooldown
