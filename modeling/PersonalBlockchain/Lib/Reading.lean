import PersonalBlockchain.Lib.Machine

/-!
# Programs that read while others write

A `Reader` looks at a shared state several times and computes an answer from
what it saw. Each look is atomic; between two looks the state may have moved.

`Serves` says how a reader runs over a machine: before its first look, between
two looks and after the last one the machine goes through a segment of steps.
`alone` is the answer when nothing moves.

* `Serves.run` — the segments together are a run of the machine;
* `Serves.snapshot` — when the steps between the first look and the last make
  only moves that the looks still to come cannot tell, the answer is the one the
  reader gives alone in a state the machine was in.
-/

namespace Reading

open Machine

/-- A program of atomic looks at a state; what it does after a look depends on
what it saw. -/
inductive Reader (σ α : Type)
  | done (a : α)
  | look (next : σ → Reader σ α)

namespace Reader

variable {σ α β : Type}

/-- One reader after the other: the looks of the first, then those of the
second. -/
def andThen : Reader σ α → (α → Reader σ β) → Reader σ β
  | done a, f => f a
  | look next, f => look fun s => (next s).andThen f

instance : Monad (Reader σ) where
  pure := done
  bind := andThen

/-- A look at one part of the state. -/
def observe (f : σ → α) : Reader σ α := look fun s => done (f s)

/-- The answer when nothing moves, all looks being at one state. -/
def alone : Reader σ α → σ → α
  | done a, _ => a
  | look next, s => (next s).alone s

/-- Whether there is a look ahead. -/
def looks : Reader σ α → Bool
  | done _ => false
  | look _ => true

/-- What a look saw is not changed by the moves of `R`, as far as the answer
goes: the looks that follow would give the same answer had it been made later.
The last look has no moves after it that could matter. -/
def Unnoticed (R : σ → σ → Prop) : Reader σ α → Prop
  | done _ => True
  | look next => ∀ s, (next s).Unnoticed R ∧
      ((next s).looks = true → ∀ t, R s t → (next s).alone t = (next t).alone t)

end Reader

variable {σ κ ρ α : Type} {step : κ → σ → Option (ρ × σ)} {s s' : σ}
  {segs : List (List (Entry σ κ ρ))} {r : Reader σ α} {a : α}

/-- A reader runs over the machine and answers `a`; the segments are the steps
before each look and those after the last. -/
inductive Serves (step : κ → σ → Option (ρ × σ)) :
    Reader σ α → σ → List (List (Entry σ κ ρ)) → σ → α → Prop
  | done {a : α} {s s' : σ} {tr : List (Entry σ κ ρ)} :
      Run step s tr s' → Serves step (.done a) s [tr] s' a
  | look {next : σ → Reader σ α} {s t s' : σ} {tr : List (Entry σ κ ρ)}
      {segs : List (List (Entry σ κ ρ))} {a : α} :
      Run step s tr t → Serves step (next t) t segs s' a →
      Serves step (.look next) s (tr :: segs) s' a

/-- The steps between the first look and the last. -/
def between (segs : List (List (Entry σ κ ρ))) : List (Entry σ κ ρ) := segs.tail.dropLast.flatten

/-- The states of a run, its first and its last included. -/
def states (s : σ) (tr : List (Entry σ κ ρ)) : List σ := s :: tr.map Entry.post

theorem last_mem_states {tr : List (Entry σ κ ρ)} (h : Run step s tr s') : s' ∈ states s tr := by
  cases h with
  | nil => exact List.mem_cons_self
  | snoc _ _ => simp [states]

/-- The states of a beginning are among those of the whole. -/
theorem states_append_left {t : σ} {tr tr' : List (Entry σ κ ρ)} (ht : t ∈ states s tr) :
    t ∈ states s (tr ++ tr') := by
  rw [states, List.map_append, ← List.cons_append]
  exact List.mem_append_left _ ht

/-- The states of the rest of a run are among those of the whole. -/
theorem states_append_right {t u : σ} {tr tr' : List (Entry σ κ ρ)} (h : Run step s tr t)
    (hu : u ∈ states t tr') : u ∈ states s (tr ++ tr') := by
  rcases List.mem_cons.mp hu with rfl | hu
  · rcases List.mem_cons.mp (last_mem_states h) with rfl | hmem
    · exact List.mem_cons_self
    · exact List.mem_cons_of_mem _ (by simpa using .inl (List.mem_map.mp hmem))
  · exact List.mem_cons_of_mem _ (by simpa using .inr (List.mem_map.mp hu))

/-- What each step of a run relates, its ends are related by. -/
theorem related_of_run {R : σ → σ → Prop} (hrefl : ∀ s, R s s)
    (htrans : ∀ s t u, R s t → R t u → R s u) {tr : List (Entry σ κ ρ)} (h : Run step s tr s')
    (hR : ∀ e ∈ tr, R e.pre e.post) : R s s' := by
  induction h with
  | nil => exact hrefl s
  | @snoc tr t t' call reply _ _ ih =>
    have hlast := hR ⟨t, call, reply, t'⟩ (by simp)
    exact htrans _ _ _ (ih fun e he => hR e (List.mem_append_left _ he)) hlast

theorem run_append {t : σ} {tr tr' : List (Entry σ κ ρ)} (h : Run step s tr t)
    (h' : Run step t tr' s') : Run step s (tr ++ tr') s' := by
  induction h' with
  | nil => simpa using h
  | snoc _ hs ih =>
    rw [← List.append_assoc]
    exact ih.snoc hs

/-- The segments together are a run: a reader adds no steps to the machine. -/
theorem Serves.run (h : Serves step r s segs s' a) : Run step s segs.flatten s' := by
  induction h with
  | done hrun => simpa using hrun
  | look hrun _ ih => exact run_append hrun ih

theorem Serves.segs_ne (h : Serves step r s segs s' a) : segs ≠ [] := by
  cases h with
  | done _ => exact List.cons_ne_nil _ _
  | look _ _ => exact List.cons_ne_nil _ _

/-- In the state of the last look, the look at `t` would have seen the same. -/
theorem same_later {R : σ → σ → Prop} {next : σ → Reader σ α} {t u : σ}
    (hnext : (next t).looks = true → ∀ u, R t u → (next t).alone u = (next u).alone u)
    (htu : R t u) (hlast : (next t).looks = false → u = t) :
    (next t).alone u = (next u).alone u := by
  cases hlooks : (next t).looks with
  | true => exact hnext hlooks u htu
  | false => rw [hlast hlooks]

/-- A reader whose looks are all ahead, and which cannot tell the moves that
come before them: the state of its last look will do. -/
theorem Serves.snapshot_from {R : σ → σ → Prop} (hrefl : ∀ s, R s s)
    (htrans : ∀ s t u, R s t → R t u → R s u) (h : Serves step r s segs s' a)
    (hr : r.Unnoticed R) (hR : ∀ e ∈ segs.dropLast.flatten, R e.pre e.post) :
    ∃ t ∈ states s segs.flatten, R s t ∧ (r.looks = false → t = s) ∧ a = r.alone t := by
  induction h with
  | done _ => exact ⟨_, List.mem_cons_self, hrefl _, fun _ => rfl, rfl⟩
  | @look next s t s' tr segs a hrun hserves ih =>
    rw [List.dropLast_cons_of_ne_nil hserves.segs_ne, List.flatten_cons] at hR
    -- up to the first look nothing has been read
    have hfirst : R s t :=
      related_of_run hrefl htrans hrun fun e he => hR e (List.mem_append_left _ he)
    -- the later looks see the state of the first, by what they take no notice of
    obtain ⟨u, hu, htu, hlast, ha⟩ :=
      ih (hr t).1 fun e he => hR e (List.mem_append_right _ he)
    refine ⟨u, states_append_right hrun hu, htrans _ _ _ hfirst htu,
      fun h => Bool.noConfusion h, ?_⟩
    rw [ha, same_later (hr t).2 htu hlast]
    rfl

/-- **Snapshot rule.** When the steps between the first look and the last are
all moves of `R`, and no look can tell such moves, the answer is the one the
reader gives alone in some state the machine was in. What happens before the
first look and after the last does not matter. -/
theorem Serves.snapshot {R : σ → σ → Prop} (hrefl : ∀ s, R s s)
    (htrans : ∀ s t u, R s t → R t u → R s u) (h : Serves step r s segs s' a)
    (hr : r.Unnoticed R) (hR : ∀ e ∈ between segs, R e.pre e.post) :
    ∃ t ∈ states s segs.flatten, a = r.alone t := by
  cases h with
  | done _ => exact ⟨_, List.mem_cons_self, rfl⟩
  | @look next _ t _ tr segs _ hrun hserves =>
    obtain ⟨u, hu, htu, hlast, ha⟩ := hserves.snapshot_from hrefl htrans (hr t).1 hR
    refine ⟨u, states_append_right hrun hu, ?_⟩
    rw [ha, same_later (hr t).2 htu hlast]
    rfl

end Reading
