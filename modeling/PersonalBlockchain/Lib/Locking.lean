import Mathlib.Logic.Relation
import Mathlib.Tactic.Common

/-!
# Call chains that take mutexes

A `Routine` runs in a call chain that holds some mutexes already. Taking a
mutex that the chain holds ends it in a self-deadlock, whatever is around;
an exception ends it until a handler catches it, and gives back the mutexes
taken since. Other threads are not modelled: what a routine does is a function
of the mutexes held and the state.

A program whose mutexes have ranks, and which takes them in the order of their
ranks, never deadlocks with itself. `Obeys rank throws k x` says that `x`
keeps to that order in every chain that holds mutexes below rank `k` only, and
whether exceptions may leave it.

* `Obeys.bind`, `Obeys.withLock`, `Obeys.attempt`, `Obeys.guarded`,
  `Obeys.forEach` — the rules of the order;
* `Obeys.no_selfDeadlock`, `Obeys.returns` — what it gives;
* `bind_run`, `returns_bind` — running a routine step by step.

`Within r held x` says that `x` changes the state by steps of `r` only, however
it ends.

* `Within.bind`, `Within.withLock`, `Within.attempt`, `Within.forEach` — the
  rules of what may change;
* `Within.keeps` — what each step keeps, the routine keeps;
* `Within.bind_after`, `Within.attempt_after` — what holds in one place, and is
  kept from there on;
* `AtMostOnce` — one step of another kind may be among them.

`Ensures r held x` says how `x` changes the state as a whole, when it returns.

* `Ensures.of_within`, `Ensures.bind`, `Ensures.seq`, `Ensures.guarded` — the
  rules of what is ensured.
-/

namespace Locking

/-- How a routine ends: it returns a value, an exception leaves it, or its chain
takes a mutex that it holds already and waits for itself for ever. -/
inductive Ending (μ ε α : Type)
  | returned (a : α)
  | threw (e : ε)
  /-- the chain took a mutex it held already -/
  | selfDeadlock (m : μ)
  deriving DecidableEq

/-- What a routine does, given the mutexes its call chain holds: how it ends,
and the state it leaves, which has changed also when an exception or a
self-deadlock ended the routine half way. -/
def Routine (μ ε σ α : Type) := List μ → σ → Ending μ ε α × σ

namespace Routine

variable {μ ε σ α β : Type}

/-- A routine that only returns a value. -/
def ret (a : α) : Routine μ ε σ α := fun _ s => (.returned a, s)

/-- One routine after the other; the second one only runs when the first
returns. -/
def andThen (x : Routine μ ε σ α) (f : α → Routine μ ε σ β) : Routine μ ε σ β := fun held s =>
  match x held s with
  | (.returned a, s') => f a held s'
  | (.threw e, s') => (.threw e, s')
  | (.selfDeadlock m, s') => (.selfDeadlock m, s')

instance : Monad (Routine μ ε σ) where
  pure := ret
  bind := andThen

/-- Read and change the state. -/
def act (f : σ → α × σ) : Routine μ ε σ α := fun _ s => (.returned (f s).1, (f s).2)

/-- Read the state. -/
def read (f : σ → α) : Routine μ ε σ α := act fun s => (f s, s)

/-- Change the state. -/
def change (f : σ → σ) : Routine μ ε σ Unit := act fun s => ((), f s)

/-- The value of a computation without effects, or its exception. -/
def liftExcept : Except ε α → Routine μ ε σ α
  | .ok a => ret a
  | .error e => fun _ s => (.threw e, s)

/-- `try { … } catch (...) { … }`: the handler runs in the state that the
exception left behind. A self-deadlock is no exception and is not caught. -/
def attempt (x handler : Routine μ ε σ α) : Routine μ ε σ α := fun held s =>
  match x held s with
  | (.threw _, s') => handler held s'
  | ending => ending

/-- A `lock_guard` on `m` for the length of `body`, given back when `body`
returns or throws. A chain that holds `m` already stops here for good. -/
def withLock [DecidableEq μ] (m : μ) (body : Routine μ ε σ α) : Routine μ ε σ α := fun held s =>
  if m ∈ held then (.selfDeadlock m, s) else body (m :: held) s

/-- A loop over a list; an exception ends it. -/
def forEach (f : α → Routine μ ε σ Unit) : List α → Routine μ ε σ Unit
  | [] => pure ()
  | a :: as => do
    f a
    forEach f as

/-! ## Running step by step -/

theorem ite_run {c : Prop} [Decidable c] {x y : Routine μ ε σ α} {held : List μ} {s : σ} :
    (if c then x else y) held s = if c then x held s else y held s := by
  split
  · rfl
  · rfl

/-- What follows a routine that returns runs with its value, in the state it
left. -/
theorem bind_run {x : Routine μ ε σ α} {f : α → Routine μ ε σ β} {held : List μ} {s t : σ}
    {a : α} (h : x held s = (.returned a, t)) : (x >>= f) held s = f a held t := by
  show andThen x f held s = _
  rw [andThen, h]

/-- What follows a routine that deadlocks with itself never runs. -/
theorem bind_run_selfDeadlock {x : Routine μ ε σ α} {f : α → Routine μ ε σ β} {held : List μ}
    {s s' : σ} {m : μ} (h : x held s = (.selfDeadlock m, s')) :
    (x >>= f) held s = (.selfDeadlock m, s') := by
  show andThen x f held s = _
  rw [andThen, h]

theorem withLock_run [DecidableEq μ] {m : μ} {body : Routine μ ε σ α} {held : List μ} {s : σ}
    (h : m ∉ held) : withLock m body held s = body (m :: held) s :=
  if_neg h

/-- A loop whose rounds return is a fold of what each round does to the state. -/
theorem forEach_run {f : α → Routine μ ε σ Unit} {g : σ → α → σ} {held : List μ}
    (h : ∀ a s, f a held s = (.returned (), g s a)) (as : List α) (s : σ) :
    forEach f as held s = (.returned (), as.foldl g s) := by
  induction as generalizing s with
  | nil => rfl
  | cons a as ih => exact (bind_run (h a s)).trans (ih _)

/-- A handler is not reached when nothing is thrown. -/
theorem attempt_run {x handler : Routine μ ε σ α} {held : List μ} {s s' : σ} {a : α}
    (h : x held s = (.returned a, s')) : attempt x handler held s = (.returned a, s') := by
  rw [attempt, h]

/-- A handler takes over in the state of the exception. -/
theorem attempt_run_threw {x handler : Routine μ ε σ α} {held : List μ} {s s' : σ} {e : ε}
    (h : x held s = (.threw e, s')) : attempt x handler held s = handler held s' := by
  rw [attempt, h]

theorem bind_run_threw {x : Routine μ ε σ α} {f : α → Routine μ ε σ β} {held : List μ}
    {s s' : σ} {e : ε} (h : x held s = (.threw e, s')) :
    (x >>= f) held s = (.threw e, s') := by
  show andThen x f held s = _
  rw [andThen, h]

theorem withLock_held [DecidableEq μ] {m : μ} {body : Routine μ ε σ α} {held : List μ} {s : σ}
    (h : m ∈ held) : withLock m body held s = (.selfDeadlock m, s) :=
  if_pos h

/-- The routine returns: it neither throws nor deadlocks with itself. -/
def Returns (x : Routine μ ε σ α) (held : List μ) (s : σ) : Prop :=
  ∃ a, (x held s).1 = .returned a

/-- A sequence returns exactly when its first part does, and its second part
after that. -/
theorem returns_bind {x : Routine μ ε σ α} {f : α → Routine μ ε σ β} {held : List μ} {s : σ} :
    Returns (x >>= f) held s ↔
      ∃ a s', x held s = (.returned a, s') ∧ Returns (f a) held s' := by
  show (∃ b, (andThen x f held s).1 = .returned b) ↔ _
  unfold andThen
  -- the first part has returned, or the sequence does not
  rcases hrun : x held s with ⟨ending, s'⟩
  cases ending with
  | returned a =>
    constructor
    · exact fun h => ⟨a, s', rfl, h⟩
    · rintro ⟨a', s'', heq, h⟩
      cases heq
      exact h
  | threw e =>
    constructor
    · rintro ⟨b, hb⟩
      cases hb
    · rintro ⟨a, s'', heq, _⟩
      cases heq
  | selfDeadlock m =>
    constructor
    · rintro ⟨b, hb⟩
      cases hb
    · rintro ⟨a, s'', heq, _⟩
      cases heq

/-- What a sequence that returns has gone through. -/
theorem bind_returned {x : Routine μ ε σ α} {f : α → Routine μ ε σ β} {held : List μ} {s s' : σ}
    {b : β} (h : (x >>= f) held s = (.returned b, s')) :
    ∃ a mid, x held s = (.returned a, mid) ∧ f a held mid = (.returned b, s') := by
  obtain ⟨a, mid, hx, -⟩ := returns_bind.mp ⟨b, congrArg Prod.fst h⟩
  exact ⟨a, mid, hx, (bind_run hx).symm.trans h⟩

/-- What may throw first decides whether the routine returns: only with a value
does the rest run at all. -/
theorem returns_liftExcept_bind {r : Except ε α} {f : α → Routine μ ε σ β} {held : List μ}
    {s : σ} : Returns (liftExcept r >>= f) held s ↔ ∃ a, r = .ok a ∧ Returns (f a) held s := by
  rw [returns_bind]
  cases r with
  -- the throw leaves the routine, whatever follows
  | error e =>
    constructor
    · rintro ⟨a, s', heq, _⟩
      cases heq
    · rintro ⟨a, heq, _⟩
      cases heq
  | ok b =>
    constructor
    · rintro ⟨a, s', heq, h⟩
      cases heq
      exact ⟨b, rfl, h⟩
    · rintro ⟨a, heq, h⟩
      cases heq
      exact ⟨b, s, rfl, h⟩

/-! ## The order of the mutexes -/

variable {rank : μ → Nat} {throws : Prop} {k : Nat}

/-- In a chain that holds mutexes below rank `k` only, `x` does not deadlock
with itself, and exceptions leave it only if `throws`. Rank by rank, and with
the mutexes it takes itself among those held by what it calls, this bounds a
whole program. -/
def Obeys (rank : μ → Nat) (throws : Prop) (k : Nat) (x : Routine μ ε σ α) : Prop :=
  ∀ held s, (∀ m ∈ held, rank m < k) →
    match (x held s).1 with
    | .returned _ => True
    | .threw _ => throws
    | .selfDeadlock _ => False

namespace Obeys

variable {x handler : Routine μ ε σ α}

protected theorem pure (a : α) : Obeys rank throws k (pure a : Routine μ ε σ α) :=
  fun _ _ _ => trivial

/-- An access takes no mutex. -/
protected theorem act (f : σ → α × σ) : Obeys rank throws k (act f : Routine μ ε σ α) :=
  fun _ _ _ => trivial

protected theorem liftExcept (r : Except ε α) :
    Obeys rank True k (liftExcept r : Routine μ ε σ α) := by
  intro held s _
  cases r <;> trivial

/-- Both parts run in the same chain, so both have to keep to the order. -/
protected theorem bind {f : α → Routine μ ε σ β} (hx : Obeys rank throws k x)
    (hf : ∀ a, Obeys rank throws k (f a)) : Obeys rank throws k (x >>= f) := by
  intro held s hheld
  have hfirst := hx held s hheld
  show match (andThen x f held s).1 with | .returned _ => True | .threw _ => throws
                                         | .selfDeadlock _ => False
  unfold andThen
  -- the second part starts with the mutexes the first one started with
  rcases hrun : x held s with ⟨ending, s'⟩
  rw [hrun] at hfirst
  cases ending with
  | returned a => exact hf a held s' hheld
  | threw e => exact hfirst
  | selfDeadlock m => exact hfirst

/-- **The rule of the order**: a mutex of rank at least `k` may be taken, and
under it only mutexes of higher ranks. The chain did not hold it, since all it
holds is below `k`. -/
protected theorem withLock [DecidableEq μ] {m : μ} (hm : k ≤ rank m)
    (hx : Obeys rank throws (rank m + 1) x) : Obeys rank throws k (withLock m x) := by
  intro held s hheld
  have hfree : m ∉ held := fun hmem => Nat.not_lt.mpr hm (hheld m hmem)
  rw [withLock_run hfree]
  refine hx (m :: held) s fun m' hm' => ?_
  rcases List.mem_cons.mp hm' with rfl | hm'
  · exact Nat.lt_succ_self _
  · exact Nat.lt_succ_of_lt (Nat.lt_of_lt_of_le (hheld m' hm') hm)

/-- A handler stops the exceptions of what it guards, and is judged by its own. -/
protected theorem attempt (hx : Obeys rank True k x) (hhandler : Obeys rank throws k handler) :
    Obeys rank throws k (attempt x handler) := by
  intro held s hheld
  have hfirst := hx held s hheld
  unfold attempt
  rcases hrun : x held s with ⟨ending, s'⟩
  rw [hrun] at hfirst
  cases ending with
  | returned a => trivial
  | threw e => exact hhandler held s' hheld
  | selfDeadlock m => exact hfirst

/-- Either branch. -/
protected theorem ite {c : Prop} [Decidable c] {y : Routine μ ε σ α}
    (hx : Obeys rank throws k x) (hy : Obeys rank throws k y) :
    Obeys rank throws k (if c then x else y) := by
  split
  · exact hx
  · exact hy

/-- A step under a condition, and what comes after it in both cases. -/
protected theorem guarded {c : Prop} [Decidable c] {x : Routine μ ε σ Unit}
    {f : Unit → Routine μ ε σ α} (hx : Obeys rank throws k x)
    (hf : ∀ u, Obeys rank throws k (f u)) :
    Obeys rank throws k (if c then x >>= f else f ()) :=
  .ite (.bind hx hf) (hf ())

protected theorem forEach {f : α → Routine μ ε σ Unit} (hf : ∀ a, Obeys rank throws k (f a))
    (as : List α) : Obeys rank throws k (forEach f as) := by
  induction as with
  | nil => exact .pure ()
  | cons a as ih => exact .bind (hf a) fun _ => ih

/-- **No self-deadlock**: a routine that keeps to the order never takes a mutex
that its chain holds already, whatever the state. -/
theorem no_selfDeadlock (h : Obeys rank throws k x) {held : List μ}
    (hheld : ∀ m ∈ held, rank m < k) (s : σ) (m : μ) : (x held s).1 ≠ .selfDeadlock m := by
  intro hending
  have hx := h held s hheld
  rw [hending] at hx
  exact hx

/-- A routine that keeps to the order and lets no exception out returns. -/
theorem returns (h : Obeys rank False k x) {held : List μ} (hheld : ∀ m ∈ held, rank m < k)
    (s : σ) : Returns x held s := by
  have hx := h held s hheld
  cases hending : (x held s).1 with
  | returned a => exact ⟨a, hending⟩
  | threw e =>
    rw [hending] at hx
    exact hx.elim
  | selfDeadlock m =>
    rw [hending] at hx
    exact hx.elim

end Obeys

-- a routine is compared with a rule by its steps, never by what it does
attribute [irreducible] Obeys

/-! ## What a routine changes -/

open Relation (ReflTransGen)

variable {r r' : σ → σ → Prop} {held : List μ}

/-- In a chain that holds `held`, `x` changes the state by steps of `r` and in
no other way, however it ends. Each step is one access to the state. -/
def Within (r : σ → σ → Prop) (held : List μ) (x : Routine μ ε σ α) : Prop :=
  ∀ s, ReflTransGen r s (x held s).2

namespace Within

variable {x handler : Routine μ ε σ α}

protected theorem pure (a : α) : Within r held (pure a : Routine μ ε σ α) := fun _ => .refl

protected theorem read (f : σ → α) : Within r held (read f : Routine μ ε σ α) := fun _ => .refl

/-- One access to the state is one step. -/
protected theorem act {f : σ → α × σ} (h : ∀ s, r s (f s).2) :
    Within r held (act f : Routine μ ε σ α) := fun s => .single (h s)

/-- What comes after an access, for what the access gives. -/
protected theorem act_bind {f : σ → α × σ} {g : α → Routine μ ε σ β} (hf : ∀ s, r s (f s).2)
    (hg : ∀ s, Within r held (g (f s).1)) : Within r held (act f >>= g) :=
  fun s => .head (hf s) (hg s (f s).2)

/-- What comes after a reading, in the state that was read. -/
protected theorem read_bind {f : σ → α} {g : α → Routine μ ε σ β}
    (hg : ∀ s, ReflTransGen r s (g (f s) held s).2) : Within r held (Routine.read f >>= g) := hg

/-- The same for a reading under a mutex. -/
protected theorem ask [DecidableEq μ] {m : μ} {f : σ → α} {g : α → Routine μ ε σ β}
    (hg : ∀ s, ReflTransGen r s (g (f s) held s).2) :
    Within r held (withLock m (Routine.read f) >>= g) := by
  intro s
  by_cases hm : m ∈ held
  · rw [show (withLock m (Routine.read f) >>= g) held s = (.selfDeadlock m, s) from
      bind_run_selfDeadlock (withLock_held hm)]
  · rw [bind_run (withLock_run hm)]
    exact hg s

protected theorem liftExcept (e : Except ε α) :
    Within r held (liftExcept e : Routine μ ε σ α) := by
  intro s
  cases e <;> exact .refl

/-- The rule for one state: what the first part does there, and what the second
part may do anywhere. -/
theorem bind_at {f : α → Routine μ ε σ β} {s : σ} (hfirst : ReflTransGen r s (x held s).2)
    (hf : ∀ a, Within r held (f a)) : ReflTransGen r s ((x >>= f) held s).2 := by
  show ReflTransGen r s (andThen x f held s).2
  unfold andThen
  rcases hrun : x held s with ⟨ending, s'⟩
  rw [hrun] at hfirst
  cases ending with
  | returned a => exact hfirst.trans (hf a s')
  | threw e => exact hfirst
  | selfDeadlock m => exact hfirst

protected theorem bind {f : α → Routine μ ε σ β} (hx : Within r held x)
    (hf : ∀ a, Within r held (f a)) : Within r held (x >>= f) := fun s => bind_at (hx s) hf

/-- A mutex that is held already lets nothing happen. -/
protected theorem withLock [DecidableEq μ] {m : μ} (hx : Within r (m :: held) x) :
    Within r held (withLock m x) := by
  intro s
  unfold withLock
  split
  · exact .refl
  · exact hx s

/-- The handler goes on from where the exception left off, with such steps. -/
protected theorem attempt (hx : Within r held x) (hhandler : Within r held handler) :
    Within r held (attempt x handler) := by
  intro s
  have hfirst := hx s
  unfold attempt
  rcases hrun : x held s with ⟨ending, s'⟩
  rw [hrun] at hfirst
  cases ending with
  | returned a => exact hfirst
  -- the steps of `x` so far, and then those of the handler
  | threw e => exact hfirst.trans (hhandler s')
  | selfDeadlock m => exact hfirst

/-- Either branch. -/
protected theorem ite {c : Prop} [Decidable c] {y : Routine μ ε σ α} (hx : Within r held x)
    (hy : Within r held y) : Within r held (if c then x else y) := by
  split
  · exact hx
  · exact hy

/-- A step under a condition, and what comes after it in both cases. -/
protected theorem guarded {c : Prop} [Decidable c] {x : Routine μ ε σ Unit}
    {f : Unit → Routine μ ε σ α} (hx : Within r held x) (hf : ∀ u, Within r held (f u)) :
    Within r held (if c then x >>= f else f ()) :=
  .ite (.bind hx hf) (hf ())

protected theorem forEach {f : α → Routine μ ε σ Unit} {as : List α}
    (hf : ∀ a ∈ as, Within r held (f a)) : Within r held (forEach f as) := by
  induction as with
  | nil => exact .pure ()
  | cons a as ih =>
    exact .bind (hf a List.mem_cons_self) fun _ => ih fun b hb => hf b (List.mem_cons_of_mem _ hb)

/-- More may change. -/
protected theorem mono (hr : ∀ s s', r s s' → r' s s') (hx : Within r held x) :
    Within r' held x := fun s => Relation.ReflTransGen.mono hr _ _ (hx s)

/-- **What each step keeps, the routine keeps**: an invariant of the steps is
one of the routine, however it ends. -/
theorem keeps {I : σ → Prop} (hI : ∀ s s', r s s' → I s → I s') (hx : Within r held x) {s : σ}
    (hs : I s) : I (x held s).2 := by
  have hsteps := hx s
  generalize (x held s).2 = s' at hsteps ⊢
  induction hsteps with
  | refl => exact hs
  | tail _ hstep ih => exact hI _ _ hstep ih

/-- What holds after a first routine, and is kept by the steps of the next,
holds after both. -/
theorem bind_after {P : σ → Prop} {f : α → Routine μ ε σ β} {s : σ}
    (hP : ∀ s s', r s s' → P s → P s') (hx : P (x held s).2) (hf : ∀ a, Within r held (f a)) :
    P ((x >>= f) held s).2 := by
  show P (andThen x f held s).2
  unfold andThen
  rcases hrun : x held s with ⟨ending, s'⟩
  rw [hrun] at hx
  cases ending with
  | returned a => exact (hf a).keeps hP hx
  | threw e => exact hx
  | selfDeadlock m => exact hx

/-- What holds after a routine, and is kept by the handler of its exceptions,
holds in the end whether or not there was one. -/
theorem attempt_after {P : σ → Prop} {s : σ} (hP : ∀ s s', r s s' → P s → P s')
    (hx : P (x held s).2) (hhandler : Within r held handler) : P (attempt x handler held s).2 := by
  unfold attempt
  rcases hrun : x held s with ⟨ending, s'⟩
  rw [hrun] at hx
  cases ending with
  | returned a => exact hx
  | threw e => exact hhandler.keeps hP hx
  | selfDeadlock m => exact hx

end Within

/-! ## One step of a kind -/

variable {once : σ → σ → Prop}

/-- Steps of `r`, with one step of `once` among them or none. -/
def Around (r once : σ → σ → Prop) (s s' : σ) : Prop :=
  ReflTransGen r s s' ∨
    ∃ t t', ReflTransGen r s t ∧ once t t' ∧ ReflTransGen r t' s'

theorem Around.before {s t s' : σ} (hfirst : ReflTransGen r s t) (h : Around r once t s') :
    Around r once s s' :=
  h.imp hfirst.trans fun ⟨u, u', hu, honce, hlast⟩ => ⟨u, u', hfirst.trans hu, honce, hlast⟩

theorem Around.after {s t s' : σ} (h : Around r once s t) (hlast : ReflTransGen r t s') :
    Around r once s s' :=
  h.imp (fun hsteps => hsteps.trans hlast) fun ⟨u, u', hu, honce, hu'⟩ =>
    ⟨u, u', hu, honce, hu'.trans hlast⟩

/-- In a chain that holds `held`, `x` changes the state by steps of `r` and by
one step of `once` at most, wherever in its run that comes. -/
def AtMostOnce (r once : σ → σ → Prop) (held : List μ) (x : Routine μ ε σ α) : Prop :=
  ∀ s, Around r once s (x held s).2

namespace AtMostOnce

variable {x handler : Routine μ ε σ α}

/-- A routine that never takes the one step. -/
theorem of_within (h : Within r held x) : AtMostOnce r once held x := fun s => .inl (h s)

/-- The one step comes in the second part, or not at all. -/
protected theorem within_bind {f : α → Routine μ ε σ β} (hx : Within r held x)
    (hf : ∀ a, AtMostOnce r once held (f a)) : AtMostOnce r once held (x >>= f) := by
  intro s
  have hfirst := hx s
  show Around r once s (andThen x f held s).2
  unfold andThen
  rcases hrun : x held s with ⟨ending, s'⟩
  rw [hrun] at hfirst
  cases ending with
  | returned a => exact .before hfirst (hf a s')
  | threw e => exact .inl hfirst
  | selfDeadlock m => exact .inl hfirst

/-- The one step comes in the first part, or not at all. -/
protected theorem bind_within {f : α → Routine μ ε σ β} (hx : AtMostOnce r once held x)
    (hf : ∀ a, Within r held (f a)) : AtMostOnce r once held (x >>= f) := by
  intro s
  have hfirst := hx s
  show Around r once s (andThen x f held s).2
  unfold andThen
  rcases hrun : x held s with ⟨ending, s'⟩
  rw [hrun] at hfirst
  cases ending with
  | returned a => exact .after hfirst (hf a s')
  | threw e => exact hfirst
  | selfDeadlock m => exact hfirst

protected theorem liftExcept_bind {e : Except ε α} {f : α → Routine μ ε σ β}
    (hf : ∀ a, e = .ok a → AtMostOnce r once held (f a)) :
    AtMostOnce r once held (Routine.liftExcept e >>= f) := by
  cases e with
  | error e => exact fun _ => .inl .refl
  | ok a => exact hf a rfl

/-- A handler takes no such step again, so that an exception after the one step
does no harm. -/
protected theorem attempt (hx : AtMostOnce r once held x) (hhandler : Within r held handler) :
    AtMostOnce r once held (attempt x handler) := by
  intro s
  have hfirst := hx s
  unfold attempt
  rcases hrun : x held s with ⟨ending, s'⟩
  rw [hrun] at hfirst
  cases ending with
  | returned a => exact hfirst
  | threw e => exact .after hfirst (hhandler s')
  | selfDeadlock m => exact hfirst

/-- Either branch. -/
protected theorem ite {c : Prop} [Decidable c] {y : Routine μ ε σ α}
    (hx : AtMostOnce r once held x) (hy : AtMostOnce r once held y) :
    AtMostOnce r once held (if c then x else y) := by
  split
  · exact hx
  · exact hy

end AtMostOnce

/-! ## What a routine ensures -/

/-- In a chain that holds `held`, `x` leads from a state to one that `r` relates
to it whenever it returns. Of what an exception leaves behind it says nothing. -/
def Ensures (r : σ → σ → Prop) (held : List μ) (x : Routine μ ε σ α) : Prop :=
  ∀ s a s', x held s = (.returned a, s') → r s s'

namespace Ensures

variable {q : σ → σ → Prop} {x : Routine μ ε σ α}

/-- What all sequences of steps ensure. -/
theorem of_within (h : Within r held x) (hr : ∀ s s', ReflTransGen r s s' → q s s') :
    Ensures q held x := by
  intro s a s' hx
  have hsteps := h s
  rw [hx] at hsteps
  exact hr s s' hsteps

protected theorem change {f : σ → σ} :
    Ensures (fun s s' => s' = f s) held (change f : Routine μ ε σ Unit) := by
  intro s a s' h
  exact (congrArg Prod.snd h).symm

/-- Either way, knowing which. -/
protected theorem ite {c : Prop} [Decidable c] {y : Routine μ ε σ α}
    (hx : c → Ensures r held x) (hy : ¬ c → Ensures r held y) :
    Ensures r held (if c then x else y) := by
  split
  next hc => exact hx hc
  next hc => exact hy hc

/-- A routine that returns under a mutex was let in. -/
protected theorem withLock [DecidableEq μ] {m : μ} (hx : Ensures r (m :: held) x) :
    Ensures r held (withLock m x) := by
  intro s a s' h
  unfold withLock at h
  split at h
  · cases h
  · exact hx s a s' h

protected theorem liftExcept_bind {e : Except ε α} {f : α → Routine μ ε σ β}
    (hf : ∀ a, e = .ok a → Ensures r held (f a)) :
    Ensures r held (Routine.liftExcept e >>= f) := by
  cases e with
  | error e =>
    intro s b s' h
    cases h
  | ok a => exact hf a rfl

protected theorem bind {f : α → Routine μ ε σ β} (hx : Ensures r held x)
    (hf : ∀ a, Ensures r' held (f a)) (hq : ∀ s t u, r s t → r' t u → q s u) :
    Ensures q held (x >>= f) := by
  intro s b s' h
  obtain ⟨a, mid, hfirst, hlast⟩ := bind_returned h
  exact hq s mid s' (hx s a mid hfirst) (hf a mid b s' hlast)

variable [IsTrans σ r]

/-- One after the other, for a relation that composes with itself. -/
protected theorem seq {f : α → Routine μ ε σ β} (hx : Ensures r held x)
    (hf : ∀ a, Ensures r held (f a)) : Ensures r held (x >>= f) :=
  .bind hx hf fun s t u => IsTrans.trans s t u

/-- A step under a condition, and what comes after it in both cases. -/
protected theorem guarded {c : Prop} [Decidable c] {x : Routine μ ε σ Unit}
    {f : Unit → Routine μ ε σ α} (hx : Ensures r held x) (hf : ∀ u, Ensures r held (f u)) :
    Ensures r held (if c then x >>= f else f ()) :=
  .ite (fun _ => .seq hx hf) fun _ => hf ()

end Ensures

end Routine

end Locking
