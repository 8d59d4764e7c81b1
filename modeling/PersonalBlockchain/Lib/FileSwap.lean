import Mathlib.Tactic.Common

/-!
# Replacing a file through a temporary one

A file is replaced safely by writing a temporary file next to it and renaming.
A `Program` is a sequence of operations on a `Directory` of three names; it may
look whether a name exists and whether a rename succeeded. Renaming and
removing are atomic, writing is not: a program that is interrupted at its
`k`-th operation has done the `k` operations before it, and when that
operation is a write it may have left a fragment of the text.

* `run` / `interrupt` — a program that completes, and one that does not;
* `restart` — a recovery program that is itself interrupted any number of
  times before it completes;
* `restart_eq` — interruptions of a recovery that picks up where it was leave
  no trace.
-/

namespace FileSwap

variable {τ : Type*}

/-- The file, its replacement and its backup. -/
inductive Name
  | file
  | tmp
  | bak

/-- What stands under each of the three names, nothing at first. -/
structure Directory (τ : Type*) where
  file : Option τ := none
  tmp : Option τ := none
  bak : Option τ := none

namespace Directory

/-- The content of a name. -/
def get (dir : Directory τ) : Name → Option τ
  | .file => dir.file
  | .tmp => dir.tmp
  | .bak => dir.bak

/-- Change the content of a name. -/
def set (dir : Directory τ) (content : Option τ) : Name → Directory τ
  | .file => { dir with file := content }
  | .tmp => { dir with tmp := content }
  | .bak => { dir with bak := content }

end Directory

/-- A program over the three names; it ends with an answer. What it does next
may depend on whether a file is there and on whether a rename succeeded. -/
inductive Program (τ : Type*)
  | done (ok : Bool)
  /-- truncate or create, then write everything -/
  | write (name : Name) (text : τ) (next : Program τ)
  /-- look whether there is such a file -/
  | isThere (name : Name) (next : Bool → Program τ)
  | remove (name : Name) (next : Program τ)
  /-- fails when the source does not exist -/
  | rename (source target : Name) (next : Bool → Program τ)

/-- A completed program: its answer and the directory it leaves. A rename of a
file that does not exist changes nothing and says so. -/
def run : Program τ → Directory τ → Bool × Directory τ
  | .done ok, dir => (ok, dir)
  | .write name text next, dir => run next (dir.set (some text) name)
  | .isThere name next, dir => run (next (dir.get name).isSome) dir
  | .remove name next, dir => run next (dir.set none name)
  | .rename source target next, dir =>
    match dir.get source with
    | some text => run (next true) ((dir.set (some text) target).set none source)
    | none => run (next false) dir

/-- The directory after the first `k` operations of a program, the next one not
done, except that a write may have left a `fragment` of its text: any text at
all, since nothing is known of what reached the disk. -/
def interrupt (fragment : Option τ) : Nat → Program τ → Directory τ → Directory τ
  | _, .done _, dir => dir
  | 0, .write name _ _, dir =>
    match fragment with
    | some text => dir.set (some text) name
    | none => dir
  -- looking, removing and renaming happen or do not
  | 0, _, dir => dir
  | k + 1, .write name text next, dir => interrupt fragment k next (dir.set (some text) name)
  | k + 1, .isThere name next, dir => interrupt fragment k (next (dir.get name).isSome) dir
  | k + 1, .remove name next, dir => interrupt fragment k next (dir.set none name)
  | k + 1, .rename source target next, dir =>
    match dir.get source with
    | some text =>
      interrupt fragment k (next true) ((dir.set (some text) target).set none source)
    | none => interrupt fragment k (next false) dir

/-- Recovery at start-up: interrupted at each of the given operations in turn,
then completed. Each start begins again from the first operation. -/
def restart (recovery : Program τ) : List Nat → Directory τ → Directory τ
  | [], dir => (run recovery dir).2
  -- recovery writes nothing, so an interruption leaves no fragment
  | k :: ks, dir => restart recovery ks (interrupt none k recovery dir)

/-- **Repeated crashes during recovery do no harm** when a recovery started on
what an interrupted one left ends where the interrupted one would have. -/
theorem restart_eq {recovery : Program τ}
    (hresume : ∀ k dir, (run recovery (interrupt none k recovery dir)).2 = (run recovery dir).2)
    (ks : List Nat) (dir : Directory τ) : restart recovery ks dir = (run recovery dir).2 := by
  induction ks generalizing dir with
  | nil => rfl
  | cons k ks ih => rw [restart, ih, hresume]

end FileSwap
