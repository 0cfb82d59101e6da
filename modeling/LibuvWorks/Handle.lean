import Mathlib.Data.Int.Notation

/-!
# Handles and failures

What the two backends have in common: pointers to handles, and the ways an
operation of a loop does not return.
-/
namespace LibuvWorks

universe u

/-- The handle types declared by `UV_LOOP_WATCHER_DEFINE`. -/
inductive WatcherKind where
  | prepare : WatcherKind
  | check : WatcherKind
  | idle : WatcherKind
  deriving DecidableEq

/-- A `uv_handle_t *` together with the type its caller knows it has: a timer, a loop
watcher or a stream. -/
inductive Handle (ι : Type*) where
  | timer : ι → Handle ι
  | watcher : WatcherKind → ι → Handle ι
  | stream : ι → Handle ι
  deriving DecidableEq

/-- `uv_run_mode` -/
inductive RunMode where
  | default : RunMode
  | once : RunMode
  | nowait : RunMode
  deriving DecidableEq

inductive Fault where
  /-- A `NULL` pointer was dereferenced. -/
  | crash : Fault
  /-- An `assert` failed. -/
  | assertion : Fault
  /-- The bound on the iterations of a loop was too small. -/
  | fuel : Fault

/-- `-EINVAL` -/
def einval : ℤ := -22

theorem bind_eq_ok {ε : Type*} {α β : Type u} {x : Except ε α} {f : α → Except ε β} {r : β} :
    x >>= f = .ok r ↔ ∃ a, x = .ok a ∧ f a = .ok r := by
  cases x with
  | error e | ok a => simp [bind, Except.bind]

end LibuvWorks
