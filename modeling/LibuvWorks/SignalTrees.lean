import LibuvWorks.Unix.SignalTree
import LibuvWorks.Win.SignalTree

/-!
# Signal registration

What the signal trees of both backends have, and when a handler is installed for them.
-/
namespace LibuvWorks

open Transition

variable {Λ ι γ : Type*} [LinearOrder Λ] [LinearOrder ι]

/-- The tree has the handles that watch a signal, each once and in order. On Unix the handler of the
process is installed for the signals that they watch. On Windows the references to the control
handler are the handles that watch a signal of the console, it is hooked if there are any, and no
assertion fails. -/
theorem signals_registered (capacity : ℕ) :
    (∀ s : Unix.Signals Λ ι γ,
      Reachable Unix.Signals.LoopInit (Unix.Signals.LoopStep capacity) s →
      s.tree.Nodup ∧ (∀ h, h ∈ s.tree ↔ (s.handle h).signum ≠ 0) ∧ s.tree.Pairwise s.uvSignalLe ∧
      ∀ signum, s.registered signum = true ↔ ∃ h ∈ s.tree, (s.handle h).signum = signum) ∧
    ∀ s : Win.SignalTree Λ ι, Reachable Win.SignalTree.Init Win.SignalTree.Step s →
      s.tree.Nodup ∧ (∀ h, h ∈ s.tree ↔ (s.handle h).signum ≠ 0) ∧ s.tree.Pairwise s.uvSignalLe ∧
      s.controlHandlerRefs = s.tree.countP s.watchesControl ∧
      (s.hooked = true ↔ 0 < s.controlHandlerRefs) ∧ ∀ e, s.Enabled e → ∃ t, s.next e = some t := by
  constructor
  · intro s h
    have hs := Unix.Signals.Treed.of_reachable h
    exact ⟨hs.registers.nodup, hs.registers.mem, hs.registers.sorted, hs.registered⟩
  · intro s h
    have hs := Win.SignalTree.Treed.of_reachable h
    refine ⟨hs.registers.nodup, hs.registers.mem, hs.registers.sorted, hs.refs, hs.hooked, ?_⟩
    intro e henabled
    obtain ⟨t, ht, -⟩ := hs.next henabled
    exact ⟨t, ht⟩

def freshUnix : Unix.Signals ℕ ℕ Unit where
  handle := fun h => ⟨h, 0, none, 0, 0, false, false, false⟩
  loop := fun _ => ⟨[], [], .user, none, []⟩
  tree := []
  registered := fun _ => false
  walk := none

theorem freshUnix_init : Unix.Signals.LoopInit freshUnix :=
  ⟨⟨rfl, rfl, fun _ => ⟨rfl, rfl, rfl, rfl⟩, fun _ => ⟨rfl, rfl, rfl, rfl, rfl⟩⟩, fun _ => rfl⟩

/-- Two handles watch a signal, one of them changes to another signal for which `sigaction` fails,
and the loop of a third is cleaned up. -/
def unixRun : Option (Unix.Signals ℕ ℕ Unit) :=
  [.event (.start 2 none 15), .event (.register 2 false), .event (.start 1 none 15),
    .event (.register 1 true), .event (.start 2 none 9), .event (.register 2 true),
    .event (.start 3 none 2), .event (.register 3 false), .cleanup 3].foldlM
    (fun s (e : Unix.Signals.LoopEvent ℕ ℕ Unit) => s.loopStep 100 e) freshUnix

theorem unixRun_isSome : unixRun.isSome = true := by
  rfl

def freshWin : Win.SignalTree ℕ ℕ where
  handle := fun h => ⟨h, 0, false, false⟩
  tree := []
  controlHandlerRefs := 0
  hooked := false
  starting := fun _ => none

theorem freshWin_init : Win.SignalTree.Init freshWin := ⟨fun _ => rfl, rfl, rfl, rfl, fun _ => rfl⟩

/-- Two handles watch signals of the console, and one of them changes to an invalid signal. -/
def winRun : Option (Win.SignalTree ℕ ℕ) :=
  [.start 2 2, .register 2 true, .start 1 21, .register 1 false, .start 2 3,
    .register 2 true].foldlM
    (fun s (e : Win.SignalTree.Event ℕ ℕ) => s.step e) freshWin

theorem winRun_isSome : winRun.isSome = true := by
  rfl

theorem signals_registered_changed :
    (unixRun.get unixRun_isSome).registered 15 = true ∧
      (winRun.get winRun_isSome).hooked = true := by
  have hunix : Reachable Unix.Signals.LoopInit (Unix.Signals.LoopStep 100)
      (unixRun.get unixRun_isSome) :=
    .of_foldlM (.init freshUnix_init) (Option.some_get unixRun_isSome).symm
  have hwin : Reachable Win.SignalTree.Init Win.SignalTree.Step (winRun.get winRun_isSome) :=
    .of_foldlM (.init freshWin_init) (Option.some_get winRun_isSome).symm
  have hboth := @signals_registered ℕ ℕ Unit _ _ 100
  obtain ⟨-, -, -, hregistered⟩ := hboth.1 _ hunix
  obtain ⟨-, -, -, -, hhooked, -⟩ := hboth.2 _ hwin
  exact ⟨(hregistered 15).mpr ⟨1, by decide, by decide⟩,
    hhooked.mpr (by decide)⟩

end LibuvWorks
