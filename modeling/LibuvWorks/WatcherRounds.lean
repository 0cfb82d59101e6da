import LibuvWorks.Unix.WatcherQueue
import LibuvWorks.Win.WatcherList

/-!
# Loop watchers on both backends

The queue of unix and the list of Windows show the same, and what the rounds of both are.
-/
namespace LibuvWorks

open List

variable {ι γ : Type*} [DecidableEq ι]

/-- The last round of a sequence, after which `v` is seen. -/
def LastRound (view : List (WatcherEvent ι γ) → Except Fault (WatcherView ι γ))
    (es : List (WatcherEvent ι γ)) (v : WatcherView ι γ) : Prop :=
  ∀ before round start, es = before ++ .invoke :: round → .invoke ∉ round →
    view before = .ok start → start.current = none →
    IsRound (fun a => view (before ++ .invoke :: a)) start round v

/-- A backend that shows what the list of active watchers does has its rounds. -/
theorem lastRound_of_view {view : List (WatcherEvent ι γ) → Except Fault (WatcherView ι γ)}
    (hview : ∀ es : List (WatcherEvent ι γ), es.Pairwise WatcherEvent.Respects →
      view es = .ok (Watchers.init.run es).view)
    {es : List (WatcherEvent ι γ)} (hes : es.Pairwise WatcherEvent.Respects) :
    LastRound view es (Watchers.init.run es).view := by
  rintro before round start rfl hround hstart hcur
  rw [hview before (pairwise_append.mp hes).1] at hstart
  cases hstart
  have hrun : ∀ a, Watchers.init.run (before ++ .invoke :: a) =
      ((Watchers.init.run before).next .invoke).run a := by
    intro a
    rw [Watchers.run, foldl_append]
    rfl
  rw [hrun]
  apply (Watchers.isRound (Watchers.sound_init.run before) hcur hround).congr
  rintro a b rfl
  rw [← cons_append, ← append_assoc] at hes
  rw [hview _ (pairwise_append.mp hes).1, hrun]

/-- For all calls on handles that are not used again after `uv_close`, whatever the callbacks do,
both backends show the same, and their rounds call what they have to. -/
theorem watchers_agree (junk : RingLinks (Unix.QueueNode ι)) (next prev : ι → Option ι)
    (es : List (WatcherEvent ι γ)) (hes : es.Pairwise WatcherEvent.Respects) :
    ∃ v, Unix.watcherView junk es = .ok v ∧ Win.watcherView next prev es = .ok v ∧
      LastRound (Unix.watcherView junk) es v ∧ LastRound (Win.watcherView next prev) es v := by
  refine ⟨_, Unix.watcherView_eq junk es hes, Win.watcherView_eq next prev es hes, ?_, ?_⟩
  · exact lastRound_of_view (Unix.watcherView_eq junk) hes
  · exact lastRound_of_view (Win.watcherView_eq next prev) hes

/-- A round in which watchers are stopped, restarted and closed. -/
theorem watchers_agree_restart :
    ∃ v, Unix.watcherView ⟨fun _ => .loop, fun _ => .loop⟩
        [.start 1 (some 10), .start 2 (some 20), .start 3 (some 30), .invoke, .stop 2,
          .start 2 (some 21), .returned, .close 1, .returned] = .ok v ∧
      Win.watcherView (fun _ => none) (fun _ => none)
        [.start 1 (some 10), .start 2 (some 20), .start 3 (some 30), .invoke, .stop 2,
          .start 2 (some 21), .returned, .close 1, .returned] = .ok v ∧
      LastRound (Unix.watcherView ⟨fun _ => .loop, fun _ => .loop⟩)
        [.start 1 (some 10), .start 2 (some 20), .start 3 (some 30), .invoke, .stop 2,
          .start 2 (some 21), .returned, .close 1, .returned] v ∧
      LastRound (Win.watcherView (fun _ => none) (fun _ => none))
        [.start 1 (some 10), .start 2 (some 20), .start 3 (some 30), .invoke, .stop 2,
          .start 2 (some 21), .returned, .close 1, .returned] v :=
  watchers_agree _ _ _ _ (by decide)

/-- A watcher that is started after `uv_close` is called on unix; on Windows an assertion fails. -/
theorem start_after_close :
    (Unix.watcherView ⟨fun _ => .loop, fun _ => .loop⟩
        [.close 0, .start 0 (some 7), .invoke]).map WatcherView.calls = .ok [(0, 7)] ∧
      Win.watcherView (fun _ => none) (fun _ => none)
        [.close 0, .start 0 (some 7), .invoke] = .error .assertion :=
  ⟨rfl, rfl⟩

end LibuvWorks
